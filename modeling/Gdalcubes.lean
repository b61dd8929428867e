import Gdalcubes.Console.Buffer
import Gdalcubes.Console.Handlers
import Gdalcubes.Console.Defer
import Gdalcubes.Console.Merge
import Gdalcubes.Console.Locks
import Gdalcubes.Console.Serial
import Gdalcubes.Console.Interleaved
import Gdalcubes.Apply.Loop
import Gdalcubes.Apply.Machine
import Gdalcubes.Apply.Invariant
import Gdalcubes.Apply.Bits
import Gdalcubes.Apply.Interrupt
import Gdalcubes.Apply.Liveness
import Gdalcubes.Apply.Diagnostics
import Gdalcubes.Api.Threads
import Gdalcubes.Api.Marshal
