import Gdalcubes.Console.Buffer

/-!
# The console functions, with their locks

`r_stderr_buf::print`, the error handlers of `error_handling_r` and the progress bar
`progress_simple_R` are written here as `Code`: straight-line code in continuation-passing
form whose steps are a lock, an unlock, a data step on the `Console` (`Act`) and a branch on
shared data.  Each C++ function becomes a function from the code that runs after it returns
to the code of the call, so that calls nest as they do in the source: `finalize` runs
`_set`, which runs `defer_output` and `print`.

Run without interruption (`Code.run`), the code of an operation is its effect as one atomic
step; run step by step on several threads (`Gdalcubes/Console/Locks.lean`), it is the
interleaving that the three kinds of mutex allow.
-/

namespace Gdalcubes

/-- The mutexes of the console functions. -/
inductive Mutex
  /-- `progress_simple_R::_m` of one progress bar. -/
  | progress (bar : Nat)
  /-- `error_handling_r::_m_errhandl`. -/
  | errhandl
  /-- `r_stderr_buf::_m`. -/
  | stderr
deriving DecidableEq

/-- The data steps that the console functions take while they hold their locks. -/
inductive Act
  /-- A formatted line enters `_err_stream`. -/
  | record (line : String)
  /-- The body of `r_stderr_buf::print(t)` for a text given by the caller. -/
  | put (t : String)
  /-- The body of `r_stderr_buf::print(_err_stream.str())`. -/
  | putErr
  /-- `_err_stream.str("")`. -/
  | clearErr
  /-- `_defer = b`. -/
  | setDefer (b : Bool)
  /-- `_p = f(_p)` for one progress bar. -/
  | setP (bar : Nat) (f : Float → Float)
  /-- The body of `r_stderr_buf::print(s.str())` for the frame of one progress bar. -/
  | putFrame (bar : Nat)
  /-- A line written to the log file. -/
  | log (line : String)

/-- A data step taken by a thread; `main` tells whether it is R's main thread. -/
@[simp] def Act.apply (main : Bool) : Act → Console → Console
  | .record line, c => c.record line
  | .put t, c => c.put main t
  | .putErr, c => c.put main c.errStream
  | .clearErr, c => c.clearErr
  | .setDefer b, c => c.setDefer b
  | .setP bar f, c => c.setP bar f
  | .putFrame bar, c => c.put main (renderBar (c.bar bar))
  | .log line, c => c.log line

/-- What a thread has left to run, in continuation-passing form. -/
inductive Code
  /-- The thread has returned from its last call. -/
  | ret
  | lock (m : Mutex) (k : Code)
  | unlock (m : Mutex) (k : Code)
  | act (a : Act) (k : Code)
  /-- An `if` on shared data. -/
  | branch (b : Console → Bool) (t e : Code)

/-- Code run to its end by one thread, with no other thread in between. -/
def Code.run (main : Bool) : Code → Console → Console
  | .ret, c => c
  | .lock _ k, c => k.run main c
  | .unlock _ k, c => k.run main c
  | .act a k, c => k.run main (a.apply main c)
  | .branch b t e, c => if b c then t.run main c else e.run main c

namespace Code

variable (main : Bool) (k : Code) (c : Console)

@[simp] lemma run_ret : Code.ret.run main c = c := rfl
@[simp] lemma run_lock (m : Mutex) : (Code.lock m k).run main c = k.run main c := rfl
@[simp] lemma run_unlock (m : Mutex) : (Code.unlock m k).run main c = k.run main c := rfl
@[simp] lemma run_act (a : Act) : (Code.act a k).run main c = k.run main (a.apply main c) := rfl
@[simp] lemma run_branch (b : Console → Bool) (t e : Code) :
    (Code.branch b t e).run main c = if b c then t.run main c else e.run main c := rfl

end Code

/-! ### `r_stderr_buf` -/

namespace RStderrBuf

/-- A call of `r_stderr_buf::print` whose body, once `_m` is taken, is the data step `a`. -/
def printing (a : Act) (k : Code) : Code := .lock .stderr <| .act a <| .unlock .stderr k

/-- `r_stderr_buf::print(t)`. -/
def print (t : String) : Code → Code := printing (.put t)

@[simp] lemma run_printing (main : Bool) (a : Act) (k : Code) (c : Console) :
    (printing a k).run main c = k.run main (a.apply main c) := rfl

end RStderrBuf

/-! ### `error_handling_r` -/

/-- `gdalcubes::error_level`. -/
inductive ErrorLevel
  | debug
  | info
  | warning
  | error
  | fatal
deriving DecidableEq, Repr

/-- `where_str` of the handlers that print a location: ` [in where]`, or nothing for an empty
location. -/
def whereStr (loc : String) : String := if loc = "" then "" else " [in " ++ loc ++ "]"

/-- The line an error handler formats: the tag of the level (a level without a tag gets no
line), the message, the location for the handlers that print it, and `std::endl`.  The
string `code` that every handler computes from `error_code` is never used. -/
def formatLine (tag : ErrorLevel → Option String) (withWhere : Bool) (type : ErrorLevel)
    (msg loc : String) : Option String :=
  (tag type).map fun t => t ++ msg ++ (if withWhere then whereStr loc else "") ++ "\n"

/-- The tags of `error_handling_r::standard`; it writes nothing for `ERRLVL_DEBUG`. -/
def standardTag : ErrorLevel → Option String
  | .error | .fatal => some "[ERROR] "
  | .warning => some "[WARNING] "
  | .info => some "## "
  | .debug => none

/-- The tags of `error_handling_r::debug`. -/
def debugTag : ErrorLevel → Option String
  | .error | .fatal => some "[ERROR] "
  | .warning => some "[WARNING]  "
  | .info => some "[INFO] "
  | .debug => some "[DEBUG] "

/-- The tags of `error_handling_r::standard_file`; it writes nothing for `ERRLVL_DEBUG`. -/
def standardFileTag : ErrorLevel → Option String
  | .error | .fatal => some "Error: "
  | .warning => some "Warning: "
  | .info => some "## "
  | .debug => none

/-- The tags of `error_handling_r::debug_file`. -/
def debugFileTag : ErrorLevel → Option String
  | .error | .fatal => some "Error  message: "
  | .warning => some "Warning  message: "
  | .info => some "Info message: "
  | .debug => some "Debug message: "

/-- The line a formatting step writes into `_err_stream`, if there is one. -/
def Console.recordOpt (line : Option String) (c : Console) : Console :=
  match line with
  | some l => c.record l
  | none => c

/-- The line a formatting step writes into the log file, if there is one. -/
def Console.logOpt (line : Option String) (c : Console) : Console :=
  match line with
  | some l => c.log l
  | none => c

/-- The effect of `standard` and `debug` once their line is formatted: the line enters the
stream, which is handed on unless output is deferred. -/
def Console.stream (main : Bool) (line : Option String) (c : Console) : Console :=
  if c.defer then c.recordOpt line else (c.recordOpt line).flushErr main

namespace ErrorHandlingR

/-- `if (_err_stream.rdbuf()->in_avail() > 0) { r_stderr_buf::print(_err_stream.str());
_err_stream.str(""); }` -/
def flushErr (k : Code) : Code :=
  .branch (fun c => c.errStream != "") (RStderrBuf.printing .putErr <| .act .clearErr k) k

/-- `error_handling_r::defer_output()`. -/
def deferOutput (k : Code) : Code := .lock .errhandl <| .act (.setDefer true) <| .unlock .errhandl k

/-- `error_handling_r::do_output()`. -/
def doOutput (k : Code) : Code :=
  .lock .errhandl <| flushErr <| .act (.setDefer false) <| .unlock .errhandl k

/-- `_err_stream << tag << msg << ... << std::endl`, for a level that has a tag. -/
def recordLine : Option String → Code → Code
  | some l, k => .act (.record l) k
  | none, k => k

/-- `os << tag << msg << ... << std::endl`, for a level that has a tag. -/
def logLine : Option String → Code → Code
  | some l, k => .act (.log l) k
  | none, k => k

/-- The body that `standard` and `debug` share: the line (if the level has one) enters the
stream, and unless output is deferred the stream is handed to `r_stderr_buf::print`. -/
def handleStream (line : Option String) (k : Code) : Code :=
  .lock .errhandl <| recordLine line <|
    .branch (fun c => !c.defer) (flushErr <| .unlock .errhandl k) (.unlock .errhandl k)

/-- `error_handling_r::standard(type, msg, where, error_code)`. -/
def standard (type : ErrorLevel) (msg loc : String) (_code : Int) : Code → Code :=
  handleStream (formatLine standardTag false type msg loc)

/-- `error_handling_r::debug(type, msg, where, error_code)`. -/
def debug (type : ErrorLevel) (msg loc : String) (_code : Int) : Code → Code :=
  handleStream (formatLine debugTag true type msg loc)

/-- The body that `standard_file` and `debug_file` share: `opens` tells whether
`os.open(_logfile, ...)` succeeds.  If it does, the line is written to the file; if not, the
lock is released and the handler falls back to `fallback`. -/
def handleFile (line : Option String) (fallback : Code → Code) (opens : Bool) (k : Code) :
    Code :=
  .lock .errhandl <|
    if opens then logLine line <| .unlock .errhandl k else .unlock .errhandl (fallback k)

/-- `error_handling_r::standard_file(type, msg, where, error_code)`. -/
def standardFile (type : ErrorLevel) (msg loc : String) (code : Int) (opens : Bool) :
    Code → Code :=
  handleFile (formatLine standardFileTag false type msg loc) (standard type msg loc code) opens

/-- `error_handling_r::debug_file(type, msg, where, error_code)`. -/
def debugFile (type : ErrorLevel) (msg loc : String) (code : Int) (opens : Bool) :
    Code → Code :=
  handleFile (formatLine debugFileTag true type msg loc) (debug type msg loc code) opens

variable (main : Bool) (k : Code) (c : Console)

@[simp] lemma run_flushErr : (flushErr k).run main c = k.run main (c.flushErr main) := by
  by_cases h : c.errStream = "" <;> simp [flushErr, Console.flushErr, h]

@[simp] lemma run_deferOutput : (deferOutput k).run main c = k.run main (c.setDefer true) := rfl

@[simp] lemma run_doOutput :
    (doOutput k).run main c = k.run main ((c.flushErr main).setDefer false) := by
  simp [doOutput]

@[simp] lemma run_handleStream (line : Option String) :
    (handleStream line k).run main c = k.run main (c.stream main line) := by
  cases line <;> cases h : c.defer <;>
    simp [handleStream, recordLine, Console.stream, Console.recordOpt, Console.record, h]

@[simp] lemma run_handleFile (line : Option String) (fallback : Code → Code) (opens : Bool) :
    (handleFile line fallback opens k).run main c =
      if opens then k.run main (c.logOpt line) else (fallback k).run main c := by
  cases line <;> cases opens <;> simp [handleFile, logLine, Console.logOpt]

end ErrorHandlingR

/-! ### `progress_simple_R` -/

namespace ProgressSimpleR

/-- `progress_simple_R::_set`, called with the bar's `_m` held; the new value is `f` of the
old one (`_set(p)` takes `f = fun _ => p`, `increment(dp)` takes `f = (· + dp)`). -/
def set_ (bar : Nat) (f : Float → Float) (k : Code) : Code :=
  ErrorHandlingR.deferOutput <| .act (.setP bar f) <| RStderrBuf.printing (.putFrame bar) k

/-- `progress_simple_R::set(p)`. -/
def set (bar : Nat) (p : Float) (k : Code) : Code :=
  .lock (.progress bar) <| set_ bar (fun _ => p) <| .unlock (.progress bar) k

/-- `progress_simple_R::increment(dp)`. -/
def increment (bar : Nat) (dp : Float) (k : Code) : Code :=
  .lock (.progress bar) <| set_ bar (· + dp) <| .unlock (.progress bar) k

/-- `progress_simple_R::finalize()`. -/
def finalize (bar : Nat) (k : Code) : Code :=
  .lock (.progress bar) <| set_ bar (fun _ => 1) <| RStderrBuf.print "\n" <|
    ErrorHandlingR.doOutput <| .unlock (.progress bar) k

@[simp] lemma run_set_ (main : Bool) (bar : Nat) (f : Float → Float) (k : Code) (c : Console) :
    (set_ bar f k).run main c =
      k.run main (((c.setDefer true).setP bar f).put main (renderBar (f (c.bar bar)))) := by
  simp [set_, Act.apply, Console.setP, Console.setDefer]

end ProgressSimpleR

/-! ### The operations -/

/-- The error handler installed with `config::set_error_handler` (`gc_set_err_handler`). -/
inductive Handler
  | standard
  | debug
  | standardFile
  | debugFile
deriving DecidableEq, Repr

/-- A call of the installed handler; `opens` is read by the handlers that write a file. -/
def Handler.call : Handler → ErrorLevel → String → String → Int → Bool → Code → Code
  | .standard, type, msg, loc, code, _ => ErrorHandlingR.standard type msg loc code
  | .debug, type, msg, loc, code, _ => ErrorHandlingR.debug type msg loc code
  | .standardFile, type, msg, loc, code, opens =>
      ErrorHandlingR.standardFile type msg loc code opens
  | .debugFile, type, msg, loc, code, opens => ErrorHandlingR.debugFile type msg loc code opens

/-- A call of one of the console functions. -/
inductive Op
  /-- `r_stderr_buf::print(t)`. -/
  | print (t : String)
  /-- A call of handler `h`; `opens` tells whether the log file can be opened. -/
  | handle (h : Handler) (type : ErrorLevel) (msg loc : String) (code : Int) (opens : Bool)
  | deferOutput
  | doOutput
  | set (bar : Nat) (p : Float)
  | increment (bar : Nat) (dp : Float)
  | finalize (bar : Nat)

/-- The code of a call, followed by `k`. -/
def Op.code : Op → Code → Code
  | .print t => RStderrBuf.print t
  | .handle h type msg loc code opens => h.call type msg loc code opens
  | .deferOutput => ErrorHandlingR.deferOutput
  | .doOutput => ErrorHandlingR.doOutput
  | .set bar p => ProgressSimpleR.set bar p
  | .increment bar dp => ProgressSimpleR.increment bar dp
  | .finalize bar => ProgressSimpleR.finalize bar

/-- A call run atomically by a thread. -/
def Op.run (main : Bool) (op : Op) (c : Console) : Console := (op.code .ret).run main c

/-- Calls run one after another, each on its thread (`true` for R's main thread). -/
def runOps (c : Console) (calls : List (Bool × Op)) : Console :=
  calls.foldl (fun c call => call.2.run call.1 c) c

lemma runOps_append (c : Console) (a b : List (Bool × Op)) :
    runOps c (a ++ b) = runOps (runOps c a) b :=
  List.foldl_append ..

namespace Op

/-! ### The effect of each call -/

variable (main : Bool) (c : Console)

@[simp] lemma run_print (t : String) : (Op.print t).run main c = c.put main t := rfl

@[simp] lemma run_handle_standard (type : ErrorLevel) (msg loc : String) (code : Int)
    (opens : Bool) : (Op.handle .standard type msg loc code opens).run main c =
      c.stream main (formatLine standardTag false type msg loc) := by
  simp [Op.run, Op.code, Handler.call, ErrorHandlingR.standard]

@[simp] lemma run_handle_debug (type : ErrorLevel) (msg loc : String) (code : Int)
    (opens : Bool) : (Op.handle .debug type msg loc code opens).run main c =
      c.stream main (formatLine debugTag true type msg loc) := by
  simp [Op.run, Op.code, Handler.call, ErrorHandlingR.debug]

@[simp] lemma run_handle_standardFile (type : ErrorLevel) (msg loc : String) (code : Int)
    (opens : Bool) : (Op.handle .standardFile type msg loc code opens).run main c =
      if opens then c.logOpt (formatLine standardFileTag false type msg loc)
      else c.stream main (formatLine standardTag false type msg loc) := by
  simp [Op.run, Op.code, Handler.call, ErrorHandlingR.standardFile, ErrorHandlingR.standard]

@[simp] lemma run_handle_debugFile (type : ErrorLevel) (msg loc : String) (code : Int)
    (opens : Bool) : (Op.handle .debugFile type msg loc code opens).run main c =
      if opens then c.logOpt (formatLine debugFileTag true type msg loc)
      else c.stream main (formatLine debugTag true type msg loc) := by
  simp [Op.run, Op.code, Handler.call, ErrorHandlingR.debugFile, ErrorHandlingR.debug]

@[simp] lemma run_deferOutput : Op.deferOutput.run main c = c.setDefer true := rfl

@[simp] lemma run_doOutput : Op.doOutput.run main c = (c.flushErr main).setDefer false := by
  simp [Op.run, Op.code]

@[simp] lemma run_set (bar : Nat) (p : Float) :
    (Op.set bar p).run main c = ((c.setDefer true).setP bar fun _ => p).put main (renderBar p) := by
  simp [Op.run, Op.code, ProgressSimpleR.set]

@[simp] lemma run_increment (bar : Nat) (dp : Float) :
    (Op.increment bar dp).run main c =
      ((c.setDefer true).setP bar (· + dp)).put main (renderBar (c.bar bar + dp)) := by
  simp [Op.run, Op.code, ProgressSimpleR.increment]

@[simp] lemma run_finalize (bar : Nat) :
    (Op.finalize bar).run main c =
      (((((c.setDefer true).setP bar fun _ => 1).put main (renderBar 1)).put main "\n").flushErr
        main).setDefer false := by
  simp [Op.run, Op.code, ProgressSimpleR.finalize, RStderrBuf.print]

end Op

end Gdalcubes
