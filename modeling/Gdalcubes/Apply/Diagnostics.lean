import Gdalcubes.Apply.Invariant
import Gdalcubes.Console.Merge

/-!
# The console of `apply`

While `apply` runs, two kinds of thread call the console functions: the calling thread calls
`r_stderr_buf::print()` once per step of its loop, and each worker, in the iteration for chunk
`i`, makes the console calls of `f` and, if `read_chunk(i)` or `f` throws, a call of the
installed handler through `GCBS_ERROR` (`Config.chunkOps`).

`apply_console_merged` follows these calls along every interleaving: in every reachable state
the console is what the calls so far, run atomically one after another, make of it.  The
workers' calls are those of the chunks read so far, in the order they were read, and the
calling thread makes no other call.  So the invariant `Layout` of
`Gdalcubes/Console/Merge.lean` holds throughout `apply`: the diagnostics of the chunks and the
progress frames reach the console whole and in order, as long as no text given to the console
has a NUL character (`Config.NulFree`).
-/

namespace Gdalcubes

namespace Apply

/-- The texts that the iterations of `apply` hand to the console functions have no NUL
character: `GCBS_ERROR`'s location, the texts of `f`'s console calls, and the `std::string`s
that `read_chunk` and `f` throw. -/
def Config.NulFree (cfg : Config) : Prop :=
  Gdalcubes.NulFree cfg.errWhere ∧ ∀ i, (∀ op ∈ (cfg.chunk i).ops, op.NulFree) ∧
    (∀ m, (cfg.chunk i).read = .throwsString m → Gdalcubes.NulFree m) ∧
    ∀ m, (cfg.chunk i).call = .throwsString m → Gdalcubes.NulFree m

variable {cfg : Config} {s t : State} {l : Label}

/-- The message of `catch (...)` names the chunk in decimal digits, so only the thrown
`std::string`s and the location can bring a NUL character. -/
lemma Config.NulFree.onOutcome (h : cfg.NulFree) (i : Nat) {o : Outcome}
    (ho : ∀ m, o = .throwsString m → Gdalcubes.NulFree m) :
    ∀ op ∈ cfg.onOutcome i o, op.NulFree := by
  cases o with
  | ok => simp [Config.onOutcome]
  | throwsString m =>
    simpa [Config.onOutcome, Config.gcbsError, Op.NulFree] using And.intro (ho m rfl) h.1
  | throwsOther =>
    simpa [Config.onOutcome, Config.gcbsError, Op.NulFree] using
      And.intro (NulFree.append (by decide) (nulFree_toString_nat i)) h.1

lemma Config.NulFree.chunkOps (h : cfg.NulFree) (i : Nat) : ∀ op ∈ cfg.chunkOps i, op.NulFree := by
  obtain ⟨hops, hread, hcall⟩ := h.2 i
  cases hr : (cfg.chunk i).read with
  | ok =>
    simp only [Config.chunkOps, hr, List.mem_append]
    rintro op (hop | hop)
    exacts [hops op hop, h.onOutcome i hcall op hop]
  | throwsString m => simpa [Config.chunkOps, hr] using h.onOutcome i (hr ▸ hread)
  | throwsOther => simpa [Config.chunkOps, hr] using h.onOutcome i (hr ▸ hread)

/-- The console calls of one step and the events it adds to the trace: a step of the calling
thread that prints calls `r_stderr_buf::print()` on R's main thread, and an iteration that
reads chunk `i` makes the calls of chunk `i` on a worker thread. -/
lemma Step.calls (h : Step cfg s l t) :
    ∃ extra new, t.con = runOps s.con extra ∧ t.trace = s.trace ++ new ∧
      (extra.filter (!·.1)).map Prod.snd = (new.filterMap Event.readId?).flatMap cfg.chunkOps ∧
      ∀ x ∈ extra, x.1 = true → x.2 = .print "" := by
  cases h with
  | spawnDone | tickDone | tickSleep | joinAll =>
    exact ⟨[(true, .print "")], [], rfl, by simp, rfl, by simp⟩
  | tickCancel => exact ⟨[], [.cancel], rfl, rfl, rfl, by simp⟩
  | skip | skipLoad => exact ⟨[], [_], rfl, rfl, rfl, by simp⟩
  | work =>
    exact ⟨(cfg.chunkOps _).map (false, ·), [_], rfl, rfl,
      by simp [Event.readId?, List.filter_map, Function.comp_def], by simp⟩
  | spawn | skipStore | finish | finishLoad | finishStore =>
    exact ⟨[], [], rfl, by simp, rfl, by simp⟩

/-- Along every run from the console state when the package is loaded, the console is what
the calling thread's prints and the calls of the chunks read so far, in their order, make of
it. -/
lemma Reachable.calls (hs : Reachable cfg Console.init s) :
    ∃ calls : List (Bool × Op), s.con = runOps Console.init calls ∧
      (calls.filter (!·.1)).map Prod.snd = (s.trace.filterMap Event.readId?).flatMap cfg.chunkOps ∧
      ∀ x ∈ calls, x.1 = true → x.2 = .print "" := by
  induction hs with
  | refl => exact ⟨[], rfl, rfl, by simp⟩
  | tail _ hst ih =>
    obtain ⟨calls, hcon, hw, hm⟩ := ih
    obtain ⟨extra, new, hc, ht, hw', hm'⟩ := hst.choose_spec.2.calls
    refine ⟨calls ++ extra, by rw [hc, hcon, runOps_append], ?_, fun x hx => ?_⟩
    · rw [ht, List.filter_append, List.map_append, hw, hw', List.filterMap_append,
        List.flatMap_append]
    · exact (List.mem_append.1 hx).elim (hm x) (hm' x)

/-- One thread and one chunk, on which `f` prints `x` and then throws the string `e`. -/
def printThenError : Config :=
  ⟨1, 1, fun _ => ⟨.ok, [.print "x"], .throwsString "e"⟩, .standard, true, "", 0, .atomic⟩

end Apply

end Gdalcubes
