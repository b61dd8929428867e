import Gdalcubes.Console.Handlers

/-!
# When diagnostics wait

`error_handling_r` keeps a recorded line in `_err_stream` only while `_defer` is set:
`standard` and `debug` hand the stream to `r_stderr_buf::print` at once unless output is
deferred, and `do_output` hands it over and clears `_defer`.  `_defer` is set by
`defer_output` and by every progress update of `progress_simple_R` (`set` and `increment`,
through `_set`), and cleared by `do_output`, which `finalize` calls last.

* `Op.deferAfter`: what a call leaves in `_defer`;
* `Op.run_defer`, `Op.run_waits`: one call sets `_defer` as `deferAfter` says, and keeps
  `Console.Waits`, "no line waits while output is not deferred";
* `console_defer_waits`: along every sequence of calls, `_defer` is what the last call that
  changes it left, and while it is clear `_err_stream` is empty.
-/

namespace Gdalcubes

/-- What a call leaves in `_defer`: `defer_output`, `set` and `increment` set it,
`do_output` and `finalize` clear it, and `print` and the handlers leave it as it was. -/
def Op.deferAfter : Op → Option Bool
  | .deferOutput => some true
  | .set _ _ => some true
  | .increment _ _ => some true
  | .doOutput => some false
  | .finalize _ => some false
  | .print _ => none
  | .handle .. => none

/-- `_defer` after a sequence of calls that starts with `_defer = d`: what the last call that
changes it left, or `d` if none does. -/
def deferAfterAll (d : Bool) (ops : List Op) : Bool :=
  (ops.reverse.findSome? Op.deferAfter).getD d

namespace Console

/-- No recorded line waits in `_err_stream` while output is not deferred. -/
def Waits (c : Console) : Prop := c.defer = false → c.errStream = ""

variable (main : Bool) (line : Option String) (c : Console)

@[simp] lemma recordOpt_defer : (c.recordOpt line).defer = c.defer := by
  cases line <;> rfl

@[simp] lemma logOpt_defer : (c.logOpt line).defer = c.defer := by
  cases line <;> rfl

@[simp] lemma logOpt_errStream : (c.logOpt line).errStream = c.errStream := by
  cases line <;> rfl

@[simp] lemma stream_defer : (c.stream main line).defer = c.defer := by
  unfold stream; split <;> simp

/-- A handler that finds output not deferred hands its line on at once. -/
lemma stream_errStream {c : Console} (h : c.defer = false) :
    (c.stream main line).errStream = "" := by
  simp [stream, h]

end Console

open Console

/-- One call sets `_defer` as `deferAfter` says. -/
lemma Op.run_defer (op : Op) (main : Bool) (c : Console) :
    (op.run main c).defer = op.deferAfter.getD c.defer := by
  cases op with
  | handle h type msg loc code opens => cases h <;> cases opens <;> simp [deferAfter]
  | _ => simp [deferAfter, Console.setP]

/-- One call keeps `Waits`: a handler that finds output deferred leaves it deferred, one that
does not hands its line on, and every call that clears `_defer` empties the stream. -/
lemma Op.run_waits (op : Op) (main : Bool) {c : Console} (hc : c.Waits) :
    (op.run main c).Waits := by
  intro hd
  rw [op.run_defer] at hd
  cases op with
  | print t => simpa using hc hd
  | handle h type msg loc code opens =>
    cases h <;> cases opens <;> simp_all [Waits, deferAfter, stream_errStream]
  | deferOutput | set | increment => cases hd
  | doOutput | finalize => simp

lemma Console.Waits.runOps {c : Console} (hc : c.Waits) (calls : List (Bool × Op)) :
    (runOps c calls).Waits := by
  induction calls generalizing c with
  | nil => exact hc
  | cons x calls ih => exact ih (x.2.run_waits x.1 hc)

/-- Calls that never set `_defer` keep it clear, and with it `_err_stream` empty. -/
lemma runOps_clear {c : Console} (hd : c.defer = false) (he : c.errStream = "")
    (calls : List (Bool × Op)) (h : ∀ x ∈ calls, x.2.deferAfter ≠ some true) :
    (runOps c calls).defer = false ∧ (runOps c calls).errStream = "" := by
  induction calls generalizing c with
  | nil => exact ⟨hd, he⟩
  | cons x calls ih =>
    have hd' : (x.2.run x.1 c).defer = false := by
      rw [x.2.run_defer, hd]
      cases hx : x.2.deferAfter with
      | none => rfl
      | some b =>
        cases b
        · rfl
        · exact absurd hx (h x (.head _))
    exact ih hd' (x.2.run_waits x.1 (fun _ => he) hd') fun y hy => h y (.tail _ hy)

/-- **When diagnostics wait.**  Take any sequence of calls of the console functions, on any
threads, from a state in which no line waits while output is not deferred, such as the state
when the package is loaded.  After the calls, `_defer` is what the last call that changes it
left: set by `defer_output`, `set` or `increment`, cleared by `do_output` or `finalize`.  And
while `_defer` is clear, `_err_stream` is empty: a diagnostic is held back only after a
progress update or `defer_output` that no `do_output` or `finalize` has followed. -/
theorem console_defer_waits (c : Console) (hc : c.Waits) (calls : List (Bool × Op)) :
    (runOps c calls).defer = deferAfterAll c.defer (calls.map Prod.snd) ∧
      (runOps c calls).Waits := by
  refine ⟨?_, hc.runOps calls⟩
  induction calls using List.reverseRecOn with
  | nil => rfl
  | append_singleton calls x ih =>
    have hrun : runOps c (calls ++ [x]) = x.2.run x.1 (runOps c calls) := by
      rw [runOps_append]; rfl
    rw [hrun, x.2.run_defer, ih]
    simp only [deferAfterAll, List.map_append, List.map_singleton, List.reverse_append,
      List.reverse_singleton, List.singleton_append, List.findSome?_cons]
    cases x.2.deferAfter <;> rfl

theorem console_defer_waits_deferOutput :
    Console.init.Waits ∧
      (runOps Console.init [(false, .deferOutput), (true, .print "x")]).defer =
        deferAfterAll Console.init.defer [.deferOutput, .print "x"] ∧
      (runOps Console.init [(false, .deferOutput), (true, .print "x")]).Waits :=
  ⟨fun _ => rfl, console_defer_waits Console.init (fun _ => rfl) _⟩

end Gdalcubes
