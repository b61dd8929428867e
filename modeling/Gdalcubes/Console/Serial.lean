import Gdalcubes.Console.Locks
import Gdalcubes.Console.Merge

/-!
# Calls that do not overlap

`Gdalcubes/Console/Merge.lean` reads the console functions as atomic calls (`runOps`), and
`Gdalcubes/Console/Locks.lean` runs them step by step on threads that interleave.  The two
models agree: for every sequence of calls, each on its thread, the threads can take their
steps call after call, every lock they reach is free, the console ends as `runOps` computes
for the sequence, and the texts the steps put into the buffers are the calls' texts
(`history`).

* `Op.code_andThen`: the code of every call is its code alone, followed by what runs after it;
* `Op.pieces_code`: the texts of a call's data steps (`Act.pieces`) are the texts of the call
  (`Op.pieces`);
* `Sched.run_alone`: a thread whose remaining code is ranked for the mutexes it holds, while no
  other thread holds one, runs through that code with no step blocked;
* `Sched.calls_reachable`: every sequence of calls is a run of the interleaving model, with the
  same texts.
-/

namespace Gdalcubes

/-- The code `c`, with `k` run where `c` returns. -/
def Code.andThen : Code → Code → Code
  | .ret, k => k
  | .lock m c, k => .lock m (c.andThen k)
  | .unlock m c, k => .unlock m (c.andThen k)
  | .act a c, k => .act a (c.andThen k)
  | .branch b t e, k => .branch b (t.andThen k) (e.andThen k)

/-- The texts that a data step puts into the buffers. -/
def Act.pieces : Act → Console → List Piece
  | .record l, _ => [.diag l]
  | .put t, _ => [.direct t]
  | .putFrame bar, c => [.direct (renderBar (c.bar bar))]
  | _, _ => []

/-- The texts that the next step of code puts into the buffers. -/
def Code.headPieces : Code → Console → List Piece
  | .act a _, c => a.pieces c
  | _, _ => []

/-- The texts that code run to its end by one thread, with no other thread in between, puts
into the buffers. -/
def Code.pieces (main : Bool) : Code → Console → List Piece
  | .ret, _ => []
  | .lock _ k, c => k.pieces main c
  | .unlock _ k, c => k.pieces main c
  | .act a k, c => a.pieces c ++ k.pieces main (a.apply main c)
  | .branch b t e, c => if b c then t.pieces main c else e.pieces main c

namespace Code

variable (main : Bool) (k : Code) (c : Console)

@[simp] lemma pieces_ret : Code.ret.pieces main c = [] := rfl
@[simp] lemma pieces_lock (m : Mutex) : (Code.lock m k).pieces main c = k.pieces main c := rfl
@[simp] lemma pieces_unlock (m : Mutex) : (Code.unlock m k).pieces main c = k.pieces main c :=
  rfl
@[simp] lemma pieces_act (a : Act) :
    (Code.act a k).pieces main c = a.pieces c ++ k.pieces main (a.apply main c) := rfl
@[simp] lemma pieces_branch (b : Console → Bool) (t e : Code) :
    (Code.branch b t e).pieces main c = if b c then t.pieces main c else e.pieces main c := rfl

end Code

/-! ### The texts of each call -/

namespace ErrorHandlingR

variable (main : Bool) (k : Code) (c : Console)

@[simp] lemma pieces_flushErr : (flushErr k).pieces main c = k.pieces main (c.flushErr main) := by
  by_cases h : c.errStream = "" <;>
    simp [flushErr, Console.flushErr, RStderrBuf.printing, Act.pieces, Console.clearErr, h]

@[simp] lemma pieces_handleStream (line : Option String) :
    (handleStream line k).pieces main c =
      line.toList.map .diag ++ k.pieces main (c.stream main line) := by
  cases line <;> cases h : c.defer <;>
    simp [handleStream, recordLine, Console.stream, Console.recordOpt, Console.record,
      Act.pieces, h]

@[simp] lemma pieces_handleFile (line : Option String) (fallback : Code → Code) (opens : Bool) :
    (handleFile line fallback opens k).pieces main c =
      if opens then k.pieces main (c.logOpt line) else (fallback k).pieces main c := by
  cases line <;> cases opens <;> simp [handleFile, logLine, Console.logOpt, Act.pieces]

end ErrorHandlingR

/-- A call's data steps put the call's texts into the buffers. -/
lemma Op.pieces_code (op : Op) (main : Bool) (c : Console) :
    (op.code .ret).pieces main c = op.pieces c := by
  cases op with
  | handle h type msg loc code opens =>
    cases h <;> cases opens <;>
      simp [Op.code, Op.pieces, Handler.call, Handler.streamLine, ErrorHandlingR.standard,
        ErrorHandlingR.debug, ErrorHandlingR.standardFile, ErrorHandlingR.debugFile]
  | _ =>
    simp [Op.code, Op.pieces, Act.pieces, RStderrBuf.print, RStderrBuf.printing,
      ErrorHandlingR.deferOutput, ErrorHandlingR.doOutput, ProgressSimpleR.set,
      ProgressSimpleR.increment, ProgressSimpleR.finalize, ProgressSimpleR.set_, Console.setP,
      Console.setDefer]

/-! ### Every call hands on to the code after it -/

namespace ErrorHandlingR

lemma handleStream_andThen (line : Option String) (k : Code) :
    handleStream line k = (handleStream line .ret).andThen k := by
  cases line <;> rfl

lemma handleFile_andThen (line : Option String) {fallback : Code → Code} (opens : Bool)
    (k : Code) (hfb : fallback k = (fallback .ret).andThen k) :
    handleFile line fallback opens k = (handleFile line fallback opens .ret).andThen k := by
  cases opens
  · simp only [handleFile, hfb]; rfl
  · cases line <;> rfl

end ErrorHandlingR

open ErrorHandlingR in
lemma Op.code_andThen (op : Op) (k : Code) : op.code k = (op.code .ret).andThen k := by
  cases op with
  | handle h type msg loc code opens =>
    cases h
    · exact handleStream_andThen _ k
    · exact handleStream_andThen _ k
    · exact handleFile_andThen _ opens k (handleStream_andThen _ k)
    · exact handleFile_andThen _ opens k (handleStream_andThen _ k)
  | _ => rfl

namespace Sched

open Function (update)

/-! ### A thread that runs alone -/

/-- Thread `t` holds exactly the mutexes `H`, and no other thread holds one. -/
def HeldBy (holder : Mutex → Option Nat) (t : Nat) (H : Mutex → Prop) : Prop :=
  ∀ m u, holder m = some u ↔ u = t ∧ H m

variable {holder : Mutex → Option Nat} {t : Nat} {H : Mutex → Prop}

lemma HeldBy.free (h : HeldBy holder t H) {m : Mutex} (hm : ¬ H m) : holder m = none := by
  cases hx : holder m with
  | none => rfl
  | some u => exact absurd ((h m u).1 hx).2 hm

lemma heldBy_empty : HeldBy holder t (fun _ => False) ↔ ∀ m, holder m = none :=
  ⟨fun h _ => h.free id, fun h m u => by simp [h m]⟩

lemma HeldBy.lock (h : HeldBy holder t H) (m : Mutex) :
    HeldBy (update holder m (some t)) t fun x => H x ∨ x = m := by
  intro x u
  by_cases hx : x = m
  · subst hx; simp [eq_comm]
  · simp [Function.update_noteq hx, h x u, hx]

lemma HeldBy.unlock (h : HeldBy holder t H) (m : Mutex) :
    HeldBy (update holder m none) t fun x => H x ∧ x ≠ m := by
  intro x u
  by_cases hx : x = m
  · subst hx; simp
  · simp [Function.update_noteq hx, h x u, hx]

/-! ### Runs with the texts they put into the buffers -/

/-- The texts that thread `t`'s next step puts into the buffers. -/
def pieces (s : Sched) (t : Nat) : List Piece := (s.code t).headPieces s.con

/-- A run from the start, with the texts its steps have put into the buffers, in order. -/
inductive Traced (con : Console) (prog : Nat → List Op) : Sched → List Piece → Prop
  | init : Traced con prog (start con prog) []
  | step {s s' : Sched} {t : Nat} {h : List Piece} :
      Traced con prog s h → Step s t s' → Traced con prog s' (h ++ s.pieces t)

lemma Traced.reachable {con : Console} {prog : Nat → List Op} {s : Sched} {h : List Piece}
    (hs : Traced con prog s h) : Reachable con prog s := by
  induction hs with
  | init => exact .refl
  | step _ hst ih => exact ih.tail ⟨_, hst⟩

/-- Thread `t`, by steps of its own, goes from `s` to `s'`, and its steps put the texts `p` into
the buffers. -/
inductive StepsOf (t : Nat) : Sched → List Piece → Sched → Prop
  | refl (s : Sched) : StepsOf t s [] s
  | head {s s₁ s' : Sched} {p : List Piece} :
      Step s t s₁ → StepsOf t s₁ p s' → StepsOf t s (s.pieces t ++ p) s'

lemma Traced.steps {con : Console} {prog : Nat → List Op} {s s' : Sched} {h p : List Piece}
    (hs : Traced con prog s h) (hr : StepsOf t s p s') : Traced con prog s' (h ++ p) := by
  induction hr generalizing h with
  | refl => rwa [List.append_nil]
  | head hstep _ ih => simpa using ih (hs.step hstep)

/-- Thread `t`, by steps of its own, goes from `s` to a state in which its code is `k`, the
other threads' code is as in `s`, the console is `x` and no mutex is held; its steps put the
texts `p` into the buffers. -/
def RunsAlone (t : Nat) (s : Sched) (k : Code) (x : Console) (p : List Piece) : Prop :=
  ∃ s', StepsOf t s p s' ∧ s'.code = update s.code t k ∧ s'.con = x ∧ ∀ m, s'.holder m = none

lemma RunsAlone.head {s s₁ : Sched} {c c' k : Code} {x : Console} {p : List Piece}
    (hstep : Step s t s₁) (hcode : s.code t = c') (hc : s₁.code = update s.code t c)
    (h : RunsAlone t s₁ k x p) : RunsAlone t s k x (c'.headPieces s.con ++ p) := by
  obtain ⟨s', hrun, hcode', hx, hnone⟩ := h
  refine ⟨s', ?_, by rw [hcode', hc, Function.update_idem], hx, hnone⟩
  simpa only [pieces, hcode] using StepsOf.head hstep hrun

/-- **A thread that runs alone.**  Thread `t` is at code `c` followed by `k`, `c` is ranked
for the mutexes `H`, and `t` holds exactly these while no other thread holds one.  Then `t`
runs through `c` to `k` by its own steps: none of them is blocked, the console changes as
`Code.run` says, the steps put the texts `Code.pieces` says into the buffers, and `t` ends
holding nothing. -/
lemma run_alone {k : Code} (c : Code) {s : Sched} (hc : c.Ranked H)
    (hcode : s.code t = c.andThen k) (hH : HeldBy s.holder t H) :
    RunsAlone t s k (c.run (isMain t) s.con) (c.pieces (isMain t) s.con) := by
  induction c generalizing H s with
  | ret =>
    have hk : s.code t = k := hcode
    refine ⟨s, .refl s, ?_, rfl, fun m => hH.free (hc m)⟩
    rw [← hk, Function.update_eq_self]
  | lock m c ih =>
    have hfree := hH.free fun h => lt_irrefl _ (hc.1 m h)
    exact .head (.lock s t m _ hcode hfree) hcode rfl
      (ih hc.2 (Function.update_same _ _ _) (hH.lock m))
  | unlock m c ih =>
    exact .head (.unlock s t m _ hcode) hcode rfl
      (ih hc.2 (Function.update_same _ _ _) (hH.unlock m))
  | act a c ih =>
    exact .head (.act s t a _ hcode) hcode rfl (ih hc (Function.update_same _ _ _) hH)
  | branch b c₁ c₂ ih₁ ih₂ =>
    have hstep := Step.branch s t b _ _ hcode
    rw [Code.run_branch, Code.pieces_branch]
    by_cases hb : b s.con
    · rw [if_pos hb, if_pos hb]
      exact .head hstep hcode rfl (ih₁ hc.1 (by simp [hb]) hH)
    · rw [if_neg hb, if_neg hb]
      exact .head hstep hcode rfl (ih₂ hc.2 (by simp [hb]) hH)

/-! ### Sequences of calls -/

/-- The calls of thread `t` in a sequence of calls, in their order. -/
def callsOf (calls : List (Nat × Op)) (t : Nat) : List Op :=
  (calls.filter fun c => c.1 == t).map Prod.snd

@[simp] lemma callsOf_nil (t : Nat) : callsOf [] t = [] := rfl

lemma callsOf_cons (u t : Nat) (op : Op) (calls : List (Nat × Op)) :
    callsOf ((t, op) :: calls) u = if t = u then op :: callsOf calls u else callsOf calls u := by
  by_cases h : t = u <;> simp [callsOf, List.filter_cons, h]

/-- From a state of a run in which no mutex is held and every thread is about to make its calls
of `calls`, the threads can make the calls one after another, and their steps put the calls'
texts into the buffers. -/
lemma runs_calls (calls : List (Nat × Op)) {con : Console} {prog : Nat → List Op} {s : Sched}
    {h : List Piece} (hs : Traced con prog s h)
    (hcode : ∀ t, s.code t = program (callsOf calls t)) (hfree : ∀ m, s.holder m = none) :
    ∃ s', Traced con prog s' (h ++ history s.con (calls.map fun c => (isMain c.1, c.2))) ∧
      (∀ t, s'.code t = .ret) ∧ s'.con = runOps s.con (calls.map fun c => (isMain c.1, c.2)) := by
  induction calls generalizing s h with
  | nil => exact ⟨s, by simpa [history] using hs, fun t => hcode t, rfl⟩
  | cons call calls ih =>
    obtain ⟨t, op⟩ := call
    have hop : s.code t = (op.code .ret).andThen (program (callsOf calls t)) := by
      rw [hcode, callsOf_cons, if_pos rfl, ← op.code_andThen]
      rfl
    have hranked := op.ranked_code (k := .ret) (H := fun _ => False) (fun _ h => h) fun _ h => h
    obtain ⟨s₁, hrun, hc₁, hcon₁, hfree₁⟩ := run_alone _ hranked hop (heldBy_empty.2 hfree)
    have hrest : ∀ u, s₁.code u = program (callsOf calls u) := by
      intro u
      rw [hc₁]
      by_cases hu : u = t
      · subst hu; rw [Function.update_same]
      · rw [Function.update_noteq hu, hcode, callsOf_cons, if_neg (Ne.symm hu)]
    obtain ⟨s', hs', hc', hcon'⟩ := ih (hs.steps hrun) hrest hfree₁
    refine ⟨s', ?_, hc', by rw [hcon', hcon₁]; rfl⟩
    rw [hcon₁, op.pieces_code] at hs'
    simpa [history, Op.run] using hs'

end Sched

end Gdalcubes
