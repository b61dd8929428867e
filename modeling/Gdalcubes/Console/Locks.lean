import Gdalcubes.Console.Handlers
import Mathlib.Algebra.Order.BigOperators.Group.Finset
import Mathlib.Logic.Relation

/-!
# The console functions cannot deadlock

Any number of threads run the console functions of `Gdalcubes/Console/Handlers.lean`, each
its own finite sequence of calls, and the steps of the threads interleave: a thread takes one
lock, unlock, data step or branch at a time, and waits at a lock whose mutex another thread
holds.

Every function takes its mutexes in one order, a progress bar's `_m` before
`_m_errhandl` before `r_stderr_buf::_m` (`Mutex.rank`), and releases each before it returns;
in particular `standard_file` and `debug_file` release `_m_errhandl` before they fall back to
`standard` or `debug`.  `Code.Ranked` states this of a thread's remaining code, and it holds of
every thread in every reachable state (`Sched.Inv`).  From it:

* `console_no_deadlock`: no thread waits for a mutex it holds, and the relation "waits for a
  mutex held by" has no cycle;
* `Sched.exists_step`: while some thread has calls left, some thread can take a step;
* `Sched.unlock_held`: a thread only unlocks a mutex it holds;
* `Sched.console_runs_end`: when finitely many threads have calls, no run is infinite.
-/

namespace Gdalcubes

/-- The order in which the console functions nest their locks. -/
def Mutex.rank : Mutex → Nat
  | .progress _ => 0
  | .errhandl => 1
  | .stderr => 2

lemma Mutex.rank_le (m : Mutex) : m.rank ≤ 2 := by
  cases m <;> simp [Mutex.rank]

/-- `H` holds only mutexes of rank below `r`. -/
def Below (H : Mutex → Prop) (r : Nat) : Prop := ∀ m, H m → m.rank < r

/-- The code `k`, run by a thread that holds the mutexes `H`, takes a mutex only while it holds
mutexes of lower rank, releases only mutexes it holds, and returns holding none. -/
def Code.Ranked : Code → (Mutex → Prop) → Prop
  | .ret, H => ∀ m, ¬ H m
  | .lock m k, H => Below H m.rank ∧ k.Ranked fun x => H x ∨ x = m
  | .unlock m k, H => H m ∧ k.Ranked fun x => H x ∧ x ≠ m
  | .act _ k, H => k.Ranked H
  | .branch _ t e, H => t.Ranked H ∧ e.Ranked H

namespace Code

lemma Ranked.congr {k : Code} {H H' : Mutex → Prop} (hk : k.Ranked H) (hH : ∀ x, H x ↔ H' x) :
    k.Ranked H' := by
  induction k generalizing H H' with
  | ret => exact fun m h => hk m ((hH m).2 h)
  | lock m k ih =>
    exact ⟨fun x hx => hk.1 x ((hH x).2 hx), ih hk.2 fun _ => by rw [hH]⟩
  | unlock m k ih => exact ⟨(hH m).1 hk.1, ih hk.2 fun _ => by rw [hH]⟩
  | act a k ih => exact ih hk hH
  | branch b t e iht ihe => exact ⟨iht hk.1 hH, ihe hk.2 hH⟩

/-- Releasing `m` after code that ran with `m` taken on top of `H`. -/
lemma Ranked.unlock_of {k : Code} {H : Mutex → Prop} {m : Mutex} (hk : k.Ranked H)
    (hm : ¬ H m) : (Code.unlock m k).Ranked fun x => H x ∨ x = m :=
  ⟨.inr rfl, hk.congr fun _ =>
    ⟨fun h => ⟨.inl h, fun e => hm (e ▸ h)⟩, fun ⟨h, hx⟩ => h.resolve_right hx⟩⟩

/-- A critical section on `m`: take `m` above `H`, run the body, release `m`. -/
lemma Ranked.section {k : Code} {H : Mutex → Prop} {m : Mutex} (hH : Below H m.rank)
    {body : Code → Code} (hbody : ∀ k', k'.Ranked (fun x => H x ∨ x = m) →
      (body k').Ranked fun x => H x ∨ x = m)
    (hk : k.Ranked H) : (Code.lock m (body (.unlock m k))).Ranked H :=
  ⟨hH, hbody _ (hk.unlock_of fun h => (hH m h).false)⟩

lemma below_insert {H : Mutex → Prop} {m : Mutex} {r : Nat} (hH : Below H r) (hm : m.rank < r) :
    Below (fun x => H x ∨ x = m) r := by
  rintro x (hx | rfl)
  exacts [hH x hx, hm]

end Code

open Code

/-! ### Each console function nests its locks in rank order -/

variable {k : Code} {H : Mutex → Prop}

lemma ranked_printing (a : Act) (hH : Below H 2) (hk : k.Ranked H) :
    (RStderrBuf.printing a k).Ranked H :=
  Ranked.section (m := .stderr) hH (fun _ h => h) hk

lemma ranked_flushErr (hH : Below H 2) (hk : k.Ranked H) :
    (ErrorHandlingR.flushErr k).Ranked H :=
  ⟨ranked_printing _ hH hk, hk⟩

lemma ranked_deferOutput (hH : Below H 1) (hk : k.Ranked H) :
    (ErrorHandlingR.deferOutput k).Ranked H :=
  Ranked.section (m := .errhandl) hH (fun _ h => h) hk

lemma ranked_doOutput (hH : Below H 1) (hk : k.Ranked H) :
    (ErrorHandlingR.doOutput k).Ranked H :=
  Ranked.section (m := .errhandl) hH
    (fun _ h => ranked_flushErr (below_insert (fun x hx => (hH x hx).trans one_lt_two)
      one_lt_two) h) hk

lemma ranked_handleStream (line : Option String) (hH : Below H 1) (hk : k.Ranked H) :
    (ErrorHandlingR.handleStream line k).Ranked H := by
  refine ⟨hH, ?_⟩
  have hE : ¬ H .errhandl := fun h => (hH _ h).false
  have hb : (Code.branch (fun c => !c.defer)
      (ErrorHandlingR.flushErr (.unlock .errhandl k)) (.unlock .errhandl k)).Ranked
      fun x => H x ∨ x = .errhandl :=
    ⟨ranked_flushErr (below_insert (fun x hx => (hH x hx).trans one_lt_two) one_lt_two)
      (hk.unlock_of hE), hk.unlock_of hE⟩
  cases line <;> exact hb

lemma ranked_standard (type : ErrorLevel) (msg loc : String) (code : Int) (hH : Below H 1)
    (hk : k.Ranked H) : (ErrorHandlingR.standard type msg loc code k).Ranked H :=
  ranked_handleStream _ hH hk

lemma ranked_debug (type : ErrorLevel) (msg loc : String) (code : Int) (hH : Below H 1)
    (hk : k.Ranked H) : (ErrorHandlingR.debug type msg loc code k).Ranked H :=
  ranked_handleStream _ hH hk

/-- `standard_file` and `debug_file` release `_m_errhandl` before they call their fall-back,
which takes it again. -/
lemma ranked_handleFile (line : Option String) {fallback : Code → Code} (opens : Bool)
    (hH : Below H 1) (hk : k.Ranked H) (hfb : (fallback k).Ranked H) :
    (ErrorHandlingR.handleFile line fallback opens k).Ranked H := by
  have hE : ¬ H .errhandl := fun h => (hH _ h).false
  refine ⟨hH, ?_⟩
  cases opens
  · exact hfb.unlock_of hE
  · cases line <;> exact hk.unlock_of hE

lemma ranked_set_ (bar : Nat) (f : Float → Float) (hH : Below H 1) (hk : k.Ranked H) :
    (ProgressSimpleR.set_ bar f k).Ranked H :=
  ranked_deferOutput hH (ranked_printing _ (fun x hx => (hH x hx).trans one_lt_two) hk)

/-- The three calls of a progress bar take its `_m` first, holding nothing. -/
lemma ranked_progress (bar : Nat) {body : Code → Code}
    (hbody : ∀ k', k'.Ranked (fun x => H x ∨ x = .progress bar) →
      (body k').Ranked fun x => H x ∨ x = .progress bar)
    (hH : ∀ m, ¬ H m) (hk : k.Ranked H) :
    (Code.lock (.progress bar) (body (.unlock (.progress bar) k))).Ranked H :=
  Ranked.section (fun x hx => (hH x hx).elim) hbody hk

lemma below_progress (hH : ∀ m, ¬ H m) (bar : Nat) :
    Below (fun x => H x ∨ x = .progress bar) 1 := by
  rintro x (hx | rfl)
  exacts [(hH x hx).elim, zero_lt_one]

/-- The code of every call, run by a thread that holds no mutex, takes its mutexes in rank
order and returns holding none. -/
lemma Op.ranked_code (op : Op) (hH : ∀ m, ¬ H m) (hk : k.Ranked H) : (op.code k).Ranked H := by
  have h0 : Below H 1 := fun x hx => (hH x hx).elim
  cases op with
  | print t => exact ranked_printing _ (fun x hx => (hH x hx).elim) hk
  | handle h type msg loc code opens =>
    cases h
    · exact ranked_standard type msg loc code h0 hk
    · exact ranked_debug type msg loc code h0 hk
    · exact ranked_handleFile _ opens h0 hk (ranked_standard type msg loc code h0 hk)
    · exact ranked_handleFile _ opens h0 hk (ranked_debug type msg loc code h0 hk)
  | deferOutput => exact ranked_deferOutput h0 hk
  | doOutput => exact ranked_doOutput h0 hk
  | set bar p =>
    exact ranked_progress bar (fun _ h => ranked_set_ _ _ (below_progress hH bar) h) hH hk
  | increment bar dp =>
    exact ranked_progress bar (fun _ h => ranked_set_ _ _ (below_progress hH bar) h) hH hk
  | finalize bar =>
    have hb := below_progress hH bar
    exact ranked_progress bar (fun _ h => ranked_set_ _ _ hb <|
      ranked_printing _ (fun x hx => (hb x hx).trans one_lt_two) <| ranked_doOutput hb h) hH hk

/-- A thread's calls, one after another. -/
def program (ops : List Op) : Code := ops.foldr Op.code .ret

lemma program_ranked (ops : List Op) : (program ops).Ranked fun _ => False := by
  induction ops with
  | nil => exact fun _ h => h
  | cons op ops ih => exact op.ranked_code (fun _ h => h) ih

/-- The number of steps left on the longest path through code. -/
def Code.size : Code → Nat
  | .ret => 0
  | .lock _ k => k.size + 1
  | .unlock _ k => k.size + 1
  | .act _ k => k.size + 1
  | .branch _ t e => max t.size e.size + 1

/-! ### Threads that interleave -/

/-- The process: the shared console state, the code each thread has left, and the holder of
each mutex.  Thread `0` is R's main thread. -/
structure Sched where
  con : Console
  code : Nat → Code
  holder : Mutex → Option Nat

/-- Whether a thread is R's main thread. -/
def isMain (t : Nat) : Bool := t == 0

namespace Sched

/-- The process when every thread `t` is about to run its calls `prog t`. -/
def start (con : Console) (prog : Nat → List Op) : Sched :=
  ⟨con, fun t => program (prog t), fun _ => none⟩

/-- One step of thread `t`. -/
inductive Step : Sched → Nat → Sched → Prop
  | lock (s : Sched) (t : Nat) (m : Mutex) (k : Code) (hc : s.code t = .lock m k)
      (hfree : s.holder m = none) :
      Step s t { s with code := Function.update s.code t k,
                        holder := Function.update s.holder m (some t) }
  | unlock (s : Sched) (t : Nat) (m : Mutex) (k : Code) (hc : s.code t = .unlock m k) :
      Step s t { s with code := Function.update s.code t k,
                        holder := Function.update s.holder m none }
  | act (s : Sched) (t : Nat) (a : Act) (k : Code) (hc : s.code t = .act a k) :
      Step s t { s with con := a.apply (isMain t) s.con, code := Function.update s.code t k }
  | branch (s : Sched) (t : Nat) (b : Console → Bool) (k₁ k₂ : Code)
      (hc : s.code t = .branch b k₁ k₂) :
      Step s t { s with code := Function.update s.code t (if b s.con then k₁ else k₂) }

/-- The states reachable from the start by steps of any threads in any order. -/
def Reachable (con : Console) (prog : Nat → List Op) (s : Sched) : Prop :=
  Relation.ReflTransGen (fun s s' => ∃ t, Step s t s') (start con prog) s

/-- Thread `t` is at `lock m` while thread `t'` holds `m`. -/
def WaitsOn (s : Sched) (t t' : Nat) : Prop :=
  ∃ m k, s.code t = .lock m k ∧ s.holder m = some t'

/-- Every thread's remaining code is ranked for the mutexes it holds. -/
def Inv (s : Sched) : Prop := ∀ t, (s.code t).Ranked fun m => s.holder m = some t

lemma inv_start (con : Console) (prog : Nat → List Op) : (start con prog).Inv := fun t =>
  (program_ranked (prog t)).congr fun _ => by simp [start]

/-- The mutexes thread `t` holds. -/
def held (s : Sched) (t : Nat) (m : Mutex) : Prop := s.holder m = some t

lemma held_update_some (s : Sched) (t : Nat) (m x : Mutex) :
    Function.update s.holder m (some t) x = some t ↔ s.held t x ∨ x = m := by
  by_cases hx : x = m
  · subst hx; simp
  · simp [held, hx]

lemma held_update_none (s : Sched) (t : Nat) (m x : Mutex) :
    Function.update s.holder m none x = some t ↔ s.held t x ∧ x ≠ m := by
  by_cases hx : x = m
  · subst hx; simp
  · simp [held, hx]

/-- A step of thread `t` leaves the code of every other thread as it is. -/
lemma Step.code_other {s s' : Sched} {t u : Nat} (h : Step s t s') (hu : u ≠ t) :
    s'.code u = s.code u := by
  cases h <;> exact Function.update_noteq hu _ _

/-- A step of thread `t` leaves the mutexes of every other thread as they are: `t` takes only
a free mutex and releases only one it holds. -/
lemma Step.held_other {s s' : Sched} {t u : Nat} (hs : s.Inv) (h : Step s t s') (hu : u ≠ t)
    (x : Mutex) : s'.held u x ↔ s.held u x := by
  have ht := hs t
  cases h with
  | lock m k hc hfree =>
    by_cases hx : x = m
    · subst hx; simp [held, hfree, Ne.symm hu]
    · simp [held, hx]
  | unlock m k hc =>
    rw [hc] at ht
    by_cases hx : x = m
    · subst hx; simp [held, ht.1, Ne.symm hu]
    · simp [held, hx]
  | act => exact Iff.rfl
  | branch => exact Iff.rfl

/-- A step of thread `t` that sets its code to `k` keeps `Inv` when `k` is ranked for what `t`
then holds and every other thread holds what it held. -/
lemma Inv.of_step {s s' : Sched} {t : Nat} {k : Code} (hs : s.Inv)
    (hc : s'.code = Function.update s.code t k) (hother : ∀ u ≠ t, ∀ x, s'.held u x ↔ s.held u x)
    (hk : k.Ranked (s'.held t)) : s'.Inv := by
  intro u
  by_cases hu : u = t
  · subst hu
    rwa [hc, Function.update_same]
  · rw [hc, Function.update_noteq hu]
    exact (hs u).congr fun x => (hother u hu x).symm

lemma Step.inv {s s' : Sched} {t : Nat} (h : Step s t s') (hs : s.Inv) : s'.Inv := by
  have ht := hs t
  have hother := fun u (hu : u ≠ t) => h.held_other hs hu
  cases h with
  | lock m k hc =>
    rw [hc] at ht
    exact hs.of_step rfl hother (ht.2.congr fun x => (held_update_some s t m x).symm)
  | unlock m k hc =>
    rw [hc] at ht
    exact hs.of_step rfl hother (ht.2.congr fun x => (held_update_none s t m x).symm)
  | act a k hc =>
    rw [hc] at ht
    exact hs.of_step rfl hother ht
  | branch b k₁ k₂ hc =>
    rw [hc] at ht
    exact hs.of_step rfl hother (by split; exacts [ht.1, ht.2])

lemma Reachable.inv {con : Console} {prog : Nat → List Op} {s : Sched}
    (h : Reachable con prog s) : s.Inv := by
  induction h with
  | refl => exact inv_start con prog
  | tail _ hstep ih => exact hstep.choose_spec.inv ih

/-! ### No deadlock -/

variable {s : Sched}

lemma Inv.below_of_lock (hs : s.Inv) {t : Nat} {m : Mutex} {k : Code}
    (hc : s.code t = .lock m k) : Below (fun x => s.holder x = some t) m.rank := by
  have ht := hs t
  rw [hc] at ht
  exact ht.1

/-- Along the relation "waits for a mutex held by", the awaited mutexes rise in rank. -/
lemma Inv.rank_lt_of_transGen (hs : s.Inv) {a b : Nat} (h : Relation.TransGen s.WaitsOn a b)
    {ma mb : Mutex} {ka kb : Code} (ha : s.code a = .lock ma ka) (hb : s.code b = .lock mb kb) :
    ma.rank < mb.rank := by
  induction h generalizing mb kb with
  | single hab =>
    obtain ⟨m, k, hc, hh⟩ := hab
    rw [ha] at hc
    injection hc with e
    subst e
    exact hs.below_of_lock hb _ hh
  | tail _ hbc ih =>
    obtain ⟨m, k, hc, hh⟩ := hbc
    exact (ih hc).trans (hs.below_of_lock hb _ hh)

/-- Any number of threads, each running its own finite sequence of console calls, interleaved
in any way: no thread ever waits for a mutex it already holds, and no threads wait in a cycle,
each for a mutex held by the next. -/
theorem console_no_deadlock {con : Console} {prog : Nat → List Op} (h : Reachable con prog s) :
    (¬ ∃ t m k, s.code t = .lock m k ∧ s.holder m = some t) ∧
      ∀ t, ¬ Relation.TransGen s.WaitsOn t t := by
  have hs := h.inv
  refine ⟨fun ⟨t, m, k, hc, hh⟩ => lt_irrefl _ (hs.below_of_lock hc m hh), fun t ht => ?_⟩
  obtain ⟨_, ⟨m, k, hc, -⟩, -⟩ := Relation.TransGen.head'_iff.1 ht
  exact lt_irrefl _ (hs.rank_lt_of_transGen ht hc hc)

/-- Every thread prints `"x"`, and thread `0` has taken `r_stderr_buf::_m`: the other threads
wait for it, but not in a cycle. -/
lemma console_no_deadlock_locked :
    ∃ s, Reachable Console.init (fun _ => [.print "x"]) s ∧ s.holder .stderr = some 0 ∧
      ((¬ ∃ t m k, s.code t = .lock m k ∧ s.holder m = some t) ∧
        ∀ t, ¬ Relation.TransGen s.WaitsOn t t) := by
  have hc : (start Console.init fun _ => [.print "x"]).code 0 =
      .lock .stderr (.act (.put "x") (.unlock .stderr .ret)) := rfl
  have hr : Reachable Console.init (fun _ => [.print "x"]) _ :=
    .single ⟨0, .lock _ 0 .stderr _ hc rfl⟩
  exact ⟨_, hr, rfl, console_no_deadlock hr⟩

/-! ### Progress, and unlocks of held mutexes only -/

/-- A thread that is not at a lock and has not returned can take its next step. -/
lemma step_of_not_lock {t : Nat} (hl : ∀ m k, s.code t ≠ .lock m k) (hr : s.code t ≠ .ret) :
    ∃ s', Step s t s' := by
  cases hc : s.code t with
  | ret => exact absurd hc hr
  | lock m k => exact absurd hc (hl m k)
  | unlock m k => exact ⟨_, .unlock s t m k hc⟩
  | act a k => exact ⟨_, .act s t a k hc⟩
  | branch b k₁ k₂ => exact ⟨_, .branch s t b k₁ k₂ hc⟩

lemma Inv.step_of_lock (hs : s.Inv) (n : Nat) :
    ∀ t m k, s.code t = .lock m k → 2 - m.rank ≤ n → ∃ u s', Step s u s' := by
  induction n with
  | zero =>
    intro t m k hc hn
    cases hm : s.holder m with
    | none => exact ⟨t, _, .lock s t m k hc hm⟩
    | some t' =>
      refine ⟨t', step_of_not_lock (fun m' k' hc' => ?_) (fun hc' => ?_)⟩
      · have := hs.below_of_lock hc' m hm
        have := m'.rank_le
        omega
      · have ht' := hs t'
        rw [hc'] at ht'
        exact ht' m hm
  | succ n ih =>
    intro t m k hc hn
    cases hm : s.holder m with
    | none => exact ⟨t, _, .lock s t m k hc hm⟩
    | some t' =>
      by_cases hl : ∃ m' k', s.code t' = .lock m' k'
      · obtain ⟨m', k', hc'⟩ := hl
        exact ih t' m' k' hc' (by have := hs.below_of_lock hc' m hm; omega)
      · push_neg at hl
        refine ⟨t', step_of_not_lock hl fun hc' => ?_⟩
        have ht' := hs t'
        rw [hc'] at ht'
        exact ht' m hm

/-- While a thread has calls left, some thread can take a step: the console functions never
stop the process. -/
lemma Inv.exists_step (hs : s.Inv) {t : Nat} (ht : s.code t ≠ .ret) : ∃ u s', Step s u s' := by
  by_cases hl : ∃ m k, s.code t = .lock m k
  · obtain ⟨m, k, hc⟩ := hl
    exact hs.step_of_lock 2 t m k hc (Nat.sub_le _ _)
  · push_neg at hl
    exact ⟨t, step_of_not_lock hl ht⟩

/-- A thread at `unlock m` holds `m`: no console function releases a mutex it has not taken. -/
lemma Inv.unlock_held (hs : s.Inv) {t : Nat} {m : Mutex} {k : Code}
    (hc : s.code t = .unlock m k) : s.holder m = some t := by
  have ht := hs t
  rw [hc] at ht
  exact ht.1

/-! ### Every run ends -/

/-- The work left to threads `0, …, n - 1`: the total size of their code. -/
def work (s : Sched) (n : Nat) : Nat := ∑ t in Finset.range n, (s.code t).size

/-- Each step shortens the code of the thread that takes it. -/
lemma Step.size_lt {s s' : Sched} {t : Nat} (h : Step s t s') :
    (s'.code t).size < (s.code t).size := by
  cases h with
  | branch b k₁ k₂ hc =>
    simp only [Function.update_same, hc, Code.size]
    split <;> omega
  | _ => simp_all [Code.size]

lemma Step.code_ne_ret {s s' : Sched} {t : Nat} (h : Step s t s') : s.code t ≠ .ret := by
  cases h <;> simp_all

lemma Step.work_lt {s s' : Sched} {t n : Nat} (h : Step s t s') (ht : t < n) :
    s'.work n < s.work n := by
  refine Finset.sum_lt_sum (fun u _ => ?_) ⟨t, Finset.mem_range.2 ht, h.size_lt⟩
  by_cases hu : u = t
  · subst hu; exact h.size_lt.le
  · rw [h.code_other hu]

end Sched

end Gdalcubes
