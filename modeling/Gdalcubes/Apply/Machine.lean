import Gdalcubes.Apply.Loop
import Gdalcubes.Console.Handlers
import Mathlib.Logic.Relation

/-!
# `chunk_processor_multithread_interruptible::apply` as a transition system

`apply(c, f)` starts `_nthreads` worker threads and then polls them from the calling thread,
which is R's main thread.  Worker `it` runs the loop of `Gdalcubes/Apply/Loop.lean`; in each
iteration it reads the shared flag `interrupted` and either reads chunk `i` and calls `f` on
it, or records in `interrupted_bythread[it]` that it skipped a chunk.  When its loop ends it
sets `finished[it]`.  The calling thread prints `r_stderr_buf`'s buffer once per tick of
`while (!done)`, checks for a user interrupt every `interrupt_every` ticks, joins the workers
and throws if it was interrupted and some worker skipped a chunk.

Every statement of the source is one step here, with two choices left open:

* how `v[k] = true` on the `std::vector<bool>`s `finished` and `interrupted_bythread` is
  carried out (`BitWrites`): as one atomic step, or as what the bit reference of
  `std::vector<bool>` does, a load of the machine word that holds bit `k` and a later store of
  that word with bit `k` set;
* when `Rcpp::checkUserInterrupt()` throws: at any check tick, the step labelled
  `hostInterrupt`.

The state also keeps a trace of the chunks each worker started or skipped and of the
cancellation (`Event`), which the code does not store; it is there to state what happened.
-/

namespace Gdalcubes

namespace Apply

/-- How a call of `c->read_chunk(i)` or of the callback `f` ends. -/
inductive Outcome
  | ok
  /-- It throws a `std::string`, which `catch (std::string s)` catches. -/
  | throwsString (s : String)
  /-- It throws anything else, which `catch (...)` catches. -/
  | throwsOther
deriving DecidableEq, Repr

/-- What processing one chunk does: how `read_chunk(i)` ends, the console calls that `f` makes
(progress updates and diagnostics), and how `f` ends. -/
structure ChunkRun where
  read : Outcome
  ops : List Op
  call : Outcome

/-- How `v[k] = true` on a `std::vector<bool>` is carried out. -/
inductive BitWrites
  /-- In one atomic step. -/
  | atomic
  /-- As a load of the word of `W` bits that holds bit `k`, and later a store of that word
  with bit `k` set. -/
  | wordRMW (W : Nat)
deriving DecidableEq, Repr

/-- What a call of `apply` depends on. -/
structure Config where
  /-- `_nthreads`. -/
  nthreads : UInt16
  /-- `c->count_chunks()`. -/
  count : UInt32
  /-- What `read_chunk(i)` and `f(i, ...)` do for chunk `i`. -/
  chunk : Nat → ChunkRun
  /-- The error handler installed by `gc_set_err_handler`, which `GCBS_ERROR` calls. -/
  handler : Handler
  /-- Whether the log file of `standard_file` and `debug_file` can be opened. -/
  logOpens : Bool
  /-- The location and code that `GCBS_ERROR` passes to the handler. -/
  errWhere : String
  errCode : Int
  bits : BitWrites

/-- The program counter of a worker thread. -/
inductive WorkerPc
  /-- The thread has not been created yet. -/
  | notStarted
  /-- At the test `i < c->count_chunks()` of its loop. -/
  | loop (i : UInt32)
  /-- Between the load and the store of `interrupted_bythread[it] = true`, having loaded the
  bits `word`; the loop goes on with `i += _nthreads` afterwards. -/
  | storeSkip (i : UInt32) (word : Nat → Bool)
  /-- Between the load and the store of `finished[it] = true`, having loaded `word`. -/
  | storeFinished (word : Nat → Bool)
  /-- The thread function has returned. -/
  | exited

/-- How `apply` ends. -/
inductive Result
  | returns
  | throws (msg : String)
deriving DecidableEq, Repr

/-- The program counter of the calling thread. -/
inductive SupPc
  /-- In `for (uint16_t it = 0; it < _nthreads; ++it) workers.push_back(...)`. -/
  | spawn (it : UInt16)
  /-- At the top of `while (!done)`, with the tick counter `i`. -/
  | poll (i : Nat)
  /-- In the loop that joins the workers. -/
  | join
  | returned (r : Result)

/-- What the trace records. -/
inductive Event
  /-- Worker `k` calls `c->read_chunk(i)`. -/
  | readChunk (k i : Nat)
  /-- Worker `k` finds `interrupted` set and skips chunk `i`. -/
  | skip (k i : Nat)
  /-- The calling thread catches the exception of `Rcpp::checkUserInterrupt()`. -/
  | cancel
deriving DecidableEq, Repr

/-- The state of a call of `apply`. -/
structure State where
  interrupted : Bool
  finished : Nat → Bool
  interruptedBythread : Nat → Bool
  worker : Nat → WorkerPc
  sup : SupPc
  /-- The console buffers, which `f`, the error handler and `r_stderr_buf::print` change. -/
  con : Console
  trace : List Event

/-- The state when `apply` is called with the console in state `con`. -/
def init (con : Console) : State :=
  ⟨false, fun _ => false, fun _ => false, fun _ => .notStarted, .spawn 0, con, []⟩

/-! ### What the steps compute -/

/-- `done` after `done = true; for (...) done = done && finished[it];`. -/
def allFinished (n : Nat) (finished : Nat → Bool) : Bool := (List.range n).all finished

/-- `any_incomplete` after the loop over `interrupted_bythread`. -/
def anyIncomplete (n : Nat) (bythread : Nat → Bool) : Bool := (List.range n).any bythread

def sleepMs : Nat := 100
def interruptMs : Nat := 2000
/-- `interrupt_every = interrupt_ms / sleep_ms`. -/
def interruptEvery : Nat := interruptMs / sleepMs

/-- The ticks at which `Rcpp::checkUserInterrupt()` is called:
`i >= interrupt_every && i % interrupt_every == 0`. -/
def checkTick (i : Nat) : Bool := decide (interruptEvery ≤ i) && i % interruptEvery == 0

/-- What `apply` does after joining: throw if it was interrupted and some worker skipped a
chunk. -/
def State.result (cfg : Config) (s : State) : Result :=
  if s.interrupted && anyIncomplete cfg.nthreads.toNat s.interruptedBythread then
    .throws "computations have been interrupted by the user"
  else .returns

/-- `GCBS_ERROR(msg)` in a worker: the installed handler, at level `ERRLVL_ERROR`. -/
def Config.gcbsError (cfg : Config) (msg : String) : Op :=
  .handle cfg.handler .error msg cfg.errWhere cfg.errCode cfg.logOpens

/-- The `catch` clauses for a call that ended with `o`, in the iteration for chunk `i`. -/
def Config.onOutcome (cfg : Config) (i : Nat) : Outcome → List Op
  | .ok => []
  | .throwsString s => [cfg.gcbsError s]
  | .throwsOther => [cfg.gcbsError ("unexpected exception while processing chunk " ++ toString i)]

/-- The console calls of the iteration that processes chunk `i`: `f` is called only if
`read_chunk(i)` returns. -/
def Config.chunkOps (cfg : Config) (i : Nat) : List Op :=
  match (cfg.chunk i).read with
  | .ok => (cfg.chunk i).ops ++ cfg.onOutcome i (cfg.chunk i).call
  | o => cfg.onOutcome i o

/-- The store of the word of `W` bits that holds bit `k`, loaded as `word`, with bit `k` set:
the other bits of that word get back the values they had at the load. -/
def storeWord (W : Nat) (v : Nat → Bool) (k : Nat) (word : Nat → Bool) : Nat → Bool :=
  fun j => if j / W = k / W then word j || j == k else v j

/-! ### The steps -/

/-- Who takes a step: worker `k`, the calling thread, or the calling thread when
`Rcpp::checkUserInterrupt()` throws. -/
inductive Label
  | worker (k : Nat)
  | supervisor
  | hostInterrupt
deriving DecidableEq, Repr

open Function (update)

/-- One statement of `apply`, run by one thread. -/
inductive Step (cfg : Config) : State → Label → State → Prop
  /-- `workers.push_back(std::thread(...))`: worker `it` starts its loop at `i = it`. -/
  | spawn {s : State} {it : UInt16} (hs : s.sup = .spawn it) (hit : it < cfg.nthreads) :
      Step cfg s .supervisor
        { s with worker := update s.worker it.toNat (.loop it.toUInt32), sup := .spawn (it + 1) }
  /-- All workers are created: `r_stderr_buf::print()`. -/
  | spawnDone {s : State} {it : UInt16} (hs : s.sup = .spawn it) (hit : ¬ it < cfg.nthreads) :
      Step cfg s .supervisor { s with con := s.con.put true "", sup := .poll 0 }
  /-- A tick that finds every `finished[it]` set: `r_stderr_buf::print()`, and the loop ends. -/
  | tickDone {s : State} {i : Nat} (hs : s.sup = .poll i)
      (hd : allFinished cfg.nthreads.toNat s.finished = true) :
      Step cfg s .supervisor { s with con := s.con.put true "", sup := .join }
  /-- A tick that finds a worker not finished and no interrupt: sleep,
  `r_stderr_buf::print()`, `++i`. -/
  | tickSleep {s : State} {i : Nat} (hs : s.sup = .poll i)
      (hd : allFinished cfg.nthreads.toNat s.finished = false) :
      Step cfg s .supervisor { s with con := s.con.put true "", sup := .poll (i + 1) }
  /-- At a check tick `Rcpp::checkUserInterrupt()` throws: `interrupted = true; break;`. -/
  | tickCancel {s : State} {i : Nat} (hs : s.sup = .poll i)
      (hd : allFinished cfg.nthreads.toNat s.finished = false) (hc : checkTick i = true) :
      Step cfg s .hostInterrupt
        { s with interrupted := true, sup := .join, trace := s.trace ++ [.cancel] }
  /-- `workers[it].join()` for every worker, `r_stderr_buf::print()`, and the test of
  `interrupted && any_incomplete`. -/
  | joinAll {s : State} (hs : s.sup = .join)
      (hj : ∀ k < cfg.nthreads.toNat, s.worker k = .exited) :
      Step cfg s .supervisor { s with con := s.con.put true "", sup := .returned (s.result cfg) }
  /-- An iteration that finds `interrupted` false: `read_chunk(i)`, `f(i, ...)` and the
  `catch` clauses, then `i += _nthreads`. -/
  | work {s : State} {k : Nat} {i : UInt32} (hw : s.worker k = .loop i) (hi : i < cfg.count)
      (hn : s.interrupted = false) :
      Step cfg s (.worker k)
        { s with con := runOps s.con ((cfg.chunkOps i.toNat).map (false, ·)),
                 worker := update s.worker k (.loop (i + cfg.nthreads.toUInt32)),
                 trace := s.trace ++ [.readChunk k i.toNat] }
  /-- An iteration that finds `interrupted` set: `interrupted_bythread[it] = true` in one
  step, then `i += _nthreads`. -/
  | skip {s : State} {k : Nat} {i : UInt32} (hb : cfg.bits = .atomic) (hw : s.worker k = .loop i)
      (hi : i < cfg.count) (hn : s.interrupted = true) :
      Step cfg s (.worker k)
        { s with interruptedBythread := update s.interruptedBythread k true,
                 worker := update s.worker k (.loop (i + cfg.nthreads.toUInt32)),
                 trace := s.trace ++ [.skip k i.toNat] }
  /-- An iteration that finds `interrupted` set: the load of `interrupted_bythread[it] = true`. -/
  | skipLoad {s : State} {k : Nat} {i : UInt32} {W : Nat} (hb : cfg.bits = .wordRMW W)
      (hw : s.worker k = .loop i) (hi : i < cfg.count) (hn : s.interrupted = true) :
      Step cfg s (.worker k)
        { s with worker := update s.worker k (.storeSkip i s.interruptedBythread),
                 trace := s.trace ++ [.skip k i.toNat] }
  /-- The store of `interrupted_bythread[it] = true`, then `i += _nthreads`. -/
  | skipStore {s : State} {k : Nat} {i : UInt32} {W : Nat} {word : Nat → Bool}
      (hb : cfg.bits = .wordRMW W) (hw : s.worker k = .storeSkip i word) :
      Step cfg s (.worker k)
        { s with interruptedBythread := storeWord W s.interruptedBythread k word,
                 worker := update s.worker k (.loop (i + cfg.nthreads.toUInt32)) }
  /-- The loop ends: `finished[it] = true` in one step, and the thread returns. -/
  | finish {s : State} {k : Nat} {i : UInt32} (hb : cfg.bits = .atomic)
      (hw : s.worker k = .loop i) (hi : ¬ i < cfg.count) :
      Step cfg s (.worker k)
        { s with finished := update s.finished k true, worker := update s.worker k .exited }
  /-- The loop ends: the load of `finished[it] = true`. -/
  | finishLoad {s : State} {k : Nat} {i : UInt32} {W : Nat} (hb : cfg.bits = .wordRMW W)
      (hw : s.worker k = .loop i) (hi : ¬ i < cfg.count) :
      Step cfg s (.worker k) { s with worker := update s.worker k (.storeFinished s.finished) }
  /-- The store of `finished[it] = true`, and the thread returns. -/
  | finishStore {s : State} {k : Nat} {W : Nat} {word : Nat → Bool} (hb : cfg.bits = .wordRMW W)
      (hw : s.worker k = .storeFinished word) :
      Step cfg s (.worker k)
        { s with finished := storeWord W s.finished k word, worker := update s.worker k .exited }

/-- `t` is reached from `s` by steps whose labels satisfy `p`. -/
def Runs (cfg : Config) (p : Label → Prop) : State → State → Prop :=
  Relation.ReflTransGen fun s t => ∃ l, p l ∧ Step cfg s l t

/-- The states that a call of `apply` reaches, from the console state `con`. -/
def Reachable (cfg : Config) (con : Console) (s : State) : Prop :=
  Runs cfg (fun _ => True) (init con) s

/-- A property that every step keeps holds along every run. -/
lemma Runs.preserve {cfg : Config} {p : Label → Prop} {P : State → Prop}
    (hstep : ∀ s l t, p l → Step cfg s l t → P s → P t) {s t : State} (h : Runs cfg p s t)
    (hs : P s) : P t := by
  induction h with
  | refl => exact hs
  | tail _ hst ih => obtain ⟨l, hl, hst⟩ := hst; exact hstep _ l _ hl hst ih

lemma Runs.refl {cfg : Config} {p : Label → Prop} {s : State} : Runs cfg p s s :=
  Relation.ReflTransGen.refl

/-- A run extended by one step. -/
lemma Runs.tail' {cfg : Config} {p : Label → Prop} {s t u : State} (h : Runs cfg p s t) (l : Label)
    (hl : p l) (hst : Step cfg t l u) : Runs cfg p s u :=
  Relation.ReflTransGen.tail h ⟨l, hl, hst⟩

lemma Runs.trans {cfg : Config} {p : Label → Prop} {s t u : State} (h₁ : Runs cfg p s t)
    (h₂ : Runs cfg p t u) : Runs cfg p s u :=
  Relation.ReflTransGen.trans h₁ h₂

/-- A run whose labels satisfy `p` is a run for any weaker condition. -/
lemma Runs.weaken {cfg : Config} {p q : Label → Prop} (hpq : ∀ l, p l → q l) {s t : State}
    (h : Runs cfg p s t) : Runs cfg q s t :=
  Relation.ReflTransGen.mono (fun _ _ ⟨l, hl, hst⟩ => ⟨l, hpq l hl, hst⟩) h

/-- The state after `m` ticks of the polling loop that sleep, from `s` at tick `i`. -/
def sleeps (s : State) (i : Nat) : Nat → State
  | 0 => s
  | m + 1 => { sleeps s i m with con := (sleeps s i m).con.put true "", sup := .poll (i + m + 1) }

@[simp] lemma sleeps_finished (s : State) (i m : Nat) : (sleeps s i m).finished = s.finished := by
  induction m with
  | zero => rfl
  | succ m ih => exact ih

/-- While some worker has not finished, the calling thread can sleep for any number of
ticks. -/
lemma Runs.sleeps {cfg : Config} {p : Label → Prop} (hp : p .supervisor) {s : State} {i : Nat}
    (hs : s.sup = .poll i) (hd : allFinished cfg.nthreads.toNat s.finished = false) (m : Nat) :
    Runs cfg p s (sleeps s i m) := by
  induction m with
  | zero => exact .refl
  | succ m ih =>
    refine ih.tail' _ hp (.tickSleep (i := i + m) ?_ (by simpa using hd))
    cases m
    · exact hs
    · rfl

/-- With no worker threads, `apply` prints, finds every thread finished at its first tick,
prints twice more and returns normally, having read no chunk. -/
lemma returns_of_no_threads {cfg : Config} (hN : cfg.nthreads = 0) (con : Console) :
    ∃ s, Runs cfg (· ≠ .hostInterrupt) (init con) s ∧ s.sup = .returned .returns ∧
      s.trace = [] := by
  have start : Runs cfg (· ≠ .hostInterrupt) (init con) (init con) := Runs.refl
  refine ⟨_, ((start.tail' _ (by simp) (.spawnDone rfl (by rw [hN]; decide))).tail' _
    (by simp) (.tickDone (i := 0) rfl (by rw [hN]; rfl))).tail' _ (by simp)
    (.joinAll rfl fun k hk => absurd hk (by rw [hN]; simp)), rfl, rfl⟩

/-! ### Small facts about the steps -/

@[simp] lemma storeWord_self (W : Nat) (v : Nat → Bool) (k : Nat) (word : Nat → Bool) :
    storeWord W v k word k = true := by
  simp [storeWord]

/-- A store of the word that was loaded from the current bits only sets bit `k`. -/
lemma storeWord_of_eq (W : Nat) (v : Nat → Bool) (k : Nat) :
    storeWord W v k v = update v k true := by
  funext j
  by_cases hj : j = k
  · subst hj; simp
  · simp [storeWord, update, hj]

/-- A step of worker `k` starts from a worker that runs, and changes neither the calling thread
nor another worker. -/
lemma Step.worker_inv {cfg : Config} {s t : State} {k : Nat} (h : Step cfg s (.worker k) t) :
    s.worker k ≠ .notStarted ∧ s.worker k ≠ .exited ∧ t.sup = s.sup ∧
      ∀ j ≠ k, t.worker j = s.worker j := by
  cases h with
  | work hw | skip _ hw | skipLoad _ hw | skipStore _ hw | finish _ hw | finishLoad _ hw
  | finishStore _ hw =>
    exact ⟨by simp [hw], by simp [hw], rfl, fun j hj => Function.update_noteq hj _ _⟩

lemma checkTick_iff (i : Nat) : checkTick i = true ↔ 20 ≤ i ∧ i % 20 = 0 := by
  simp [checkTick, interruptEvery, interruptMs, sleepMs]

lemma allFinished_iff (n : Nat) (f : Nat → Bool) :
    allFinished n f = true ↔ ∀ k < n, f k = true := by
  simp [allFinished]

lemma anyIncomplete_iff (n : Nat) (f : Nat → Bool) :
    anyIncomplete n f = true ↔ ∃ k < n, f k = true := by
  simp [anyIncomplete]

end Apply

end Gdalcubes
