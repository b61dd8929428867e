import Gdalcubes.Apply.Machine

/-!
# What every interleaving of `apply` keeps

`Inv` collects what holds in every reachable state of `Gdalcubes/Apply/Machine.lean`, for
either way of writing the bits, as long as `count_chunks() + _nthreads ≤ 2^32`, so that no
worker's counter wraps around:

* each worker has visited, in order, the ids `k, k + n, …` below its counter (`WorkerInv`),
  so no chunk is visited twice;
* `interrupted` is set exactly when the cancellation is in the trace, no chunk is read after
  it, and a chunk is skipped only after it;
* a set bit of `interrupted_bythread`, and a set bit in a word loaded for a store, belongs to
  a worker that skipped a chunk; once a chunk is skipped, some bit stays set or is about to
  be stored, since every store of the word sets the storing worker's own bit;
* once `apply` has returned, every worker has exited and the result is the one its test
  computes from the final state.

From these, `apply_safety` states the contract of `apply`, and `apply_returns_all_started`
what a run without cancellation does.
-/

namespace Gdalcubes

namespace Apply

open Function (update)

/-! ### The trace -/

/-- The chunk that an event of worker `k` is about. -/
def Event.visitOf (k : Nat) : Event → Option Nat
  | .readChunk k' i | .skip k' i => if k' = k then some i else none
  | .cancel => none

/-- The chunk that an event is about. -/
def Event.chunkId? : Event → Option Nat
  | .readChunk _ i | .skip _ i => some i
  | .cancel => none

/-- The chunk whose `read_chunk` an event is. -/
def Event.readId? : Event → Option Nat
  | .readChunk _ i => some i
  | _ => none

/-- The chunks that worker `k` has started or skipped, in order. -/
def visits (k : Nat) (tr : List Event) : List Nat := tr.filterMap (Event.visitOf k)

@[simp] lemma visits_nil (k : Nat) : visits k [] = [] := rfl

@[simp] lemma visits_append (k : Nat) (tr tr' : List Event) :
    visits k (tr ++ tr') = visits k tr ++ visits k tr' :=
  List.filterMap_append ..

@[simp] lemma visits_cancel (k : Nat) : visits k [.cancel] = [] := rfl

@[simp] lemma visits_readChunk (k j i : Nat) :
    visits k [.readChunk j i] = if j = k then [i] else [] := by
  by_cases h : j = k <;> simp [visits, Event.visitOf, h]

@[simp] lemma visits_skip (k j i : Nat) : visits k [.skip j i] = if j = k then [i] else [] := by
  by_cases h : j = k <;> simp [visits, Event.visitOf, h]

/-- An event about chunk `x` is a visit of `x` by some worker. -/
lemma mem_visits_of_chunkId {tr : List Event} {e : Event} {x : Nat} (he : e ∈ tr)
    (hx : e.chunkId? = some x) : ∃ j, x ∈ visits j tr := by
  cases e with
  | readChunk j i | skip j i =>
    exact ⟨j, List.mem_filterMap.2 ⟨_, he, by simpa [Event.visitOf, Event.chunkId?] using hx⟩⟩
  | cancel => cases hx

lemma mem_visits {k x : Nat} {tr : List Event} :
    x ∈ visits k tr ↔ .readChunk k x ∈ tr ∨ .skip k x ∈ tr := by
  simp only [visits, List.mem_filterMap]
  constructor
  · rintro ⟨e, he, hx⟩
    cases e with
    | readChunk j i =>
      obtain ⟨rfl, rfl⟩ : j = k ∧ i = x := by simpa [Event.visitOf] using hx
      exact .inl he
    | skip j i =>
      obtain ⟨rfl, rfl⟩ : j = k ∧ i = x := by simpa [Event.visitOf] using hx
      exact .inr he
    | cancel => cases hx
  · rintro (h | h) <;> exact ⟨_, h, by simp [Event.visitOf]⟩

lemma readId_sublist (tr : List Event) :
    List.Sublist (tr.filterMap Event.readId?) (tr.filterMap Event.chunkId?) := by
  induction tr with
  | nil => exact .slnil
  | cons e tr ih =>
    cases e with
    | readChunk k i => exact ih.cons₂ i
    | skip k i => exact ih.cons i
    | cancel => exact ih

/-- Two different events about one chunk make its id appear twice. -/
lemma not_nodup_of_two {α β : Type} {f : α → Option β} {l : List α} {a b : α} {x : β}
    (ha : a ∈ l) (hb : b ∈ l) (hab : a ≠ b) (hfa : f a = some x) (hfb : f b = some x) :
    ¬ (l.filterMap f).Nodup := by
  induction l with
  | nil => cases ha
  | cons y l ih =>
    intro hnd
    rcases List.mem_cons.1 ha with rfl | ha' <;> rcases List.mem_cons.1 hb with rfl | hb'
    · exact hab rfl
    · rw [List.filterMap_cons, hfa] at hnd
      exact (List.nodup_cons.1 hnd).1 (List.mem_filterMap.2 ⟨b, hb', hfb⟩)
    · rw [List.filterMap_cons, hfb] at hnd
      exact (List.nodup_cons.1 hnd).1 (List.mem_filterMap.2 ⟨a, ha', hfa⟩)
    · refine ih ha' hb' ?_
      rw [List.filterMap_cons] at hnd
      cases hy : f y <;> simp only [hy] at hnd
      · exact hnd
      · exact (List.nodup_cons.1 hnd).2

/-- A trace extended by one event has the cancellation either as that event or before it. -/
lemma eq_cancel_split {tr pre post : List Event} {e : Event}
    (h : tr ++ [e] = pre ++ .cancel :: post) :
    (post = [] ∧ e = .cancel) ∨
      ∃ post', post = post' ++ [e] ∧ tr = pre ++ .cancel :: post' := by
  rcases List.eq_nil_or_concat post with rfl | ⟨L, b, rfl⟩
  · exact .inl ⟨rfl, by simpa using (List.append_inj' h rfl).2⟩
  · rw [List.concat_eq_append, ← List.cons_append, ← List.append_assoc] at h
    obtain ⟨h₁, h₂⟩ := List.append_inj' h rfl
    exact .inr ⟨L, by simpa using h₂.symm, h₁⟩

/-! ### Where a worker is in its loop -/

/-- A worker whose loop has ended with its counter at `k + n * m`, at least `count` and at
most `count + n - 1`, has visited `k, k + n, …, k + n * (m - 1)`. -/
def Ended (n c k : Nat) (vs : List Nat) : Prop :=
  ∃ m, c ≤ k + n * m ∧ k + n * m < c + n ∧ vs = List.range' k m n

/-- What worker `k` has visited agrees with where it is in its loop: at the test with counter
`i = k + n * m` it has visited the `m` ids `k, k + n, …` below `i`, all below `count`. -/
def WorkerInv (n c k : Nat) : WorkerPc → List Nat → Prop
  | .notStarted, vs => vs = []
  | .loop i, vs => k < n ∧ ∃ m, i.toNat = k + n * m ∧ i.toNat < c + n ∧ vs = List.range' k m n
  | .storeSkip i _, vs =>
    k < n ∧ ∃ m, i.toNat = k + n * m ∧ i.toNat < c ∧ vs = List.range' k (m + 1) n
  | .storeFinished _, vs => k < n ∧ Ended n c k vs
  | .exited, vs => k < n ∧ Ended n c k vs

section Worker

variable {n c k : Nat}

lemma mul_add_le {j m : Nat} (h : j < m) : n * j + n ≤ n * m := by
  rw [← Nat.mul_succ]; exact Nat.mul_le_mul_left _ h

lemma Ended.mem {vs : List Nat} (h : Ended n c k vs) (hk : k < n) {x : Nat} (hx : x ∈ vs) :
    x < c ∧ x % n = k := by
  obtain ⟨m, -, hlt, rfl⟩ := h
  obtain ⟨j, hj, rfl⟩ := List.mem_range'.1 hx
  have := mul_add_le (n := n) hj
  exact ⟨by omega, by rw [Nat.add_mul_mod_self_left, Nat.mod_eq_of_lt hk]⟩

/-- Once its loop has ended, a worker has visited every id below `count` that is `k`
modulo `n`. -/
lemma Ended.mem_iff {vs : List Nat} (h : Ended n c k vs) (hk : k < n) (x : Nat) :
    x ∈ vs ↔ x < c ∧ x % n = k := by
  obtain ⟨m, hc, hlt, rfl⟩ := h
  rw [mem_range'_iff hc (fun j hj => by have := mul_add_le (n := n) hj; omega),
    Nat.mod_eq_of_lt hk]
  exact ⟨fun h => h.2, fun h => ⟨h.2 ▸ Nat.mod_le x n, h⟩⟩

/-- A worker that has visited a chunk is one of the `n` workers, and the chunk lies below
`count` and is `k` modulo `n`. -/
lemma WorkerInv.mem {pc : WorkerPc} {vs : List Nat} (h : WorkerInv n c k pc vs) {x : Nat}
    (hx : x ∈ vs) : k < n ∧ x < c ∧ x % n = k := by
  have hmod : ∀ j, k < n → (k + n * j) % n = k := fun j hk => by
    rw [Nat.add_mul_mod_self_left, Nat.mod_eq_of_lt hk]
  cases pc with
  | notStarted => cases (h : vs = []) ▸ hx
  | loop i =>
    obtain ⟨hk, m, hi, hlt, rfl⟩ := h
    obtain ⟨j, hj, rfl⟩ := List.mem_range'.1 hx
    have := mul_add_le (n := n) hj
    exact ⟨hk, by omega, hmod j hk⟩
  | storeSkip i w =>
    obtain ⟨hk, m, hi, hlt, rfl⟩ := h
    obtain ⟨j, hj, rfl⟩ := List.mem_range'.1 hx
    have : n * j ≤ n * m := Nat.mul_le_mul_left _ (by omega)
    exact ⟨hk, by omega, hmod j hk⟩
  | storeFinished w => exact ⟨h.1, h.2.mem h.1 hx⟩
  | exited => exact ⟨h.1, h.2.mem h.1 hx⟩

/-- A worker at its loop test has visited only ids below its counter. -/
lemma WorkerInv.lt_of_loop {i : UInt32} {vs : List Nat} (h : WorkerInv n c k (.loop i) vs)
    {x : Nat} (hx : x ∈ vs) : x < i.toNat := by
  obtain ⟨hk, m, hi, -, rfl⟩ := h
  obtain ⟨j, hj, rfl⟩ := List.mem_range'.1 hx
  have := mul_add_le (n := n) hj
  omega

lemma WorkerInv.mod_of_loop {i : UInt32} {vs : List Nat} (h : WorkerInv n c k (.loop i) vs) :
    i.toNat % n = k := by
  obtain ⟨hk, m, hi, -⟩ := h
  rw [hi, Nat.add_mul_mod_self_left, Nat.mod_eq_of_lt hk]

/-! The worker's own steps. -/

variable {N : UInt16} {C : UInt32} {vs : List Nat} {i : UInt32}

/-- `read_chunk(i)` or a skip, then `i += _nthreads`. -/
lemma WorkerInv.next (hC : C.toNat + N.toNat ≤ 2 ^ 32)
    (h : WorkerInv N.toNat C.toNat k (.loop i) vs) (hi : i < C) :
    WorkerInv N.toNat C.toNat k (.loop (i + N.toUInt32)) (vs ++ [i.toNat]) := by
  obtain ⟨hk, m, hm, -, rfl⟩ := h
  have hi' : i.toNat < C.toNat := hi
  have hadd := toNat_add_nthreads hC hi
  refine ⟨hk, m + 1, ?_, by omega, by rw [List.range'_concat, hm]⟩
  rw [hadd, hm, Nat.mul_succ]; omega

/-- The load of `interrupted_bythread[it] = true`. -/
lemma WorkerInv.skipLoad (h : WorkerInv N.toNat C.toNat k (.loop i) vs) (hi : i < C)
    (w : Nat → Bool) : WorkerInv N.toNat C.toNat k (.storeSkip i w) (vs ++ [i.toNat]) := by
  obtain ⟨hk, m, hm, -, rfl⟩ := h
  exact ⟨hk, m, hm, hi, by rw [List.range'_concat, hm]⟩

/-- The store of `interrupted_bythread[it] = true`, then `i += _nthreads`. -/
lemma WorkerInv.skipStore (hC : C.toNat + N.toNat ≤ 2 ^ 32) {w : Nat → Bool}
    (h : WorkerInv N.toNat C.toNat k (.storeSkip i w) vs) :
    WorkerInv N.toNat C.toNat k (.loop (i + N.toUInt32)) vs := by
  obtain ⟨hk, m, hm, hi, rfl⟩ := h
  have hadd := toNat_add_nthreads hC hi
  refine ⟨hk, m + 1, ?_, by omega, rfl⟩
  rw [hadd, hm, Nat.mul_succ]; omega

/-- The loop test fails. -/
lemma WorkerInv.ended (h : WorkerInv N.toNat C.toNat k (.loop i) vs) (hi : ¬ i < C) :
    k < N.toNat ∧ Ended N.toNat C.toNat k vs := by
  obtain ⟨hk, m, hm, hlt, rfl⟩ := h
  have hi' : ¬ i.toNat < C.toNat := hi
  exact ⟨hk, m, by omega, by omega, rfl⟩

end Worker

/-- The workers other than `k` keep their state and their visits. -/
lemma workerInv_update {n c k : Nat} {w : Nat → WorkerPc} {tr tr' : List Event} {pc : WorkerPc}
    (hw : ∀ j, WorkerInv n c j (w j) (visits j tr)) (htr : ∀ j ≠ k, visits j tr' = visits j tr)
    (hk : WorkerInv n c k pc (visits k tr')) :
    ∀ j, WorkerInv n c j (update w k pc j) (visits j tr') := by
  intro j
  by_cases hj : j = k
  · subst hj; simpa using hk
  · rw [Function.update_noteq hj, htr j hj]; exact hw j

/-! ### The invariant -/

/-- What holds in every reachable state of `apply`. -/
structure Inv (cfg : Config) (s : State) : Prop where
  worker : ∀ k, WorkerInv cfg.nthreads.toNat cfg.count.toNat k (s.worker k) (visits k s.trace)
  /-- The workers from `it` on are not created yet. -/
  spawning : ∀ it, s.sup = .spawn it → ∀ k, it.toNat ≤ k → s.worker k = .notStarted
  ids_nodup : (s.trace.filterMap Event.chunkId?).Nodup
  interrupted_iff : s.interrupted = true ↔ .cancel ∈ s.trace
  skip_cancel : ∀ k i, .skip k i ∈ s.trace → .cancel ∈ s.trace
  no_read_after_cancel :
    ∀ pre post, s.trace = pre ++ .cancel :: post → ∀ k i, .readChunk k i ∉ post
  bythread : ∀ j, s.interruptedBythread j = true → ∃ i, .skip j i ∈ s.trace
  /-- A worker between the load and the store of its bit has recorded its skip, and the bits
  it loaded belong to workers that skipped a chunk. -/
  pending : ∀ k i w, s.worker k = .storeSkip i w →
    .skip k i.toNat ∈ s.trace ∧ ∀ j, w j = true → ∃ x, .skip j x ∈ s.trace
  marked : (∃ k i, .skip k i ∈ s.trace) →
    (∃ j, s.interruptedBythread j = true) ∨ ∃ k i w, s.worker k = .storeSkip i w
  returned : ∀ r, s.sup = .returned r →
    (∀ k < cfg.nthreads.toNat, s.worker k = .exited) ∧ r = s.result cfg

lemma inv_init (cfg : Config) (con : Console) : Inv cfg (init con) where
  worker _ := rfl
  spawning _ _ _ _ := rfl
  ids_nodup := .nil
  interrupted_iff := by simp [init]
  skip_cancel := by simp [init]
  no_read_after_cancel := by simp [init]
  bythread := by simp [init]
  pending := by simp [init]
  marked := by simp [init]
  returned := by simp [init]

section Step

variable {cfg : Config} {s t : State} {l : Label}

lemma Inv.worker_at (hi : Inv cfg s) {k : Nat} {pc : WorkerPc} (hw : s.worker k = pc) :
    WorkerInv cfg.nthreads.toNat cfg.count.toNat k pc (visits k s.trace) :=
  hw ▸ hi.worker k

/-- Only the `n` workers take steps. -/
lemma Inv.lt_of_loop (hi : Inv cfg s) {k : Nat} {i : UInt32} (hw : s.worker k = .loop i) :
    k < cfg.nthreads.toNat :=
  (hi.worker_at hw).1

/-- A worker at its loop test is at a chunk that nobody has visited. -/
lemma Inv.fresh (hi : Inv cfg s) {k : Nat} {i : UInt32} (hw : s.worker k = .loop i) :
    i.toNat ∉ s.trace.filterMap Event.chunkId? := by
  intro hx
  obtain ⟨e, he, hex⟩ := List.mem_filterMap.1 hx
  obtain ⟨j, hj⟩ := mem_visits_of_chunkId he hex
  have hk := hi.worker_at hw
  obtain ⟨-, -, hmod⟩ := (hi.worker j).mem hj
  rw [hk.mod_of_loop] at hmod
  subst hmod
  exact absurd (hk.lt_of_loop hj) (lt_irrefl _)

/-- Nothing steps once `apply` has returned. -/
lemma Inv.not_step_of_returned (hi : Inv cfg s) {r : Result} (hs : s.sup = .returned r) :
    ¬ Step cfg s l t := by
  have hex := (hi.returned r hs).1
  intro h
  cases h with
  | spawn hs' | spawnDone hs' | tickDone hs' | tickSleep hs' | tickCancel hs' | joinAll hs' =>
    rw [hs] at hs'; cases hs'
  | work hw | skip _ hw | skipLoad _ hw | finish _ hw | finishLoad _ hw =>
    rw [hex _ (hi.lt_of_loop hw)] at hw; cases hw
  | skipStore _ hw =>
    rw [hex _ (hi.worker_at hw).1] at hw; cases hw
  | finishStore _ hw =>
    rw [hex _ (hi.worker_at hw).1] at hw; cases hw

/-! ### Each step keeps the invariant -/

/-- A step only appends to the trace. -/
lemma Step.mem_trace (h : Step cfg s l t) {e : Event} (he : e ∈ s.trace) : e ∈ t.trace := by
  cases h <;> simp [he]

lemma Inv.step_worker (hC : cfg.count.toNat + cfg.nthreads.toNat ≤ 2 ^ 32) (hi : Inv cfg s)
    (h : Step cfg s l t) :
    ∀ k, WorkerInv cfg.nthreads.toNat cfg.count.toNat k (t.worker k) (visits k t.trace) := by
  cases h with
  | @spawn it hs hit =>
    have hv : visits it.toNat s.trace = [] := hi.worker_at (hi.spawning it hs _ le_rfl)
    have hit' : it.toNat < cfg.nthreads.toNat := hit
    exact workerInv_update hi.worker (fun _ _ => rfl)
      ⟨hit', 0, by simp, by simp; omega, by simp [hv]⟩
  | tickCancel => simpa using hi.worker
  | work hw hi' | skip _ hw hi' =>
    exact workerInv_update hi.worker (fun j hj => by simp [Ne.symm hj])
      (by simpa using (hi.worker_at hw).next hC hi')
  | skipLoad _ hw hi' =>
    exact workerInv_update hi.worker (fun j hj => by simp [Ne.symm hj])
      (by simpa using (hi.worker_at hw).skipLoad hi' _)
  | skipStore _ hw =>
    exact workerInv_update hi.worker (fun _ _ => rfl) ((hi.worker_at hw).skipStore hC)
  | finish _ hw hi' | finishLoad _ hw hi' =>
    exact workerInv_update hi.worker (fun _ _ => rfl) ((hi.worker_at hw).ended hi')
  | finishStore _ hw =>
    exact workerInv_update hi.worker (fun _ _ => rfl) ⟨(hi.worker_at hw).1, (hi.worker_at hw).2⟩
  | _ => exact hi.worker

/-- A worker step changes only a worker that is running, which the spawn loop has passed. -/
lemma Inv.spawning_update (hi : Inv cfg s) {k it : Nat} {u : UInt16} (hs : s.sup = .spawn u)
    (hk : u.toNat ≤ it) (hw : s.worker k ≠ .notStarted) (pc : WorkerPc) :
    update s.worker k pc it = .notStarted := by
  rw [Function.update_noteq fun (e : it = k) => hw (e ▸ hi.spawning u hs it hk)]
  exact hi.spawning u hs it hk

lemma Inv.step_spawning (hi : Inv cfg s) (h : Step cfg s l t) :
    ∀ it, t.sup = .spawn it → ∀ k, it.toNat ≤ k → t.worker k = .notStarted := by
  intro u hu k hk
  cases h with
  | @spawn it hs hit =>
    cases hu
    have hit' : it.toNat < cfg.nthreads.toNat := hit
    have : (it + 1).toNat = it.toNat + 1 :=
      toNat_add_one (by have := cfg.nthreads.toNat_lt; omega)
    dsimp only
    rw [Function.update_noteq (by omega)]
    exact hi.spawning it hs k (by omega)
  | spawnDone | tickDone | tickSleep | tickCancel | joinAll => cases hu
  | work hw | skip _ hw | skipLoad _ hw | finish _ hw | finishLoad _ hw =>
    exact hi.spawning_update hu hk (by rw [hw]; simp) _
  | skipStore _ hw | finishStore _ hw => exact hi.spawning_update hu hk (by rw [hw]; simp) _

lemma Inv.step_ids_nodup (hi : Inv cfg s) (h : Step cfg s l t) :
    (t.trace.filterMap Event.chunkId?).Nodup := by
  cases h with
  | work hw | skip _ hw | skipLoad _ hw =>
    rw [List.filterMap_append]
    exact List.nodup_append.2 ⟨hi.ids_nodup, List.nodup_singleton _,
      List.disjoint_singleton.2 (hi.fresh hw)⟩
  | tickCancel => simpa [Event.chunkId?] using hi.ids_nodup
  | _ => exact hi.ids_nodup

lemma Inv.step_interrupted_iff (hi : Inv cfg s) (h : Step cfg s l t) :
    t.interrupted = true ↔ .cancel ∈ t.trace := by
  cases h <;> simp [hi.interrupted_iff]

lemma Inv.step_skip_cancel (hi : Inv cfg s) (h : Step cfg s l t) :
    ∀ k i, .skip k i ∈ t.trace → .cancel ∈ t.trace := by
  have old : ∀ k i, .skip k i ∈ s.trace → .cancel ∈ t.trace :=
    fun k i hk => h.mem_trace (hi.skip_cancel k i hk)
  cases h with
  | skip _ _ _ hn | skipLoad _ _ _ hn =>
    exact fun _ _ _ => List.mem_append_left _ (hi.interrupted_iff.1 hn)
  | tickCancel => simp
  | work => exact fun k i hk => old k i (by simpa using hk)
  | _ => exact old

lemma Inv.step_no_read_after_cancel (hi : Inv cfg s) (h : Step cfg s l t) :
    ∀ pre post, t.trace = pre ++ .cancel :: post → ∀ k i, .readChunk k i ∉ post := by
  /- A step appends at most one event; a read is appended only while `interrupted` is
  false, that is, before the cancellation. -/
  have snoc : ∀ e, (∀ k i, e = .readChunk k i → s.interrupted = false) →
      ∀ pre post, s.trace ++ [e] = pre ++ .cancel :: post → ∀ k i, .readChunk k i ∉ post := by
    intro e he pre post ht k i hmem
    rcases eq_cancel_split ht with ⟨rfl, -⟩ | ⟨post', rfl, ht'⟩
    · cases hmem
    · rcases List.mem_append.1 hmem with hmem | hmem
      · exact hi.no_read_after_cancel pre post' ht' k i hmem
      · have hc : .cancel ∈ s.trace := ht' ▸ List.mem_append_right _ (List.mem_cons_self _ _)
        have := hi.interrupted_iff.2 hc
        rw [he k i (List.mem_singleton.1 hmem).symm] at this
        cases this
  cases h with
  | work _ _ hn => exact snoc _ fun _ _ _ => hn
  | skip | skipLoad | tickCancel => exact snoc _ fun _ _ e => by cases e
  | _ => exact hi.no_read_after_cancel

lemma Inv.step_bythread (hi : Inv cfg s) (h : Step cfg s l t) :
    ∀ j, t.interruptedBythread j = true → ∃ i, .skip j i ∈ t.trace := by
  intro j hj
  have mem : ∀ e ∈ s.trace, e ∈ t.trace := fun _ => h.mem_trace
  cases h with
  | @skip k i _ _ _ _ =>
    by_cases hjk : j = k
    · exact ⟨i.toNat, by simp [hjk]⟩
    · obtain ⟨x, hx⟩ := hi.bythread j (by simpa [Function.update_noteq hjk] using hj)
      exact ⟨x, List.mem_append_left _ hx⟩
  | @skipStore k i _ w _ hw =>
    obtain ⟨hk, hw'⟩ := hi.pending k i w hw
    simp only [storeWord] at hj
    split at hj
    · rcases Bool.or_eq_true _ _ ▸ hj with hj | hj
      · exact hw' j hj
      · exact ⟨i.toNat, by simpa using (beq_iff_eq.1 hj) ▸ hk⟩
    · exact hi.bythread j hj
  | _ => exact (hi.bythread j hj).imp fun _ => mem _

lemma Inv.step_pending (hi : Inv cfg s) (h : Step cfg s l t) :
    ∀ k i w, t.worker k = .storeSkip i w →
      .skip k i.toNat ∈ t.trace ∧ ∀ j, w j = true → ∃ x, .skip j x ∈ t.trace := by
  intro k i w hk
  have mem : ∀ e ∈ s.trace, e ∈ t.trace := fun _ => h.mem_trace
  /- A worker that was already between its load and its store keeps what it had. -/
  have keep : s.worker k = .storeSkip i w →
      .skip k i.toNat ∈ t.trace ∧ ∀ j, w j = true → ∃ x, .skip j x ∈ t.trace := fun hk' =>
    ⟨mem _ (hi.pending k i w hk').1, fun j hj => ((hi.pending k i w hk').2 j hj).imp fun _ => mem _⟩
  cases h with
  | @skipLoad k' i' _ _ _ _ _ =>
    by_cases hkk : k = k'
    · subst hkk
      simp only [Function.update_same, WorkerPc.storeSkip.injEq] at hk
      obtain ⟨rfl, rfl⟩ := hk
      exact ⟨by simp, fun j hj => (hi.bythread j hj).imp fun _ => mem _⟩
    · exact keep (by simpa [Function.update_noteq hkk] using hk)
  | @spawn it _ _ =>
    by_cases hkk : k = it.toNat
    · subst hkk; simp at hk
    · exact keep (by simpa [Function.update_noteq hkk] using hk)
  | @work k' _ _ _ _ | @skip k' _ _ _ _ _ | @skipStore k' _ _ _ _ _ | @finish k' _ _ _ _
  | @finishLoad k' _ _ _ _ _ | @finishStore k' _ _ _ _ =>
    by_cases hkk : k = k'
    · subst hkk; simp at hk
    · exact keep (by simpa [Function.update_noteq hkk] using hk)
  | _ => exact keep hk

/-- A worker between its load and its store stays there until it stores, which sets its own
bit. -/
lemma Inv.step_storeSkip (hi : Inv cfg s) (h : Step cfg s l t) {k : Nat} {i : UInt32}
    {w : Nat → Bool} (hk : s.worker k = .storeSkip i w) :
    t.worker k = .storeSkip i w ∨ t.interruptedBythread k = true := by
  cases h with
  | @spawn it hs _ =>
    have hkk : k ≠ it.toNat := by rintro rfl; rw [hi.spawning it hs _ le_rfl] at hk; cases hk
    exact .inl (by simpa [Function.update_noteq hkk] using hk)
  | @skipStore k' _ _ _ _ hw =>
    by_cases hkk : k = k'
    · subst hkk; exact .inr (storeWord_self ..)
    · exact .inl (by simpa [Function.update_noteq hkk] using hk)
  | @work k' _ hw _ _ | @skip k' _ _ hw _ _ | @skipLoad k' _ _ _ hw _ _ | @finish k' _ _ hw _
  | @finishLoad k' _ _ _ hw _ | @finishStore k' _ _ _ hw =>
    have hkk : k ≠ k' := by rintro rfl; rw [hk] at hw; cases hw
    exact .inl (by simpa [Function.update_noteq hkk] using hk)
  | _ => exact .inl hk

lemma Inv.step_marked (hi : Inv cfg s) (h : Step cfg s l t) :
    (∃ k i, .skip k i ∈ t.trace) →
      (∃ j, t.interruptedBythread j = true) ∨ ∃ k i w, t.worker k = .storeSkip i w := by
  intro hsk
  /- A step that sets no bit of `interrupted_bythread` and records no skip keeps `marked`:
  a worker between its load and its store stays there or stores its own bit. -/
  have keep : (∃ k i, .skip k i ∈ s.trace) →
      (∀ j, s.interruptedBythread j = true → t.interruptedBythread j = true) →
      (∃ j, t.interruptedBythread j = true) ∨ ∃ k i w, t.worker k = .storeSkip i w :=
    fun hs' hb => (hi.marked hs').elim (fun ⟨j, hj⟩ => .inl ⟨j, hb j hj⟩) fun ⟨k, i, w, hk⟩ =>
      (hi.step_storeSkip h hk).elim (fun e => .inr ⟨k, i, w, e⟩) fun e => .inl ⟨k, e⟩
  cases h with
  | @skip k _ _ _ _ _ => exact .inl ⟨k, by simp⟩
  | @skipLoad k i _ _ _ _ _ => exact .inr ⟨k, i, s.interruptedBythread, by simp⟩
  | @skipStore k _ _ _ _ _ => exact .inl ⟨k, storeWord_self ..⟩
  | work | tickCancel => exact keep (by simpa using hsk) fun _ h => h
  | _ => exact keep hsk fun _ h => h

lemma Inv.step_returned (hi : Inv cfg s) (h : Step cfg s l t) :
    ∀ r, t.sup = .returned r →
      (∀ k < cfg.nthreads.toNat, t.worker k = .exited) ∧ r = t.result cfg := by
  intro r hr
  by_cases hs : ∃ r', s.sup = .returned r'
  · obtain ⟨r', hs⟩ := hs
    exact absurd h (hi.not_step_of_returned hs)
  · cases h with
    | joinAll _ hj => cases hr; exact ⟨hj, rfl⟩
    | spawn | spawnDone | tickDone | tickSleep | tickCancel => cases hr
    | _ => exact absurd ⟨r, hr⟩ hs

lemma Inv.step (hC : cfg.count.toNat + cfg.nthreads.toNat ≤ 2 ^ 32) (hi : Inv cfg s)
    (h : Step cfg s l t) : Inv cfg t :=
  ⟨hi.step_worker hC h, hi.step_spawning h, hi.step_ids_nodup h, hi.step_interrupted_iff h,
    hi.step_skip_cancel h, hi.step_no_read_after_cancel h, hi.step_bythread h,
    hi.step_pending h, hi.step_marked h, hi.step_returned h⟩

end Step

/-- Every reachable state satisfies the invariant, when no worker's counter can wrap. -/
lemma Reachable.inv {cfg : Config} (hC : cfg.count.toNat + cfg.nthreads.toNat ≤ 2 ^ 32)
    {con : Console} {s : State} (h : Reachable cfg con s) : Inv cfg s :=
  Runs.preserve (fun _ _ _ _ hst hi => hi.step hC hst) h (inv_init cfg con)

/-! ### The contract of `apply` -/

section Contract

variable {cfg : Config} {s : State}

/-- A chunk that has been read or skipped was visited by its worker. -/
lemma Inv.visit (hi : Inv cfg s) {k x : Nat}
    (h : .readChunk k x ∈ s.trace ∨ .skip k x ∈ s.trace) :
    k < cfg.nthreads.toNat ∧ x < cfg.count.toNat ∧ x % cfg.nthreads.toNat = k :=
  (hi.worker k).mem (mem_visits.2 h)

/-- Once all workers have exited, every chunk has been read or skipped by its worker. -/
lemma Inv.visited_of_exited (hi : Inv cfg s) (hN : 0 < cfg.nthreads.toNat)
    (hex : ∀ k < cfg.nthreads.toNat, s.worker k = .exited) {x : Nat} (hx : x < cfg.count.toNat) :
    .readChunk (x % cfg.nthreads.toNat) x ∈ s.trace ∨
      .skip (x % cfg.nthreads.toNat) x ∈ s.trace := by
  have hk := Nat.mod_lt x hN
  have h := hi.worker_at (hex _ hk)
  exact mem_visits.1 ((h.2.mem_iff h.1 x).2 ⟨hx, rfl⟩)

/-- After the join, `apply` throws exactly when it was cancelled and some chunk was never
read. -/
lemma Inv.result_throws_iff (hi : Inv cfg s) (hN : 0 < cfg.nthreads.toNat)
    (hex : ∀ k < cfg.nthreads.toNat, s.worker k = .exited) :
    s.result cfg = .throws "computations have been interrupted by the user" ↔
      .cancel ∈ s.trace ∧ ∃ i < cfg.count.toNat, ∀ k, .readChunk k i ∉ s.trace := by
  simp only [State.result]
  constructor
  · intro h
    split at h
    · rename_i hc
      obtain ⟨hint, hany⟩ := Bool.and_eq_true _ _ ▸ hc
      obtain ⟨j, -, hj⟩ := (anyIncomplete_iff _ _).1 hany
      obtain ⟨x, hx⟩ := hi.bythread j hj
      obtain ⟨-, hxc, hxj⟩ := hi.visit (.inr hx)
      refine ⟨hi.interrupted_iff.1 hint, x, hxc, fun k hk => ?_⟩
      obtain ⟨-, -, rfl⟩ := hi.visit (.inl hk)
      rw [hxj] at hk
      exact not_nodup_of_two (f := Event.chunkId?) hk hx (by simp) rfl rfl hi.ids_nodup
    · cases h
  · rintro ⟨hc, x, hx, hread⟩
    have hskip := (hi.visited_of_exited hN hex hx).resolve_left (hread _)
    have hany : anyIncomplete cfg.nthreads.toNat s.interruptedBythread = true := by
      rcases hi.marked ⟨_, _, hskip⟩ with ⟨j, hj⟩ | ⟨k, i, w, hk⟩
      · obtain ⟨y, hy⟩ := hi.bythread j hj
        exact (anyIncomplete_iff _ _).2 ⟨j, (hi.visit (.inr hy)).1, hj⟩
      · rw [hex k (hi.worker_at hk).1] at hk; cases hk
    rw [hi.interrupted_iff.2 hc, hany]
    rfl

/-- Ten chunks on three threads, each read and processed without error. -/
def tenChunks : Config := ⟨3, 10, fun _ => ⟨.ok, [], .ok⟩, .standard, true, "", 0, .atomic⟩

/-- **A run without cancellation.**  If `apply` has returned and the user never interrupted
it, it returned normally and every chunk was read exactly once. -/
theorem apply_returns_all_started (cfg : Config) (hN : 0 < cfg.nthreads.toNat)
    (hC : cfg.count.toNat + cfg.nthreads.toNat ≤ 2 ^ 32) (con : Console) (s : State)
    (hs : Reachable cfg con s) (r : Result) (hr : s.sup = .returned r)
    (hc : .cancel ∉ s.trace) :
    r = .returns ∧ ∀ i < cfg.count.toNat, (s.trace.filterMap Event.readId?).count i = 1 := by
  have hi := hs.inv hC
  obtain ⟨hex, rfl⟩ := hi.returned r hr
  have hint : s.interrupted = false := Bool.eq_false_iff.2 fun h => hc (hi.interrupted_iff.1 h)
  refine ⟨by simp [State.result, hint], fun i hi' => ?_⟩
  have hread := (hi.visited_of_exited hN hex hi').resolve_right fun h => hc (hi.skip_cancel _ _ h)
  exact List.count_eq_one_of_mem ((readId_sublist _).nodup hi.ids_nodup)
    (List.mem_filterMap.2 ⟨_, hread, rfl⟩)

/-- One chunk on one thread, read and processed without error. -/
def oneChunk : Config := ⟨1, 1, fun _ => ⟨.ok, [], .ok⟩, .standard, true, "", 0, .atomic⟩

/-- The run of `oneChunk`: worker `0` reads chunk `0` and finishes, and the calling thread
sees it done and joins. -/
theorem apply_returns_all_started_one :
    ∃ s, Reachable oneChunk Console.init s ∧ s.sup = .returned .returns ∧ .cancel ∉ s.trace ∧
      (Result.returns = .returns ∧
        ∀ i < oneChunk.count.toNat, (s.trace.filterMap Event.readId?).count i = 1) := by
  have start : Runs oneChunk (fun _ => True) (init Console.init) (init Console.init) := Runs.refl
  have hrun : Reachable oneChunk Console.init _ :=
    ((((((start.tail' _ trivial (.spawn rfl (by decide))).tail' _
      trivial (.spawnDone rfl (by decide))).tail' (.worker 0) trivial
      (.work (i := 0) rfl (by decide) rfl)).tail' (.worker 0) trivial
      (.finish (i := 1) rfl rfl (by decide))).tail' _ trivial
      (.tickDone (i := 0) rfl (by decide))).tail' _ trivial
      (.joinAll rfl fun k hk => by
        obtain rfl : k = 0 := by have : k < 1 := hk; omega
        rfl))
  exact ⟨_, hrun, rfl, by decide,
    apply_returns_all_started oneChunk (by decide) (by decide) _ _ hrun _ rfl (by decide)⟩

end Contract

end Apply

end Gdalcubes
