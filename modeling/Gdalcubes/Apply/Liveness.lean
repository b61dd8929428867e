import Gdalcubes.Apply.Invariant
import Gdalcubes.Apply.Bits

/-!
# `apply` can always return exactly when the workers' bits are apart

`Gdalcubes/Apply/Bits.lean` shows that `apply` can wait for ever when the bits of two workers
in `finished` share a machine word.  When no two workers' bits share a word (`BitWrites.Apart`:
always so when `v[k] = true` is one atomic step, and with word stores when there is a single
worker) and the counters of the worker loops do not wrap, this cannot happen.  From every
reachable state, whatever the interleaving so far and whether or not the user has interrupted,
the threads can go on so that `apply` returns or throws, with no further interrupt.  When two
workers' bits do share a word, a run can lose a bit and hang, whatever the number of threads
and chunks (`apply_hangs_of_shared_word`).

The run has three phases:

* `spawns`: the calling thread creates the workers it has still to create;
* `worker_loop_ends`, `worker_exits`: a worker at its loop runs it to its end, one chunk per
  iteration (one step, or a load and a store when it skips the chunk), the measure being
  `count_chunks() - i`, then sets its bit; `Live.worker_exits_from` lets a worker between a
  load and a store store first;
* `workers_exit`: so all workers exit one after another.  Every bit of `finished` is then set
  (`Live.marked`), the next tick finds `done`, and the calling thread joins and returns.

`Live.can_return` puts the phases together; `apply_can_return` and `apply_can_return_apart`
are its cases for atomic bit writes and for apart bits.  For the converse, `bit_lost` is the
race of two workers whose bits share a word, and `Unmarked` says that until worker `j` stores,
bit `j` is unset in memory and in every loaded word.
-/

namespace Gdalcubes

namespace Apply

open Function (update)

/-- No two of the `n` workers keep their bits in one word: always so when `v[k] = true` is one
atomic step, and with words of `W` bits when `n ≤ 1` or `W = 1`. -/
def BitWrites.Apart (n : Nat) : BitWrites → Prop
  | .atomic => True
  | .wordRMW W => ∀ j < n, ∀ k < n, j / W = k / W → j = k

instance (n : Nat) (b : BitWrites) : Decidable (b.Apart n) :=
  match b with
  | .atomic => inferInstanceAs (Decidable True)
  | .wordRMW W => inferInstanceAs (Decidable (∀ j < n, ∀ k < n, j / W = k / W → j = k))

/-- Bits that are not apart are word stores with two workers in one word. -/
lemma BitWrites.exists_of_not_apart {n : Nat} {b : BitWrites} (h : ¬ b.Apart n) :
    ∃ W, b = .wordRMW W ∧ ∃ j < n, ∃ k < n, j / W = k / W ∧ j ≠ k := by
  cases b with
  | atomic => exact absurd trivial h
  | wordRMW W =>
    rw [BitWrites.Apart] at h
    push_neg at h
    exact ⟨W, rfl, h⟩

/-- With apart bits, the store of worker `k`'s word keeps the bit of every other worker. -/
lemma storeWord_apart {n W j k : Nat} (ha : BitWrites.Apart n (.wordRMW W)) (hj : j < n)
    (hk : k < n) (hjk : j ≠ k) (v word : Nat → Bool) : storeWord W v k word j = v j := by
  have : j / W ≠ k / W := fun h => hjk (ha j hj k hk h)
  simp [storeWord, this]

/-- What the steps keep, for any bit writes. -/
structure Live (cfg : Config) (s : State) : Prop where
  inv : Inv cfg s
  /-- A worker below `_nthreads` that does not exist is one the spawn loop has still to
  create. -/
  started : ∀ k < cfg.nthreads.toNat, s.worker k = .notStarted →
    ∃ it : UInt16, s.sup = .spawn it ∧ it.toNat ≤ k
  /-- With atomic bit writes no worker is between the load and the store of a bit. -/
  atLoop : cfg.bits = .atomic →
    ∀ k, s.worker k = .notStarted ∨ s.worker k = .exited ∨ ∃ i, s.worker k = .loop i
  /-- With apart bits, a worker that has exited has set its bit of `finished`. -/
  marked : cfg.bits.Apart cfg.nthreads.toNat → ∀ k, s.worker k = .exited → s.finished k = true

variable {cfg : Config} {s t : State} {l : Label}

lemma live_init (con : Console) : Live cfg (init con) :=
  ⟨inv_init cfg con, fun k _ _ => ⟨0, rfl, Nat.zero_le k⟩, fun _ _ => .inl rfl,
    fun _ _ h => by cases h⟩

/-- A step of worker `k` keeps `Live` if it leaves the worker created, at its loop or exited
when bit writes are atomic, with its bit set if it exits, and keeps the bits of the workers
that have exited when the bits are apart. -/
lemma Live.worker_step (h : Live cfg s) (hi : Inv cfg t) {k : Nat} {pc : WorkerPc}
    (ht : t.worker = update s.worker k pc) (hsup : t.sup = s.sup) (hpc : pc ≠ .notStarted)
    (hat : cfg.bits = .atomic → pc = .exited ∨ ∃ i, pc = .loop i)
    (hk : pc = .exited → t.finished k = true)
    (hfin : cfg.bits.Apart cfg.nthreads.toNat →
      ∀ j ≠ k, s.worker j = .exited → t.finished j = s.finished j) : Live cfg t := by
  refine ⟨hi, fun j hj hn => ?_, fun hb j => ?_, fun ha j hj => ?_⟩ <;> by_cases hjk : j = k
  · subst hjk
    rw [ht, Function.update_same] at hn
    exact absurd hn hpc
  · rw [ht, Function.update_noteq hjk] at hn
    rw [hsup]
    exact h.started j hj hn
  · subst hjk
    rw [ht, Function.update_same]
    rcases hat hb with rfl | ⟨i, rfl⟩
    exacts [.inr (.inl rfl), .inr (.inr ⟨i, rfl⟩)]
  · rw [ht, Function.update_noteq hjk]
    exact h.atLoop hb j
  · subst hjk
    rw [ht, Function.update_same] at hj
    exact hk hj
  · rw [ht, Function.update_noteq hjk] at hj
    rw [hfin ha j hjk hj]
    exact h.marked ha j hj

/-- A step of the calling thread past the spawn loop keeps `Live`. -/
lemma Live.sup_step (h : Live cfg s) (hi : Inv cfg t) (hs : ∀ it, s.sup ≠ .spawn it)
    (ht : t.worker = s.worker) (hf : t.finished = s.finished) : Live cfg t := by
  refine ⟨hi, fun j hj hn => ?_, fun hb j => ht ▸ h.atLoop hb j,
    fun ha j => ht ▸ hf ▸ h.marked ha j⟩
  obtain ⟨it, hit, -⟩ := h.started j hj (ht ▸ hn)
  exact absurd hit (hs it)

/-! ### Steps of the workers -/

lemma Runs.frame_worker {k : Nat} (h : Runs cfg (· = .worker k) s t) :
    t.sup = s.sup ∧ ∀ j ≠ k, t.worker j = s.worker j := by
  refine h.preserve (P := fun u => u.sup = s.sup ∧ ∀ j ≠ k, u.worker j = s.worker j) ?_
    ⟨rfl, fun _ _ => rfl⟩
  rintro u _ v rfl hst ⟨hsup, hw⟩
  obtain ⟨-, -, e₁, e₂⟩ := hst.worker_inv
  exact ⟨e₁.trans hsup, fun j hj => (e₂ j hj).trans (hw j hj)⟩

lemma Runs.sup_of_workers {p : Label → Prop} (h : Runs cfg p s t)
    (hp : ∀ l, p l → ∃ k, l = .worker k) : t.sup = s.sup := by
  refine h.preserve (P := fun u => u.sup = s.sup) ?_ rfl
  rintro u l v hl hst hsup
  obtain ⟨k, rfl⟩ := hp l hl
  exact hst.worker_inv.2.2.1.trans hsup

/-- Steps of other workers leave worker `j` as it is. -/
lemma Runs.worker_other {p : Label → Prop} {j : Nat} (h : Runs cfg p s t)
    (hp : ∀ l, p l → ∃ k ≠ j, l = .worker k) : t.worker j = s.worker j := by
  refine h.preserve (P := fun u => u.worker j = s.worker j) ?_ rfl
  rintro u l v hl hst hu
  obtain ⟨k, hk, rfl⟩ := hp l hl
  exact (hst.worker_inv.2.2.2 j (Ne.symm hk)).trans hu

/-- Steps of the calling thread only create workers, at their loops, and set no bit. -/
lemma Runs.supervisor_frame (h : Runs cfg (· = .supervisor) s t) :
    t.finished = s.finished ∧ ∀ k, t.worker k = s.worker k ∨ ∃ i, t.worker k = .loop i := by
  refine h.preserve (P := fun u => u.finished = s.finished ∧
    ∀ k, u.worker k = s.worker k ∨ ∃ i, u.worker k = .loop i) ?_ ⟨rfl, fun _ => .inl rfl⟩
  rintro u _ v rfl hst ⟨hf, hw⟩
  cases hst with
  | @spawn it =>
    refine ⟨hf, fun k => ?_⟩
    by_cases hk : k = it.toNat
    · subst hk
      exact .inr ⟨_, Function.update_same _ _ _⟩
    · dsimp only
      rw [Function.update_noteq hk]
      exact hw k
  | spawnDone | tickDone | tickSleep | joinAll => exact ⟨hf, hw⟩

/-- One iteration on a chunk below `count_chunks()`: it is read, or skipped in one step or,
with word stores, in a load and a store. -/
lemma worker_next {k : Nat} {i : UInt32} (hw : s.worker k = .loop i) (hi : i < cfg.count) :
    ∃ t, Runs cfg (· = .worker k) s t ∧ t.worker k = .loop (i + cfg.nthreads.toUInt32) := by
  cases hn : s.interrupted
  · exact ⟨_, .single ⟨_, rfl, .work hw hi hn⟩, by simp⟩
  · cases hb : cfg.bits with
    | atomic => exact ⟨_, .single ⟨_, rfl, .skip hb hw hi hn⟩, by simp⟩
    | wordRMW W =>
      exact ⟨_, .head ⟨_, rfl, .skipLoad hb hw hi hn⟩
        (.single ⟨_, rfl, .skipStore hb (Function.update_same _ _ _)⟩), by simp⟩

/-- The loop test fails: the worker sets its bit, in one step or in a load and a store, and
exits. -/
lemma worker_ends {k : Nat} {i : UInt32} (hw : s.worker k = .loop i) (hi : ¬ i < cfg.count) :
    ∃ t, Runs cfg (· = .worker k) s t ∧ t.worker k = .exited := by
  cases hb : cfg.bits with
  | atomic => exact ⟨_, .single ⟨_, rfl, .finish hb hw hi⟩, by simp⟩
  | wordRMW W =>
    exact ⟨_, .head ⟨_, rfl, .finishLoad hb hw hi⟩
      (.single ⟨_, rfl, .finishStore hb (Function.update_same _ _ _)⟩), by simp⟩

/-- The calling thread creates the workers it has still to create, and prints. -/
lemma spawns (d : Nat) : ∀ (s : State) (it : UInt16), s.sup = .spawn it →
    cfg.nthreads.toNat - it.toNat ≤ d →
      ∃ t, Runs cfg (· = .supervisor) s t ∧ t.sup = .poll 0 := by
  induction d with
  | zero =>
    intro s it hs hd
    have hit : ¬ it < cfg.nthreads := fun h => absurd (show it.toNat < cfg.nthreads.toNat from h)
      (by omega)
    exact ⟨_, .single ⟨_, rfl, .spawnDone hs hit⟩, rfl⟩
  | succ d ih =>
    intro s it hs hd
    by_cases hit : it < cfg.nthreads
    · have hit' : it.toNat < cfg.nthreads.toNat := hit
      have hsucc : (it + 1).toNat = it.toNat + 1 :=
        toNat_add_one (by have := cfg.nthreads.toNat_lt; omega)
      obtain ⟨s₁, hst, hs₁⟩ : ∃ s₁, Step cfg s .supervisor s₁ ∧ s₁.sup = .spawn (it + 1) :=
        ⟨_, .spawn hs hit, rfl⟩
      obtain ⟨t, hr, ht⟩ := ih s₁ _ hs₁ (by omega)
      exact ⟨t, .head ⟨_, rfl, hst⟩ hr, ht⟩
    · exact ⟨_, .single ⟨_, rfl, .spawnDone hs hit⟩, rfl⟩

section Loop

variable (hC : cfg.count.toNat + cfg.nthreads.toNat ≤ 2 ^ 32)
include hC

/-- **A worker runs its loop to its end.**  Worker `k` at `i`, with at least one thread, takes
one iteration per chunk, reading it or skipping it, until `i` reaches `count_chunks()`. -/
lemma worker_loop_ends (hN : 0 < cfg.nthreads.toNat) {k : Nat} (m : Nat) :
    ∀ (s : State) (i : UInt32), s.worker k = .loop i → cfg.count.toNat ≤ i.toNat + m →
      ∃ t i', Runs cfg (· = .worker k) s t ∧ t.worker k = .loop i' ∧ ¬ i' < cfg.count := by
  induction m with
  | zero =>
    intro s i hw hm
    exact ⟨s, i, .refl, hw, fun h => absurd (show i.toNat < cfg.count.toNat from h) (by omega)⟩
  | succ m ih =>
    intro s i hw hm
    by_cases hi : i < cfg.count
    · have hadd := toNat_add_nthreads hC hi
      obtain ⟨s₁, hr₁, hw₁⟩ := worker_next hw hi
      obtain ⟨t, i', hr, ht⟩ := ih s₁ _ hw₁ (by omega)
      exact ⟨t, i', hr₁.trans hr, ht⟩
    · exact ⟨s, i, .refl, hw, hi⟩

/-- A worker at its loop runs it to its end, sets its bit and exits. -/
lemma worker_exits (hN : 0 < cfg.nthreads.toNat) {k : Nat} {i : UInt32}
    (hw : s.worker k = .loop i) : ∃ t, Runs cfg (· = .worker k) s t ∧ t.worker k = .exited := by
  obtain ⟨t, i', hr, hw', hi'⟩ := worker_loop_ends hC hN cfg.count.toNat s i hw (by omega)
  obtain ⟨u, hr', hu⟩ := worker_ends hw' hi'
  exact ⟨u, hr.trans hr', hu⟩

/-- A created worker can exit: one between the load and the store of a bit stores first. -/
lemma Live.worker_exits_from (hl : Live cfg s) {k : Nat} (hk : s.worker k ≠ .notStarted) :
    ∃ t, Runs cfg (· = .worker k) s t ∧ t.worker k = .exited := by
  /- With atomic bit writes the worker is at its loop or has exited. -/
  have atomic :
      cfg.bits = .atomic → ∀ pc, s.worker k = pc → pc = .exited ∨ ∃ i, pc = .loop i := by
    rintro hb pc rfl
    rcases hl.atLoop hb k with h | h | h
    exacts [absurd h hk, .inl h, .inr h]
  cases hw : s.worker k with
  | notStarted => exact absurd hw hk
  | exited => exact ⟨s, .refl, hw⟩
  | loop i =>
    have hkn := (hl.inv.worker_at hw).1
    exact worker_exits hC (by omega) hw
  | storeSkip i w =>
    cases hb : cfg.bits with
    | atomic => rcases atomic hb _ hw with h | ⟨_, h⟩ <;> cases h
    | wordRMW W =>
      have hkn := (hl.inv.worker_at hw).1
      obtain ⟨s₁, hst, hw₁⟩ : ∃ s₁, Step cfg s (.worker k) s₁ ∧
          s₁.worker k = .loop (i + cfg.nthreads.toUInt32) := ⟨_, .skipStore hb hw, by simp⟩
      obtain ⟨t, hr, ht⟩ := worker_exits hC (by omega) hw₁
      exact ⟨t, .head ⟨_, rfl, hst⟩ hr, ht⟩
  | storeFinished w =>
    cases hb : cfg.bits with
    | atomic => rcases atomic hb _ hw with h | ⟨_, h⟩ <;> cases h
    | wordRMW W => exact ⟨_, .single ⟨_, rfl, .finishStore hb hw⟩, by simp⟩

/-- Every step keeps `Live`.  `Live.marked` needs the bits apart for the store of a worker's
word at the end of its loop, which must not clear the bit of a worker that has exited. -/
lemma Live.step (h : Live cfg s) (hst : Step cfg s l t) : Live cfg t := by
  have hi := h.inv.step hC hst
  cases hst with
  | @spawn it hs hit =>
    have hit' : it.toNat < cfg.nthreads.toNat := hit
    have hsucc : (it + 1).toNat = it.toNat + 1 :=
      toNat_add_one (by have := cfg.nthreads.toNat_lt; omega)
    refine ⟨hi, fun j hj hn => ?_, fun hb j => ?_, fun ha j hj => ?_⟩ <;>
      by_cases hjk : j = it.toNat <;> dsimp only at *
    · subst hjk; simp at hn
    · rw [Function.update_noteq hjk] at hn
      obtain ⟨u, hu, hle⟩ := h.started j hj hn
      rw [hs] at hu
      cases hu
      exact ⟨it + 1, rfl, by omega⟩
    · subst hjk; simp
    · rw [Function.update_noteq hjk]; exact h.atLoop hb j
    · subst hjk; simp at hj
    · rw [Function.update_noteq hjk] at hj; exact h.marked ha j hj
  | @spawnDone it hs hit =>
    have hit' : ¬ it.toNat < cfg.nthreads.toNat := hit
    refine ⟨hi, fun j hj hn => ?_, h.atLoop, h.marked⟩
    obtain ⟨u, hu, hle⟩ := h.started j hj hn
    rw [hs] at hu
    cases hu
    omega
  | tickDone hs | tickSleep hs | tickCancel hs | joinAll hs =>
    exact h.sup_step hi (fun _ => by simp [hs]) rfl rfl
  | work | skip | skipStore =>
    exact h.worker_step hi rfl rfl nofun (fun _ => .inr ⟨_, rfl⟩) nofun fun _ _ _ _ => rfl
  | finish =>
    exact h.worker_step hi rfl rfl nofun (fun _ => .inl rfl) (fun _ => by simp)
      fun _ j hj _ => Function.update_noteq hj _ _
  | skipLoad hb | finishLoad hb =>
    exact h.worker_step hi rfl rfl nofun (fun h => nomatch h.symm.trans hb) nofun
      fun _ _ _ _ => rfl
  | finishStore hb hw =>
    exact h.worker_step hi rfl rfl nofun (fun _ => .inl rfl) (fun _ => storeWord_self _ _ _ _)
      fun ha j hj hje =>
        storeWord_apart (hb ▸ ha) (h.inv.worker_at hje).1 (h.inv.worker_at hw).1 hj _ _

lemma Live.runs (h : Live cfg s) {p : Label → Prop} (hr : Runs cfg p s t) : Live cfg t :=
  hr.preserve (fun _ _ _ _ hst hl => hl.step hC hst) h

lemma Reachable.live {con : Console} (hs : Reachable cfg con s) : Live cfg s :=
  (live_init con).runs hC hs

/-- Past the spawn loop, the workers below `m`, except those in `skip`, can exit one after
another, and only they take steps. -/
lemma workers_exit (hl : Live cfg s) (hs : ∀ it, s.sup ≠ .spawn it) (skip : Nat → Prop)
    (m : Nat) (hm : m ≤ cfg.nthreads.toNat) :
    ∃ t, Runs cfg (fun l => ∃ k, ¬ skip k ∧ l = .worker k) s t ∧
      ∀ k < m, ¬ skip k → t.worker k = .exited := by
  induction m with
  | zero => exact ⟨s, .refl, fun _ h => absurd h (Nat.not_lt_zero _)⟩
  | succ m ih =>
    obtain ⟨t₁, hr₁, hex⟩ := ih (by omega)
    by_cases hsm : skip m
    · refine ⟨t₁, hr₁, fun k hk hsk => ?_⟩
      rcases Nat.lt_succ_iff_lt_or_eq.1 hk with hk | rfl
      exacts [hex k hk hsk, absurd hsm hsk]
    have hl₁ := hl.runs hC hr₁
    /- Worker `m` has been created, since the spawn loop is over. -/
    have hn : t₁.worker m ≠ .notStarted := fun hn => by
      obtain ⟨it, hit, -⟩ := hl₁.started m (by omega) hn
      exact hs it ((hr₁.sup_of_workers fun _ ⟨k, _, hk⟩ => ⟨k, hk⟩) ▸ hit)
    obtain ⟨t, hr, ht⟩ := hl₁.worker_exits_from hC hn
    refine ⟨t, hr₁.trans (hr.weaken fun l hl => ⟨m, hsm, hl⟩), fun k hk hsk => ?_⟩
    rcases Nat.lt_succ_iff_lt_or_eq.1 hk with hk | rfl
    · rw [hr.frame_worker.2 k (by omega)]
      exact hex k hk hsk
    · exact ht

/-- From a state where `Live` holds, with apart bits, the calling thread creates the missing
workers, every worker runs its loop to its end, and the next tick finds `done`. -/
lemma Live.can_return (ha : cfg.bits.Apart cfg.nthreads.toNat) (hl : Live cfg s) :
    ∃ t r, Runs cfg (· ≠ .hostInterrupt) s t ∧ t.sup = .returned r := by
  /- The spawn loop. -/
  obtain ⟨s₁, hr₁, hs₁⟩ :
      ∃ s₁, Runs cfg (· ≠ .hostInterrupt) s s₁ ∧ ∀ it, s₁.sup ≠ .spawn it := by
    cases h : s.sup with
    | spawn it =>
      obtain ⟨t, hr, ht⟩ := spawns _ s it h le_rfl
      exact ⟨t, hr.weaken fun l hl => hl ▸ nofun, by simp [ht]⟩
    | _ => exact ⟨s, .refl, by simp [h]⟩
  have hl₁ := hl.runs hC hr₁
  /- The workers. -/
  obtain ⟨s₂, hr₂, hex'⟩ := workers_exit hC hl₁ hs₁ (fun _ => False) _ le_rfl
  have hex : ∀ k < cfg.nthreads.toNat, s₂.worker k = .exited := fun k hk => hex' k hk not_false
  have hsup₂ := hr₂.sup_of_workers fun _ ⟨k, _, hk⟩ => ⟨k, hk⟩
  have hdone : allFinished cfg.nthreads.toNat s₂.finished = true :=
    (allFinished_iff _ _).2 fun k hk => (hl₁.runs hC hr₂).marked ha k (hex k hk)
  have hrun := hr₁.trans (hr₂.weaken fun l ⟨k, _, hk⟩ => hk ▸ nofun)
  /- The calling thread. -/
  cases h : s₁.sup with
  | spawn it => exact absurd h (hs₁ it)
  | poll i =>
    exact ⟨_, _, (hrun.tail' .supervisor nofun (.tickDone (hsup₂.trans h) hdone)).tail'
      .supervisor nofun (.joinAll rfl hex), rfl⟩
  | join => exact ⟨_, _, hrun.tail' .supervisor nofun (.joinAll (hsup₂.trans h) hex), rfl⟩
  | returned r => exact ⟨s₂, r, hrun, hsup₂.trans h⟩

end Loop

/-- **With atomic bit writes `apply` can always return.**  When `v[k] = true` is one atomic
step and `count_chunks() + _nthreads ≤ 2^32`, then from every reachable state, after any
interleaving and any interrupts, there is a run without a user interrupt in which `apply`
returns or throws: the calling thread creates the missing workers, every worker runs its loop
to its end, and the next tick finds `done`. -/
theorem apply_can_return (cfg : Config) (hb : cfg.bits = .atomic)
    (hC : cfg.count.toNat + cfg.nthreads.toNat ≤ 2 ^ 32) (con : Console) (s : State)
    (hs : Reachable cfg con s) :
    ∃ t r, Runs cfg (· ≠ .hostInterrupt) s t ∧ t.sup = .returned r :=
  have ha : cfg.bits.Apart cfg.nthreads.toNat := hb ▸ trivial
  (hs.live hC).can_return hC ha

/-- Two threads and four chunks, with atomic bit writes. -/
def fourChunks : Config := ⟨2, 4, fun _ => ⟨.ok, [], .ok⟩, .standard, true, "", 0, .atomic⟩

theorem apply_can_return_start :
    ∃ t r, Runs fourChunks (· ≠ .hostInterrupt) (init Console.init) t ∧ t.sup = .returned r :=
  apply_can_return fourChunks rfl (by decide) Console.init _ .refl

/-- **`apply` can always return when the workers' bits are apart.**  When no two workers keep
their bits of `finished` and `interrupted_bythread` in one word, as with a single worker, and
`count_chunks() + _nthreads ≤ 2^32`, then from every reachable state, after any interleaving
and any interrupts, there is a run without a user interrupt in which `apply` returns or
throws.  A worker between the load and the store of a bit stores it, every worker runs its
loop to its end, and since no store writes back another worker's bit, the next tick finds
`done`.  With bits that share a word this fails (`apply_hangs_of_shared_word`). -/
theorem apply_can_return_apart (cfg : Config) (ha : cfg.bits.Apart cfg.nthreads.toNat)
    (hC : cfg.count.toNat + cfg.nthreads.toNat ≤ 2 ^ 32) (con : Console) (s : State)
    (hs : Reachable cfg con s) :
    ∃ t r, Runs cfg (· ≠ .hostInterrupt) s t ∧ t.sup = .returned r :=
  (hs.live hC).can_return hC ha

/-- One worker, whose bits are stored as words of 64 bits, and four chunks. -/
def oneWorker : Config := ⟨1, 4, fun _ => ⟨.ok, [], .ok⟩, .standard, true, "", 0, .wordRMW 64⟩

theorem apply_can_return_oneWorker :
    oneWorker.bits.Apart oneWorker.nthreads.toNat ∧
      ∃ t r, Runs oneWorker (· ≠ .hostInterrupt) (init Console.init) t ∧ t.sup = .returned r :=
  ⟨by decide, apply_can_return_apart oneWorker (by decide) (by decide) Console.init _ .refl⟩

/-! ### With bits that share a word `apply` can hang -/

/-- Bit `j` of `finished` is unset, and so is bit `j` of every word that a worker has loaded
and not yet stored. -/
def Unmarked (j : Nat) (s : State) : Prop :=
  s.finished j = false ∧ ∀ k w, s.worker k = .storeFinished w → w j = false

lemma unmarked_init (j : Nat) (con : Console) : Unmarked j (init con) :=
  ⟨rfl, fun _ _ h => by cases h⟩

/-- Only worker `j` sets bit `j`: every other worker stores it back as it loaded it. -/
lemma Unmarked.step {j : Nat} (h : Unmarked j s) (hst : Step cfg s l t) (hl : l ≠ .worker j) :
    Unmarked j t := by
  obtain ⟨hf, hw⟩ := h
  /- A worker that moves to `pc` keeps the loaded words unmarked if `pc` does. -/
  have keep : ∀ {k pc}, (∀ w, pc = .storeFinished w → w j = false) →
      ∀ i w, update s.worker k pc i = .storeFinished w → w j = false := by
    intro k pc hpc i w hi
    by_cases hik : i = k
    · subst hik; rw [Function.update_same] at hi; exact hpc w hi
    · rw [Function.update_noteq hik] at hi; exact hw i w hi
  cases hst with
  | spawnDone | tickDone | tickSleep | tickCancel | joinAll => exact ⟨hf, hw⟩
  | spawn | work | skip | skipLoad | skipStore => exact ⟨hf, keep nofun⟩
  | finishLoad => exact ⟨hf, keep fun w h => by cases h; exact hf⟩
  | @finish k =>
    have hjk : j ≠ k := fun h => hl (by rw [h])
    exact ⟨by simpa [Function.update_noteq hjk] using hf, keep nofun⟩
  | @finishStore k W word _ hwk =>
    have hjk : j ≠ k := fun h => hl (by rw [h])
    refine ⟨?_, keep nofun⟩
    simp only [storeWord]
    split_ifs
    · simp [hw k word hwk, hjk]
    · exact hf

lemma Unmarked.runs {j : Nat} {p : Label → Prop} (h : Unmarked j s) (hr : Runs cfg p s t)
    (hp : ∀ l, p l → l ≠ .worker j) : Unmarked j t :=
  hr.preserve (fun _ l _ hl hst hu => hu.step hst (hp l hl)) h

/-- Workers from `_nthreads` on are never created. -/
lemma Inv.notStarted_of_le (hi : Inv cfg s) {k : Nat} (hk : cfg.nthreads.toNat ≤ k) :
    s.worker k = .notStarted := by
  cases hw : s.worker k with
  | notStarted => rfl
  | _ => exact absurd (hi.worker_at hw).1 (by omega)

section Race

variable (hC : cfg.count.toNat + cfg.nthreads.toNat ≤ 2 ^ 32)
include hC

/-- **The race.**  Workers `j` and `k`, whose bits share a word, are at their loops, and bit `j`
is unset.  Worker `k` runs its loop to its end and loads the word; worker `j` runs its loop to
its end and sets bit `j`; then worker `k` stores its word, with bit `j` as it loaded it. -/
lemma bit_lost {j k W : Nat} (hb : cfg.bits = .wordRMW W) (hN : 0 < cfg.nthreads.toNat)
    (hjk : j ≠ k) (hW : j / W = k / W) (hu : Unmarked j s) {xj xk : UInt32}
    (hwj : s.worker j = .loop xj) (hwk : s.worker k = .loop xk) :
    ∃ t, Runs cfg (fun l => l = .worker j ∨ l = .worker k) s t ∧ t.worker j = .exited ∧
      t.worker k = .exited ∧ t.finished j = false := by
  /- Worker `k` runs to its end and loads the word, in which bit `j` is unset. -/
  obtain ⟨s₁, x, hr₁, hw₁, hx⟩ := worker_loop_ends hC hN _ s xk hwk (Nat.le_add_left _ _)
  have hf₁ : s₁.finished j = false :=
    (hu.runs hr₁ fun _ hl h => hjk (Label.worker.inj (hl.symm.trans h)).symm).1
  obtain ⟨s₂, hst₂, hk₂, hj₂⟩ : ∃ s₂, Step cfg s₁ (.worker k) s₂ ∧
      s₂.worker k = .storeFinished s₁.finished ∧ s₂.worker j = .loop xj :=
    ⟨_, .finishLoad hb hw₁ hx, by simp,
      by simp [Function.update_noteq hjk, hr₁.frame_worker.2 j hjk, hwj]⟩
  /- Worker `j` runs to its end and sets its bit. -/
  obtain ⟨s₃, hr₃, hj₃⟩ := worker_exits hC hN hj₂
  have hk₃ : s₃.worker k = .storeFinished s₁.finished :=
    (hr₃.frame_worker.2 k (Ne.symm hjk)).trans hk₂
  /- Worker `k` stores its word. -/
  refine ⟨_, (((hr₁.weaken fun _ => .inr).tail' _ (.inr rfl) hst₂).trans
    (hr₃.weaken fun _ => .inl)).tail' _ (.inr rfl) (.finishStore hb hk₃), ?_, by simp, ?_⟩
  · simp [Function.update_noteq hjk, hj₃]
  · simp [storeWord, hW, hf₁, hjk]

end Race

/-- **With bits that share a word `apply` can hang.**  Take any number of chunks with
`count_chunks() + _nthreads ≤ 2^32`, and two workers whose bits of `finished` share a word, as
with two or more threads and the words of 64 bits of `std::vector<bool>`.  Then `apply` can
reach a state in which every worker has exited but `done` computes false, and from which it
never returns without a user interrupt: the calling thread creates the workers, the others run
to their ends, and the two race as in `bit_lost`.  With `apply_can_return_apart`, the runs of
`apply` can always return exactly when no two workers' bits share a word. -/
theorem apply_hangs_of_shared_word (cfg : Config) (hna : ¬ cfg.bits.Apart cfg.nthreads.toNat)
    (hC : cfg.count.toNat + cfg.nthreads.toNat ≤ 2 ^ 32) (con : Console) :
    ∃ s, Reachable cfg con s ∧ (∀ k < cfg.nthreads.toNat, s.worker k = .exited) ∧
      allFinished cfg.nthreads.toNat s.finished = false ∧
      ∀ t, Runs cfg (· ≠ .hostInterrupt) s t → ∀ r, t.sup ≠ .returned r := by
  /- Two workers whose bits share a word. -/
  obtain ⟨W, hb, j, hj, k, hk, hW, hjk⟩ := BitWrites.exists_of_not_apart hna
  /- The calling thread creates every worker, at its loop. -/
  obtain ⟨s₁, hr₁, hs₁⟩ := spawns cfg.nthreads.toNat (init con) 0 rfl (Nat.sub_le _ _)
  have hl₁ := Reachable.live hC (hr₁.weaken fun _ _ => trivial)
  have atLoop : ∀ i < cfg.nthreads.toNat, ∃ x, s₁.worker i = .loop x := fun i hi =>
    (hr₁.supervisor_frame.2 i).resolve_left fun h => by
      obtain ⟨it, hit, -⟩ := hl₁.started i hi h
      rw [hs₁] at hit
      cases hit
  /- The other workers run to their ends. -/
  obtain ⟨s₂, hr₂, hex₂⟩ := workers_exit hC hl₁ (by simp [hs₁]) (fun i => i = j ∨ i = k) _ le_rfl
  have other₂ : ∀ i, i = j ∨ i = k → s₂.worker i = s₁.worker i := fun i hi =>
    hr₂.worker_other fun _ ⟨m, hm, hl⟩ => ⟨m, fun h => hm (h ▸ hi), hl⟩
  have hu₂ : Unmarked j s₂ :=
    ((unmarked_init j con).runs hr₁ fun _ hl => hl ▸ nofun).runs hr₂
      fun _ ⟨m, hm, hl⟩ h => hm (.inl (Label.worker.inj (hl ▸ h)))
  obtain ⟨xj, hxj⟩ := atLoop j hj
  obtain ⟨xk, hxk⟩ := atLoop k hk
  /- The race. -/
  obtain ⟨s₃, hr₃, hj₃, hk₃, hf₃⟩ := bit_lost hC hb (by omega) hjk hW hu₂
    ((other₂ j (.inl rfl)).trans hxj) ((other₂ k (.inr rfl)).trans hxk)
  have hs₃ : Reachable cfg con s₃ := ((hr₁.weaken fun _ _ => trivial).trans
    (hr₂.weaken fun _ _ => trivial)).trans (hr₃.weaken fun _ _ => trivial)
  have hex : ∀ i < cfg.nthreads.toNat, s₃.worker i = .exited := by
    intro i hi
    by_cases hij : i = j
    · exact hij ▸ hj₃
    by_cases hik : i = k
    · exact hik ▸ hk₃
    rw [hr₃.worker_other fun _ hl => hl.elim (⟨j, Ne.symm hij, ·⟩) (⟨k, Ne.symm hik, ·⟩)]
    exact hex₂ i hi fun h => h.elim hij hik
  have hd : allFinished cfg.nthreads.toNat s₃.finished = false :=
    Bool.eq_false_iff.2 fun h => absurd ((allFinished_iff _ _).1 h j hj) (by simp [hf₃])
  /- The calling thread is still at its first tick, and spins. -/
  have hsup : s₃.sup = .poll 0 := by
    rw [hr₃.sup_of_workers fun _ hl => hl.elim (⟨j, ·⟩) (⟨k, ·⟩),
      hr₂.sup_of_workers fun _ ⟨m, _, hl⟩ => ⟨m, hl⟩, hs₁]
  refine ⟨s₃, hs₃, hex, hd, fun t ht r hr => ?_⟩
  obtain ⟨i, hi⟩ := spins (fun i => if h : i < cfg.nthreads.toNat then .inl (hex i h)
    else .inr ((hs₃.inv hC).notStarted_of_le (by omega))) hd ⟨0, hsup⟩ ht
  rw [hi] at hr
  cases hr

/-- Three threads, whose bits share a word of 64 bits, and five chunks. -/
def threeWorkers : Config := ⟨3, 5, fun _ => ⟨.ok, [], .ok⟩, .standard, true, "", 0, .wordRMW 64⟩

theorem apply_hangs_threeWorkers :
    ¬ threeWorkers.bits.Apart threeWorkers.nthreads.toNat ∧
      ∃ s, Reachable threeWorkers Console.init s ∧
        (∀ k < threeWorkers.nthreads.toNat, s.worker k = .exited) ∧
        allFinished threeWorkers.nthreads.toNat s.finished = false ∧
        ∀ t, Runs threeWorkers (· ≠ .hostInterrupt) s t → ∀ r, t.sup ≠ .returned r :=
  ⟨by decide, apply_hangs_of_shared_word threeWorkers (by decide) (by decide) Console.init⟩

end Apply

end Gdalcubes
