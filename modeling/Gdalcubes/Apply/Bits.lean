import Gdalcubes.Apply.Machine

/-!
# A lost bit of `finished`

`finished` is a `std::vector<bool>`.  Its bits share machine words, and `finished[it] = true`
loads the word that holds bit `it`, sets the bit and stores the word back.  Two workers whose
loops end at the same time can both load the word before either stores it; the second store
then writes back the first worker's bit as it was loaded, unset.

* `spins`: once every worker has exited but `done` computes false, the calling thread stays
  in `while (!done)` for ever, unless the user interrupts it;
* `finished_bit_lost`: with two threads whose bits share a word this state is reachable, so
  `apply` hangs until the user interrupts it.

The bits of `interrupted_bythread` can be lost in the same way, but every store sets the
storing worker's own bit, so some bit stays set once a chunk was skipped, and `apply_safety`
holds for these writes too.
-/

namespace Gdalcubes

namespace Apply

open Function (update)

/-- **The calling thread spins.**  When every worker has exited or was never created and
`done` computes false, the runs without a user interrupt stay in the polling loop. -/
lemma spins {cfg : Config} {s t : State}
    (hw : ∀ k, s.worker k = .exited ∨ s.worker k = .notStarted)
    (hd : allFinished cfg.nthreads.toNat s.finished = false) (hs : ∃ i, s.sup = .poll i)
    (h : Runs cfg (· ≠ .hostInterrupt) s t) : ∃ i, t.sup = .poll i := by
  refine (h.preserve (P := fun t => (∀ k, t.worker k = .exited ∨ t.worker k = .notStarted) ∧
    allFinished cfg.nthreads.toNat t.finished = false ∧ ∃ i, t.sup = .poll i) ?_
    ⟨hw, hd, hs⟩).2.2
  rintro s l t hl hst ⟨hw, hd, i, hs⟩
  cases l with
  | worker k =>
    /- A worker that steps is neither exited nor new. -/
    obtain ⟨h₁, h₂, -⟩ := hst.worker_inv
    exact ((hw k).elim h₂ h₁).elim
  | hostInterrupt => exact absurd rfl hl
  | supervisor =>
    cases hst with
    | tickSleep => exact ⟨hw, hd, _, rfl⟩
    | tickDone _ hd' => rw [hd] at hd'; cases hd'
    | spawn hs' | spawnDone hs' | joinAll hs' => rw [hs] at hs'; cases hs'

/-- **A bit of `finished` is lost.**  Take two threads, whose bits share a word of `W ≥ 2`
bits, and a cube without chunks.  Both workers end their loops and load the word; worker `0`
stores it with bit `0` set, then worker `1` stores its copy with bit `1` set and bit `0`
unset.  Both workers have exited, `done` computes false at every tick, and without a user
interrupt `apply` never returns. -/
theorem finished_bit_lost (cfg : Config) (W : Nat) (h2 : cfg.nthreads = 2) (h0 : cfg.count = 0)
    (hb : cfg.bits = .wordRMW W) (hW : 2 ≤ W) (con : Console) :
    ∃ s, Reachable cfg con s ∧ (∀ k < cfg.nthreads.toNat, s.worker k = .exited) ∧
      allFinished cfg.nthreads.toNat s.finished = false ∧
      ∀ t, Runs cfg (· ≠ .hostInterrupt) s t → ∀ r, t.sup ≠ .returned r := by
  have start : Runs cfg (fun _ => True) (init con) (init con) := Runs.refl
  have hrun := ((((((start.tail' _ trivial (.spawn rfl (by rw [h2]; decide))).tail' _
    trivial (.spawn rfl (by rw [h2]; decide))).tail' _ trivial
    (.spawnDone rfl (by rw [h2]; decide))).tail' (.worker 0) trivial
    (.finishLoad (i := 0) hb rfl (by rw [h0]; decide))).tail' (.worker 1) trivial
    (.finishLoad (i := 1) hb rfl (by rw [h0]; decide))).tail' (.worker 0) trivial
    (.finishStore hb rfl)).tail' (.worker 1) trivial (.finishStore hb rfl)
  have hn : cfg.nthreads.toNat = 2 := by rw [h2]; rfl
  have hw : 1 / W = 0 := Nat.div_eq_of_lt (by omega)
  refine ⟨_, hrun, fun k hk => ?_, ?_, fun t ht r hr => ?_⟩
  · rcases k with _ | _ | k
    · rfl
    · rfl
    · omega
  · simp [hn, allFinished, List.range_succ, storeWord, hw, init]
  · refine (spins (fun k => ?_) ?_ ⟨0, rfl⟩ ht).elim fun i hi => ?_
    · rcases k with _ | _ | k
      · exact .inl rfl
      · exact .inl rfl
      · exact .inr rfl
    · simp [hn, allFinished, List.range_succ, storeWord, hw, init]
    · rw [hr] at hi; cases hi

/-- Two threads and no chunks, with the 64-bit words of `std::vector<bool>` in libstdc++. -/
def twoThreadsNoChunks : Config :=
  ⟨2, 0, fun _ => ⟨.ok, [], .ok⟩, .standard, true, "", 0, .wordRMW 64⟩

theorem finished_bit_lost_64 :
    2 ≤ 64 ∧ ∃ s, Reachable twoThreadsNoChunks Console.init s ∧
      (∀ k < twoThreadsNoChunks.nthreads.toNat, s.worker k = .exited) ∧
      allFinished twoThreadsNoChunks.nthreads.toNat s.finished = false ∧
      ∀ t, Runs twoThreadsNoChunks (· ≠ .hostInterrupt) s t → ∀ r, t.sup ≠ .returned r :=
  ⟨by decide, finished_bit_lost twoThreadsNoChunks 64 rfl rfl rfl (by decide) Console.init⟩

end Apply

end Gdalcubes
