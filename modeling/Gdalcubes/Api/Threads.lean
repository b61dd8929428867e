import Gdalcubes.Apply.Invariant

/-!
# `gc_set_threads`

`gc_set_threads(n)` installs `chunk_processor_multithread_interruptible(n[0])` as the default
chunk processor.  The constructor takes a `uint16_t`, so the R integer `n[0]` is converted
modulo `2^16`: `gc_set_threads(65536)` installs a processor with no threads.  Its `apply`
finds every (that is, no) thread finished at the first tick and returns normally, having read
no chunk (`gc_set_threads_multiple_of_65536`).
-/

namespace Gdalcubes

open Apply

/-- The number of threads of the processor that `gc_set_threads(n)` installs: the `int`
`n[0]` converted to the `uint16_t` parameter of the constructor. -/
def gcSetThreads (n : Int) : UInt16 := (n % 65536).toNat.toUInt16

/-- **`gc_set_threads` with a multiple of `2^16`.**  The processor it installs has no threads;
`apply` returns normally without a user interrupt, and no run of it reads any chunk. -/
theorem gc_set_threads_multiple_of_65536 (n : Int) (hn : n % 65536 = 0) (cfg : Config)
    (hcfg : cfg.nthreads = gcSetThreads n) (con : Console) :
    (∃ s, Runs cfg (· ≠ .hostInterrupt) (init con) s ∧ s.sup = .returned .returns) ∧
      ∀ s, Reachable cfg con s → ∀ k i, .readChunk k i ∉ s.trace := by
  have h0 : cfg.nthreads = 0 := by rw [hcfg, gcSetThreads, hn]; rfl
  obtain ⟨s, hs, hr, -⟩ := returns_of_no_threads h0 con
  refine ⟨⟨s, hs, hr⟩, fun s hs k i h => ?_⟩
  have hC : cfg.count.toNat + cfg.nthreads.toNat ≤ 2 ^ 32 := by
    have := cfg.count.toNat_lt; rw [h0]; simpa using this.le
  have hk := ((hs.inv hC).visit (.inl h)).1
  rw [h0] at hk
  exact absurd hk (Nat.not_lt_zero _)

/-- The processor of `gc_set_threads(65536)`, on a cube with one chunk. -/
def setThreads65536 : Config :=
  ⟨gcSetThreads 65536, 1, fun _ => ⟨.ok, [], .ok⟩, .standard, true, "", 0, .atomic⟩

theorem gc_set_threads_65536 :
    (65536 : Int) % 65536 = 0 ∧
      (∃ s, Runs setThreads65536 (· ≠ .hostInterrupt) (init Console.init) s ∧
        s.sup = .returned .returns) ∧
      ∀ s, Reachable setThreads65536 Console.init s → ∀ k i, .readChunk k i ∉ s.trace :=
  ⟨by decide, gc_set_threads_multiple_of_65536 65536 (by decide) setThreads65536 rfl Console.init⟩

end Gdalcubes
