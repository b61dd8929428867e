import Mathlib.Data.List.Sort
import Mathlib.Data.String.Basic

/-!
# The loop of a worker thread

Worker `it` of `chunk_processor_multithread_interruptible::apply` runs
`for (uint32_t i = it; i < c->count_chunks(); i += _nthreads)`.  The counter is a
`uint32_t`, so `i += _nthreads` wraps around at `2^32`.  `chunkLoop` is this loop with a bound
on the number of tests `i < count` it may make: a loop that never ends is one that returns
`none` for every bound.

* `chunkLoop_visits`: when `count + nthreads ≤ 2^32` the counter never wraps, and the loop
  ends after visiting, in increasing order, exactly the ids below `count` that are `it`
  modulo `nthreads`; so the workers split `[0, count)` between them.
* `chunkLoop_never_ends`: when `nthreads` divides `2^32`, a worker whose ids all lie below
  `count` comes back to them after the wrap and never leaves its loop.
-/

namespace Gdalcubes

/-- The ids that the loop `for (uint32_t i = i₀; i < count; i += nthreads)` visits from the
counter value `i`, if it ends within `fuel` tests of `i < count`. -/
def chunkLoop (nthreads : UInt16) (count : UInt32) : Nat → UInt32 → Option (List UInt32)
  | 0, _ => none
  | fuel + 1, i =>
    if i < count then (chunkLoop nthreads count fuel (i + nthreads.toUInt32)).map (i :: ·)
    else some []

lemma chunkLoop_succ_of_lt {N : UInt16} {C i : UInt32} (fuel : Nat) (h : i < C) :
    chunkLoop N C (fuel + 1) i = (chunkLoop N C fuel (i + N.toUInt32)).map (i :: ·) :=
  if_pos h

lemma chunkLoop_succ_of_not_lt {N : UInt16} {C i : UInt32} (fuel : Nat) (h : ¬ i < C) :
    chunkLoop N C (fuel + 1) i = some [] :=
  if_neg h

/-- `i += nthreads` does not wrap while `i` is below `count` and `count + nthreads ≤ 2^32`. -/
lemma toNat_add_nthreads {N : UInt16} {C i : UInt32} (hC : C.toNat + N.toNat ≤ 2 ^ 32)
    (h : i < C) : (i + N.toUInt32).toNat = i.toNat + N.toNat := by
  have : i.toNat < C.toNat := h
  rw [UInt32.toNat_add, UInt16.toUInt32_toNat]
  exact Nat.mod_eq_of_lt (by simp only [UInt32.size]; omega)

/-- `++i` on a `uint16_t` below `65535` does not wrap. -/
lemma toNat_add_one {i : UInt16} (h : i.toNat < 65535) : (i + 1).toNat = i.toNat + 1 := by
  rw [UInt16.toNat_add, UInt16.toNat_ofNat]; simp only [UInt16.size]; omega

/-! ### Without wrap-around -/

section NoWrap

variable {N : UInt16} {C : UInt32}

/-- From `i`, the loop visits the `m` ids `i, i + N, …` up to the last one below `count`. -/
lemma chunkLoop_eq_range' (hC : C.toNat + N.toNat ≤ 2 ^ 32) (fuel : Nat) (i : UInt32)
    (hfuel : C.toNat ≤ i.toNat + fuel * N.toNat) :
    ∃ m, (chunkLoop N C (fuel + 1) i).map (List.map UInt32.toNat) =
        some (List.range' i.toNat m N.toNat) ∧
      C.toNat ≤ i.toNat + N.toNat * m ∧ ∀ j < m, i.toNat + N.toNat * j < C.toNat := by
  induction fuel generalizing i with
  | zero =>
    have hi : ¬ i < C := fun h => absurd (show i.toNat < C.toNat from h) (by omega)
    exact ⟨0, by simp [chunkLoop_succ_of_not_lt 0 hi], by omega, by omega⟩
  | succ fuel ih =>
    by_cases hi : i < C
    · have hi' : i.toNat < C.toNat := hi
      have hadd := toNat_add_nthreads hC hi
      obtain ⟨m, hl, hle, hlt⟩ := ih (i + N.toUInt32) (by rw [hadd, Nat.succ_mul] at *; omega)
      refine ⟨m + 1, ?_, ?_, ?_⟩
      · rw [chunkLoop_succ_of_lt _ hi, List.range'_succ, ← hadd]
        cases h : chunkLoop N C (fuel + 1) (i + N.toUInt32) with
        | none => simp [h] at hl
        | some L => simpa [h] using hl
      · rw [hadd] at hle; rw [Nat.mul_succ]; omega
      · rintro (_ | j) hj
        · simpa using hi'
        · have := hlt j (by omega); rw [hadd] at this; rw [Nat.mul_succ]; omega
    · have hi' : ¬ i.toNat < C.toNat := hi
      exact ⟨0, by simp [chunkLoop_succ_of_not_lt _ hi], by omega, by omega⟩

/-- The ids `i, i + n, …, i + n * (m - 1)` are those at least `i`, below its bound and equal to
`i` modulo `n`. -/
lemma mem_range'_iff {n i m c : Nat} (hc : c ≤ i + n * m) (hlt : ∀ j < m, i + n * j < c)
    (x : Nat) : x ∈ List.range' i m n ↔ i ≤ x ∧ x < c ∧ x % n = i % n := by
  rw [List.mem_range']
  constructor
  · rintro ⟨j, hj, rfl⟩
    exact ⟨by omega, hlt j hj, by simp [Nat.add_mul_mod_self_left]⟩
  · rintro ⟨hix, hxc, hmod⟩
    obtain ⟨j, hj⟩ := Nat.dvd_of_mod_eq_zero (Nat.sub_mod_eq_zero_of_mod_eq hmod)
    refine ⟨j, ?_, by omega⟩
    by_contra hjm
    have : n * m ≤ n * j := Nat.mul_le_mul_left _ (by omega)
    omega

/-- **The loop of worker `it`.**  It ends, and the ids it visits are, in increasing order,
exactly those below `count` that are `it` modulo `nthreads`. -/
theorem chunkLoop_visits (hN : 0 < N.toNat) (hC : C.toNat + N.toNat ≤ 2 ^ 32) (it : UInt16)
    (hit : it < N) (fuel : Nat) (hfuel : C.toNat < fuel) :
    ∃ L, chunkLoop N C fuel it.toUInt32 = some L ∧ (L.map UInt32.toNat).Pairwise (· < ·) ∧
      ∀ x, x ∈ L.map UInt32.toNat ↔ x < C.toNat ∧ x % N.toNat = it.toNat := by
  have hit' : it.toNat < N.toNat := hit
  obtain ⟨f, rfl⟩ : ∃ f, fuel = f + 1 := ⟨fuel - 1, by omega⟩
  obtain ⟨m, hl, hle, hlt⟩ := chunkLoop_eq_range' hC f it.toUInt32
    (by have := Nat.le_mul_of_pos_right f hN; rw [UInt16.toUInt32_toNat]; omega)
  cases hL : chunkLoop N C (f + 1) it.toUInt32 with
  | none => simp [hL] at hl
  | some L =>
    simp only [hL, Option.map_some', Option.some.injEq, UInt16.toUInt32_toNat] at hl hle hlt
    refine ⟨L, rfl, hl ▸ List.pairwise_lt_range' _ _ _ hN, fun x => ?_⟩
    rw [hl, mem_range'_iff hle hlt, Nat.mod_eq_of_lt hit']
    constructor
    · exact fun h => ⟨h.2.1, h.2.2⟩
    · exact fun h => ⟨h.2 ▸ Nat.mod_le x _, h⟩

/-- Three workers on ten chunks split them as `{0, 3, 6, 9}`, `{1, 4, 7}` and `{2, 5, 8}`. -/
example : chunkLoop 3 10 11 (0 : UInt16).toUInt32 = some [0, 3, 6, 9] ∧
    chunkLoop 3 10 11 (1 : UInt16).toUInt32 = some [1, 4, 7] ∧
    chunkLoop 3 10 11 (2 : UInt16).toUInt32 = some [2, 5, 8] := by
  decide

/-- Worker `1` of three, on ten chunks, visits `1, 4, 7`. -/
theorem chunkLoop_visits_three :
    ∃ L, chunkLoop 3 10 11 (1 : UInt16).toUInt32 = some L ∧
      (L.map UInt32.toNat).Pairwise (· < ·) ∧
      ∀ x, x ∈ L.map UInt32.toNat ↔ x < (10 : UInt32).toNat ∧ x % (3 : UInt16).toNat = 1 :=
  chunkLoop_visits (N := 3) (C := 10) (by decide) (by decide) 1 (by decide) 11 (by decide)

end NoWrap

/-! ### With wrap-around -/

/-- When `nthreads` divides `2^32`, adding it keeps the residue of the counter. -/
lemma toNat_add_nthreads_mod {N : UInt16} (hN : N.toNat ∣ 2 ^ 32) (i : UInt32) :
    (i + N.toUInt32).toNat % N.toNat = i.toNat % N.toNat := by
  rw [UInt32.toNat_add, UInt16.toUInt32_toNat,
    Nat.mod_mod_of_dvd _ (show N.toNat ∣ UInt32.size from hN), Nat.add_mod_right]

/-- A counter value that is `k` modulo a divisor `N` of `2^32` is at most `2^32 - N + k`. -/
lemma le_of_mod_eq {N : UInt16} (hN : N.toNat ∣ 2 ^ 32) {i : UInt32} {k : Nat}
    (hk : i.toNat % N.toNat = k) : i.toNat ≤ 2 ^ 32 - N.toNat + k := by
  obtain ⟨b, hb⟩ := hN
  have hq : N.toNat * (i.toNat / N.toNat) + k = i.toNat := hk ▸ Nat.div_add_mod _ _
  have hlt : i.toNat / N.toNat < b :=
    Nat.div_lt_of_lt_mul (by have := i.toNat_lt; rw [hb] at this; exact this)
  have : N.toNat * (i.toNat / N.toNat) ≤ N.toNat * (b - 1) := Nat.mul_le_mul_left _ (by omega)
  rw [Nat.mul_sub_one] at this
  omega

/-- **The loop may never end.**  When `nthreads` divides `2^32` and every id that is `it`
modulo `nthreads` lies below `count`, the counter of worker `it` wraps around to `it` and
the loop goes on forever. -/
theorem chunkLoop_never_ends {N : UInt16} {C : UInt32} (hN : N.toNat ∣ 2 ^ 32) (it : UInt16)
    (hC : 2 ^ 32 - N.toNat + it.toNat < C.toNat) (hit : it < N) :
    ∀ fuel, chunkLoop N C fuel it.toUInt32 = none := by
  have hit' : it.toNat < N.toNat := hit
  suffices ∀ fuel (i : UInt32), i.toNat % N.toNat = it.toNat → chunkLoop N C fuel i = none from
    fun fuel => this fuel _ (by rw [UInt16.toUInt32_toNat, Nat.mod_eq_of_lt hit'])
  intro fuel
  induction fuel with
  | zero => intro _ _; rfl
  | succ fuel ih =>
    intro i hi
    have hlt : i < C := show i.toNat < C.toNat by have := le_of_mod_eq hN hi; omega
    rw [chunkLoop_succ_of_lt _ hlt, ih _ ((toNat_add_nthreads_mod hN i).trans hi)]
    rfl

/-- With two threads and `count_chunks() = 2^32 - 1`, worker `0` visits `0, 2, …, 2^32 - 2`,
and then `i += 2` wraps to `0`: its loop never ends. -/
theorem chunkLoop_two_threads_wraps :
    ∀ fuel, chunkLoop 2 4294967295 fuel (0 : UInt16).toUInt32 = none :=
  chunkLoop_never_ends (by decide) 0 (by decide) (by decide)

end Gdalcubes
