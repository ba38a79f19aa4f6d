import Mathlib.Algebra.Order.Ring.Nat

/-!
# Rounding to the nearest multiple, ties to even

`nearest u n` is the multiple of `u` nearest to `n`, and of two equally near ones the even one; `significand p n` is `n`
rounded to `p` significant binary digits, as the conversion of an integer to a binary float does.  Rounding never
crosses a multiple of the unit, so where `n` lands is decided by its distance to the multiple below it
(`nearest_le_iff`).  `ceilDiv n c` is the number of blocks of `c` that hold `n`.
-/

namespace Rounding

/-- The multiple of `u` nearest to `n`, ties to even. -/
def nearest (u n : Nat) : Nat :=
  if 2 * (n % u) < u ∨ 2 * (n % u) = u ∧ n / u % 2 = 0 then n / u * u else (n / u + 1) * u

/-- The unit in the last of `p` significant digits of `n`. -/
def ulp (p n : Nat) : Nat := 2 ^ (Nat.log2 n + 1 - p)

/-- `n` rounded to `p` significant binary digits, ties to even. -/
def significand (p n : Nat) : Nat := nearest (ulp p n) n

/-- Division, rounded up. -/
def ceilDiv (n c : Nat) : Nat := (n + c - 1) / c

theorem dvd_nearest (u n : Nat) : u ∣ nearest u n := by
  unfold nearest
  split
  · exact Nat.dvd_mul_left ..
  · exact Nat.dvd_mul_left ..

/-- Above a multiple of the unit `n` is rounded down to it when it is less than half a unit away, or half a unit and the
multiple is even. -/
theorem nearest_le_iff {u n q : Nat} (hu : 0 < u) (hn : q * u < n) :
    nearest u n ≤ q * u ↔ 2 * (n - q * u) < u ∨ 2 * (n - q * u) = u ∧ q % 2 = 0 := by
  have hdiv : n / u * u + n % u = n := by
    rw [Nat.mul_comm]
    exact Nat.div_add_mod n u
  have hmod : n % u < u := Nat.mod_lt _ hu
  have hq : q ≤ n / u := (Nat.le_div_iff_mul_le hu).2 (Nat.le_of_lt hn)
  rcases Nat.eq_or_lt_of_le hq with heq | hlt
  · -- `n` is less than a unit above the multiple
    have hr : n - q * u = n % u := by
      rw [heq]
      omega
    unfold nearest
    rw [hr, ← heq]
    split
    · rename_i h
      exact iff_of_true (Nat.le_refl _) h
    · rename_i h
      refine iff_of_false ?_ h
      rw [Nat.add_mul]
      omega
  · have hle : q * u + u ≤ n / u * u := by
      rw [← Nat.succ_mul]
      exact Nat.mul_le_mul_right u hlt
    refine iff_of_false ?_ (by omega)
    unfold nearest
    split
    · omega
    · rw [Nat.add_mul]
      omega

/-- Rounding does not cross a multiple of the unit upwards. -/
theorem nearest_le {u n q : Nat} (hu : 0 < u) (hn : n ≤ q * u) : nearest u n ≤ q * u := by
  have hq : n / u ≤ q := by
    have := Nat.div_le_div_right (c := u) hn
    rwa [Nat.mul_div_cancel _ hu] at this
  unfold nearest
  split
  · exact Nat.mul_le_mul_right u hq
  · rename_i h
    apply Nat.mul_le_mul_right
    rcases Nat.eq_or_lt_of_le hq with heq | hlt
    · have hdiv := Nat.div_add_mod n u
      rw [Nat.mul_comm, heq] at hdiv
      omega
    · exact hlt

/-- A multiple of the unit stays. -/
theorem nearest_of_dvd {u n : Nat} (h : u ∣ n) : nearest u n = n := by
  have hmod := Nat.mod_eq_zero_of_dvd h
  unfold nearest
  rw [hmod]
  split
  · exact Nat.div_mul_cancel h
  · rename_i hn
    obtain rfl : u = 0 := by omega
    rw [Nat.mul_zero]
    exact (Nat.eq_zero_of_zero_dvd h).symm

/-- Rounding does not cross a multiple of the unit downwards. -/
theorem le_nearest {u n q : Nat} (hu : 0 < u) (hn : q * u ≤ n) : q * u ≤ nearest u n := by
  have hq : q ≤ n / u := (Nat.le_div_iff_mul_le hu).2 hn
  unfold nearest
  split
  · exact Nat.mul_le_mul_right u hq
  · exact Nat.mul_le_mul_right u (Nat.le_succ_of_le hq)

/-- A number of at most `p` binary digits is not changed, nor is the first with one more. -/
theorem significand_of_le {p n : Nat} (hp : 0 < p) (h : n ≤ 2 ^ p) : significand p n = n := by
  refine nearest_of_dvd ?_
  rcases Nat.lt_or_eq_of_le h with hlt | rfl
  · rcases Nat.eq_zero_or_pos n with rfl | hn
    · exact Nat.dvd_zero _
    · have hlog := (Nat.log2_lt (Nat.ne_of_gt hn)).2 hlt
      rw [ulp, Nat.sub_eq_zero_of_le hlog, Nat.pow_zero]
      exact Nat.one_dvd n
  · rw [ulp, Nat.log2_two_pow]
    exact Nat.pow_dvd_pow 2 (by omega)

/-- The leading digit stays. -/
theorem le_significand {p n : Nat} (hp : 0 < p) (hn : n ≠ 0) : 2 ^ Nat.log2 n ≤ significand p n := by
  have hexp : Nat.log2 n = (Nat.log2 n - (Nat.log2 n + 1 - p)) + (Nat.log2 n + 1 - p) := by omega
  have hlog : 2 ^ Nat.log2 n = 2 ^ (Nat.log2 n - (Nat.log2 n + 1 - p)) * ulp p n := by
    rw [ulp, ← Nat.pow_add, ← hexp]
  rw [hlog]
  refine le_nearest (Nat.pow_pos (by decide)) ?_
  rw [← hlog]
  exact Nat.log2_self_le hn

theorem ceilDiv_le_iff {n c k : Nat} (hc : 0 < c) : ceilDiv n c ≤ k ↔ n ≤ k * c := by
  unfold ceilDiv
  rw [← Nat.lt_succ_iff, Nat.div_lt_iff_lt_mul hc, Nat.succ_mul]
  omega

theorem ceilDiv_eq_iff {n c k : Nat} (hc : 0 < c) : ceilDiv n c = k + 1 ↔ k * c < n ∧ n ≤ (k + 1) * c := by
  have h1 := ceilDiv_le_iff (n := n) (k := k + 1) hc
  have h2 := ceilDiv_le_iff (n := n) (k := k) hc
  omega

theorem ceilDiv_zero {c : Nat} (hc : 0 < c) : ceilDiv 0 c = 0 := by
  have := (ceilDiv_le_iff (n := 0) (k := 0) hc).2 (Nat.zero_le _)
  omega

theorem ceilDiv_pos {n c : Nat} (hc : 0 < c) (hn : 0 < n) : 0 < ceilDiv n c := by
  have := ceilDiv_le_iff (n := n) (k := 0) hc
  omega

theorem ceilDiv_of_le {n c : Nat} (hn : 0 < n) (h : n ≤ c) : ceilDiv n c = 1 :=
  (ceilDiv_eq_iff (k := 0) (by omega)).2 ⟨by omega, by omega⟩

theorem ceilDiv_sub {n c : Nat} (hc : 0 < c) (h : c < n) : ceilDiv n c = ceilDiv (n - c) c + 1 := by
  unfold ceilDiv
  rw [← Nat.add_div_right _ hc]
  congr 1
  omega

end Rounding
