import Mathlib.Algebra.Order.Ring.Nat

/-!
# Fixed-width words as bytes

`toBE k n` is the number `n` written in `k` bytes, most significant byte first, and `ofBE` reads such a byte string
back.  The two are inverse below `256 ^ k`; `toLE` and `ofLE` are the same with the least significant byte first.
-/

namespace Words

/-- The `k` low bytes of `n`, most significant first. -/
def toBE : Nat → Nat → List UInt8
  | 0, _ => []
  | k + 1, n => UInt8.ofNat (n / 256 ^ k) :: toBE k n

/-- The number with the given bytes, most significant first. -/
def ofBE (bs : List UInt8) : Nat := bs.foldl (fun n b => n * 256 + b.toNat) 0

/-- The number with the given bytes, least significant first. -/
def ofLE (bs : List UInt8) : Nat := ofBE bs.reverse

/-- The `k` low bytes of `n`, least significant first. -/
def toLE (k n : Nat) : List UInt8 := (toBE k n).reverse

@[simp] theorem length_toBE (k n : Nat) : (toBE k n).length = k := by
  induction k with
  | zero => rfl
  | succ k ih => simp [toBE, ih]

private theorem foldl_acc (bs : List UInt8) (a : Nat) :
    bs.foldl (fun n b => n * 256 + b.toNat) a = a * 256 ^ bs.length + ofBE bs := by
  unfold ofBE
  induction bs generalizing a with
  | nil => simp
  | cons b bs ih =>
    simp only [List.foldl_cons, List.length_cons]
    rw [ih (a * 256 + b.toNat), ih (0 * 256 + b.toNat), Nat.add_mul, Nat.pow_succ, Nat.zero_mul, Nat.zero_add,
      Nat.mul_assoc, Nat.mul_comm 256, Nat.add_assoc]

@[simp] theorem ofBE_nil : ofBE [] = 0 := rfl

theorem ofBE_cons (b : UInt8) (bs : List UInt8) : ofBE (b :: bs) = b.toNat * 256 ^ bs.length + ofBE bs := by
  have := foldl_acc bs (0 * 256 + b.toNat)
  simpa [ofBE] using this

private theorem ofBE_toBE_mod (k n : Nat) : ofBE (toBE k n) = n % 256 ^ k := by
  induction k with
  | zero => simp [toBE, Nat.mod_one]
  | succ k ih =>
    rw [toBE, ofBE_cons, length_toBE, ih, Nat.pow_succ, Nat.mod_mul, UInt8.toNat_ofNat']
    have : n / 256 ^ k % 2 ^ 8 = n / 256 ^ k % 256 := rfl
    rw [this, Nat.mul_comm, Nat.add_comm]

/-- Reading a written word gives the number back. -/
theorem ofBE_toBE {k n : Nat} (h : n < 256 ^ k) : ofBE (toBE k n) = n := by
  rw [ofBE_toBE_mod, Nat.mod_eq_of_lt h]

private theorem ofBE_lt (bs : List UInt8) : ofBE bs < 256 ^ bs.length := by
  induction bs with
  | nil => simp
  | cons b bs ih =>
    have hb : b.toNat < 256 := b.toNat_lt
    have hmul : (b.toNat + 1) * 256 ^ bs.length ≤ 256 * 256 ^ bs.length := Nat.mul_le_mul_right _ hb
    rw [ofBE_cons, List.length_cons, Nat.pow_succ]
    rw [Nat.add_mul, Nat.one_mul] at hmul
    omega

/-- Writing the number of a word gives the word back. -/
theorem toBE_ofBE (bs : List UInt8) : toBE bs.length (ofBE bs) = bs := by
  suffices h : ∀ bs bs' : List UInt8, bs.length = bs'.length → ofBE bs = ofBE bs' → bs = bs' by
    exact h _ _ (length_toBE ..) (ofBE_toBE (ofBE_lt bs))
  intro bs
  induction bs with
  | nil =>
    intro bs' hlen _
    exact (List.length_eq_zero_iff.1 hlen.symm).symm
  | cons b bs ih =>
    intro bs' hlen he
    cases bs' with
    | nil => cases hlen
    | cons b' bs' =>
      have hlen' : bs.length = bs'.length := Nat.succ.inj hlen
      rw [ofBE_cons, ofBE_cons, hlen'] at he
      have h1 := ofBE_lt bs
      have h2 := ofBE_lt bs'
      rw [hlen'] at h1
      have hb : b.toNat = b'.toNat := by
        have hpos : 0 < 256 ^ bs'.length := Nat.pow_pos (by decide)
        have e1 := Nat.mul_add_div hpos b.toNat (ofBE bs)
        have e2 := Nat.mul_add_div hpos b'.toNat (ofBE bs')
        rw [Nat.div_eq_of_lt h1, Nat.mul_comm, he, Nat.mul_comm, e2, Nat.div_eq_of_lt h2] at e1
        omega
      rw [hb] at he
      rw [UInt8.toNat_inj.1 hb, ih bs' hlen' (Nat.add_left_cancel he)]

@[simp] theorem length_toLE (k n : Nat) : (toLE k n).length = k := by
  rw [toLE, List.length_reverse, length_toBE]

theorem ofLE_toLE {k n : Nat} (h : n < 256 ^ k) : ofLE (toLE k n) = n := by
  rw [ofLE, toLE, List.reverse_reverse, ofBE_toBE h]

end Words
