import Mathlib.Algebra.Order.Ring.Nat
import Mathlib.Data.List.Basic

/-!
# Buffers in blocks

`splice off bs buff` is the buffer with `bs` written at the offset `off`, and `block s i buff` its `i`-th block
of `s` entries.  A block that is written is that block afterwards, and nothing else changes.  `fill_eq` says
what a buffer is whose blocks have all been written, in any order.
-/

namespace Blocks

variable {α : Type}

/-- The buffer with some entries overwritten. -/
def splice (off : Nat) (bs buff : List α) : List α := buff.take off ++ bs ++ buff.drop (off + bs.length)

/-- The `i`-th block of `s` entries. -/
def block (s i : Nat) (buff : List α) : List α := (buff.drop (i * s)).take s

theorem length_splice {off : Nat} {bs buff : List α} (h : off + bs.length ≤ buff.length) :
    (splice off bs buff).length = buff.length := by
  simp only [splice, List.length_append, List.length_take, List.length_drop]
  omega

private theorem getElem?_splice {off : Nat} {bs buff : List α} (h : off + bs.length ≤ buff.length) (k : Nat) :
    (splice off bs buff)[k]? = if off ≤ k ∧ k < off + bs.length then bs[k - off]? else buff[k]? := by
  have htake : (buff.take off).length = off := by
    rw [List.length_take]
    omega
  unfold splice
  rw [List.append_assoc]
  by_cases h1 : k < off
  · rw [if_neg (by omega), List.getElem?_append_left (by omega), List.getElem?_take_of_lt h1]
  · rw [List.getElem?_append_right (by omega), htake]
    by_cases h2 : k < off + bs.length
    · rw [if_pos ⟨by omega, h2⟩, List.getElem?_append_left (by omega)]
    · rw [if_neg (by omega), List.getElem?_append_right (by omega), List.getElem?_drop]
      congr 1
      omega

private theorem getElem?_block (s i : Nat) (buff : List α) (k : Nat) :
    (block s i buff)[k]? = if k < s then buff[i * s + k]? else none := by
  unfold block
  by_cases hk : k < s
  · rw [if_pos hk, List.getElem?_take_of_lt hk, List.getElem?_drop]
  · rw [if_neg hk, List.getElem?_take_eq_none (Nat.le_of_not_lt hk)]

/-- The block that has been written. -/
theorem block_splice_self {s i : Nat} {bs buff : List α} (hs : bs.length = s) (h : i * s + bs.length ≤ buff.length) :
    block s i (splice (i * s) bs buff) = bs := by
  refine List.ext_getElem? fun k => ?_
  rw [getElem?_block, getElem?_splice h]
  by_cases hk : k < s
  · rw [if_pos hk, if_pos ⟨by omega, by omega⟩, Nat.add_sub_cancel_left]
  · rw [if_neg hk, List.getElem?_eq_none (by omega)]

/-- A block of which only the beginning has been written. -/
theorem take_block_splice {s i : Nat} {bs buff : List α} (hs : bs.length ≤ s) (h : i * s + bs.length ≤ buff.length) :
    (block s i (splice (i * s) bs buff)).take bs.length = bs := by
  refine List.ext_getElem? fun k => ?_
  by_cases hk : k < bs.length
  · rw [List.getElem?_take_of_lt hk, getElem?_block, getElem?_splice h, if_pos (by omega), if_pos ⟨by omega, by omega⟩,
      Nat.add_sub_cancel_left]
  · rw [List.getElem?_take_eq_none (Nat.le_of_not_lt hk), List.getElem?_eq_none (Nat.le_of_not_lt hk)]

/-- The other blocks stay. -/
theorem block_splice_of_ne {s i j : Nat} {bs buff : List α} (hs : bs.length ≤ s) (h : i * s + bs.length ≤ buff.length)
    (hij : j ≠ i) : block s j (splice (i * s) bs buff) = block s j buff := by
  refine List.ext_getElem? fun k => ?_
  rw [getElem?_block, getElem?_block, getElem?_splice h]
  by_cases hk : k < s
  · rw [if_pos hk, if_pos hk, if_neg]
    rintro ⟨h1, h2⟩
    rcases Nat.lt_or_gt_of_ne hij with hlt | hlt
    · have := Nat.mul_le_mul_right s (Nat.succ_le_of_lt hlt)
      rw [Nat.succ_mul] at this
      omega
    · have := Nat.mul_le_mul_right s (Nat.succ_le_of_lt hlt)
      rw [Nat.succ_mul] at this
      omega
  · rw [if_neg hk, if_neg hk]

/-- What lies behind stays. -/
theorem drop_splice {off k : Nat} {bs buff : List α} (h : off + bs.length ≤ buff.length) (hk : off + bs.length ≤ k) :
    (splice off bs buff).drop k = buff.drop k := by
  refine List.ext_getElem? fun i => ?_
  rw [List.getElem?_drop, List.getElem?_drop, getElem?_splice h, if_neg (by omega)]

/-- A buffer is its blocks and what lies behind them. -/
theorem eq_blocks {s n : Nat} {buff : List α} (h : n * s ≤ buff.length) :
    buff = ((List.range n).flatMap fun i => block s i buff) ++ buff.drop (n * s) := by
  induction n with
  | zero => simp
  | succ n ih =>
    rw [Nat.succ_mul] at h
    have hsplit : buff.drop (n * s) = block s n buff ++ buff.drop ((n + 1) * s) := by
      rw [Nat.succ_mul, ← List.drop_drop]
      exact (List.take_append_drop s _).symm
    rw [List.range_succ, List.flatMap_append, List.append_assoc, List.flatMap_singleton, ← hsplit]
    exact ih (by omega)

private theorem length_blocks {s n : Nat} {D : Nat → List α} (hD : ∀ i < n, (D i).length = s) :
    ((List.range n).flatMap D).length = n * s := by
  induction n with
  | zero => simp
  | succ n ih =>
    rw [List.range_succ, List.flatMap_append, List.length_append, List.flatMap_singleton, hD n (Nat.lt_succ_self n),
      ih fun i hi => hD i (Nat.lt_succ_of_lt hi), Nat.succ_mul]

/-- The blocks of a buffer that has been put together from them. -/
theorem block_flatMap {s n : Nat} {D : Nat → List α} (hD : ∀ i < n, (D i).length = s) {r : Nat} (hr : r < n) :
    block s r ((List.range n).flatMap D) = D r := by
  induction n with
  | zero => exact absurd hr (Nat.not_lt_zero r)
  | succ n ih =>
    have hlen := length_blocks fun i (hi : i < n) => hD i (Nat.lt_succ_of_lt hi)
    rw [List.range_succ, List.flatMap_append, List.flatMap_singleton]
    unfold block
    rcases Nat.lt_succ_iff_lt_or_eq.1 hr with hlt | rfl
    · have hroom := Nat.mul_le_mul_right s (Nat.succ_le_of_lt hlt)
      rw [Nat.succ_mul] at hroom
      rw [List.drop_append_of_le_length (by omega), List.take_append_of_le_length (by rw [List.length_drop]; omega)]
      exact ih (fun i hi => hD i (Nat.lt_succ_of_lt hi)) hlt
    · rw [← hlen, List.drop_left, ← hD r (Nat.lt_succ_self r), List.take_length]

/-- The buffer with the blocks `D i` written, for some `i` one after the other. -/
def fill (s : Nat) (D : Nat → List α) (is : List Nat) (buff : List α) : List α :=
  is.foldl (fun buff i => splice (i * s) (D i) buff) buff

section

variable {s n : Nat} {D : Nat → List α} {is : List Nat} {buff : List α}

/-- There is room for a block. -/
theorem room {i : Nat} (hi : i < n) (hs : (D i).length = s) (hlen : n * s ≤ buff.length) :
    i * s + (D i).length ≤ buff.length ∧ i * s + (D i).length ≤ n * s := by
  have := Nat.mul_le_mul_right s (Nat.succ_le_of_lt hi)
  rw [Nat.succ_mul] at this
  omega

private theorem fill_spec (his : ∀ i ∈ is, i < n ∧ (D i).length = s) (hlen : n * s ≤ buff.length) :
    (fill s D is buff).length = buff.length ∧ (fill s D is buff).drop (n * s) = buff.drop (n * s) ∧
      ∀ j, (j ∈ is → block s j (fill s D is buff) = D j) ∧
        (j ∉ is → block s j (fill s D is buff) = block s j buff) := by
  induction is generalizing buff with
  | nil => exact ⟨rfl, rfl, fun j => ⟨fun h => absurd h List.not_mem_nil, fun _ => rfl⟩⟩
  | cons i is ih =>
    obtain ⟨hi, hs⟩ := his i (List.mem_cons_self ..)
    obtain ⟨hroom, hn⟩ := room hi hs hlen
    have hlen' := length_splice hroom
    obtain ⟨h1, h2, h3⟩ := ih (fun j hj => his j (List.mem_cons_of_mem _ hj)) (by rw [hlen']; exact hlen)
    refine ⟨h1.trans hlen', h2.trans (drop_splice hroom hn), fun j => ⟨fun hj => ?_, fun hj => ?_⟩⟩
    · by_cases hmem : j ∈ is
      · exact (h3 j).1 hmem
      · obtain rfl := (List.mem_cons.1 hj).resolve_right hmem
        exact ((h3 j).2 hmem).trans (block_splice_self hs hroom)
    · have hne : j ≠ i := fun e => hj (e ▸ List.mem_cons_self ..)
      exact ((h3 j).2 fun hmem => hj (List.mem_cons_of_mem _ hmem)).trans
        (block_splice_of_ne (Nat.le_of_eq hs) hroom hne)

theorem length_fill (his : ∀ i ∈ is, i < n ∧ (D i).length = s) (hlen : n * s ≤ buff.length) :
    (fill s D is buff).length = buff.length := (fill_spec his hlen).1

/-- When all the blocks have been written, they are in their places, and what lies behind them is as it was. -/
theorem fill_eq (his : ∀ i ∈ is, i < n ∧ (D i).length = s) (hall : ∀ i, i < n → i ∈ is) (hlen : n * s ≤ buff.length) :
    fill s D is buff = (List.range n).flatMap D ++ buff.drop (n * s) := by
  obtain ⟨h1, h2, h3⟩ := fill_spec his hlen
  have hblocks : (List.range n).map (fun i => block s i (fill s D is buff)) = (List.range n).map D :=
    List.map_congr_left fun i hi => (h3 i).1 (hall i (List.mem_range.1 hi))
  rw [eq_blocks (h1.symm ▸ hlen : n * s ≤ (fill s D is buff).length), h2, List.flatMap_def, List.flatMap_def, hblocks]

end

end Blocks
