import Mathlib.Algebra.Order.Ring.Nat
import Mathlib.Data.List.Basic

/-!
# Finite sets walked in order

An `OrdSet κ` is a strictly increasing list, the ordering being part of the value.  The operations are those of an
ordered set container with positions: `insert`, the position `idxOf` of an element (the length, for what is not in the
set) and `eraseIdx`.  The position of an element is the number of smaller elements (`idxOf_eq_countP`), so it depends
on the contents only.
-/

/-- A finite set, as the list of its elements in increasing order. -/
structure OrdSet (κ : Type) [LinearOrder κ] where
  elems : List κ
  sorted : elems.Pairwise (· < ·)

namespace OrdSet

variable {κ : Type} [LinearOrder κ]

/-- The set without elements. -/
def empty : OrdSet κ := ⟨[], List.Pairwise.nil⟩

instance : EmptyCollection (OrdSet κ) := ⟨empty⟩

/-- The list with `k` put in its place, unless it is there. -/
def insertElem (k : κ) : List κ → List κ
  | [] => [k]
  | a :: l => if k < a then k :: a :: l else if k = a then a :: l else a :: insertElem k l

private theorem mem_insertElem {k a : κ} {l : List κ} : a ∈ insertElem k l ↔ a = k ∨ a ∈ l := by
  induction l with
  | nil => simp [insertElem]
  | cons b l ih =>
    unfold insertElem
    split
    · simp
    · split
      · rename_i h
        subst h
        simp
      · rw [List.mem_cons, ih, List.mem_cons]
        exact or_left_comm

private theorem insertElem_sorted {k : κ} {l : List κ} (h : l.Pairwise (· < ·)) :
    (insertElem k l).Pairwise (· < ·) := by
  induction l with
  | nil => simp [insertElem]
  | cons b l ih =>
    obtain ⟨hb, hl⟩ := List.pairwise_cons.1 h
    unfold insertElem
    split
    · rename_i hlt
      refine List.pairwise_cons.2 ⟨fun c hc => ?_, h⟩
      rcases List.mem_cons.1 hc with rfl | hc
      · exact hlt
      · exact lt_trans hlt (hb c hc)
    · split
      · exact h
      · rename_i hlt hne
        refine List.pairwise_cons.2 ⟨fun c hc => ?_, ih hl⟩
        rcases mem_insertElem.1 hc with rfl | hc
        · exact lt_of_le_of_ne (not_lt.1 hlt) (Ne.symm hne)
        · exact hb c hc

/-- Put an element into the set. -/
def insert (s : OrdSet κ) (k : κ) : OrdSet κ := ⟨insertElem k s.elems, insertElem_sorted s.sorted⟩

/-- Remove the element at a position. -/
def eraseIdx (s : OrdSet κ) (i : Nat) : OrdSet κ := ⟨s.elems.eraseIdx i, s.sorted.eraseIdx i⟩

theorem nodup (s : OrdSet κ) : s.elems.Nodup := s.sorted.imp fun h => ne_of_lt h

theorem mem_insert {s : OrdSet κ} {k a : κ} : a ∈ (s.insert k).elems ↔ a = k ∨ a ∈ s.elems := mem_insertElem

theorem mem_eraseIdx_idxOf {s : OrdSet κ} {k a : κ} :
    a ∈ (s.eraseIdx (s.elems.idxOf k)).elems ↔ a ≠ k ∧ a ∈ s.elems := by
  change a ∈ s.elems.eraseIdx (s.elems.idxOf k) ↔ _
  rw [List.eraseIdx_idxOf_eq_erase, s.nodup.mem_erase_iff]

private theorem idxOf_countP {l : List κ} (h : l.Pairwise (· < ·)) {a : κ} (ha : a ∈ l) :
    l.idxOf a = l.countP fun b => decide (b < a) := by
  induction l with
  | nil => cases ha
  | cons b l ih =>
    obtain ⟨hb, hl⟩ := List.pairwise_cons.1 h
    by_cases hab : b = a
    · subst hab
      rw [List.idxOf_cons_self, eq_comm, List.countP_eq_zero]
      intro c hc
      rcases List.mem_cons.1 hc with rfl | hc
      · simp
      · simpa using le_of_lt (hb c hc)
    · have hal : a ∈ l := by
        rcases List.mem_cons.1 ha with h | h
        · exact absurd h.symm hab
        · exact h
      rw [List.idxOf_cons_ne l hab, ih hl hal, List.countP_cons_of_pos (by simpa using hb a hal)]

/-- The position of an element is the number of smaller elements. -/
theorem idxOf_eq_countP {s : OrdSet κ} {a : κ} (ha : a ∈ s.elems) :
    s.elems.idxOf a = s.elems.countP fun b => decide (b < a) :=
  idxOf_countP s.sorted ha

theorem idxOf_lt_idxOf {s : OrdSet κ} {a b : κ} (ha : a ∈ s.elems) (hb : b ∈ s.elems) :
    s.elems.idxOf a < s.elems.idxOf b ↔ a < b := by
  have key : ∀ {c d : κ}, c ∈ s.elems → d ∈ s.elems → c < d → s.elems.idxOf c < s.elems.idxOf d := by
    intro c d hc hd hcd
    by_contra hle
    rcases Nat.lt_or_eq_of_le (Nat.not_lt.1 hle) with h | h
    · have hi := List.idxOf_lt_length_of_mem hc
      have := List.pairwise_iff_getElem.1 s.sorted _ _ (List.idxOf_lt_length_of_mem hd) hi h
      rw [List.getElem_idxOf, List.getElem_idxOf] at this
      exact lt_asymm hcd this
    · rw [List.idxOf_inj hd] at h
      exact ne_of_gt hcd h
  refine ⟨fun h => ?_, key ha hb⟩
  rcases lt_trichotomy a b with h' | h' | h'
  · exact h'
  · subst h'
    exact absurd h (Nat.lt_irrefl _)
  · exact absurd (key hb ha h') (Nat.lt_asymm h)

end OrdSet
