import Mathlib.Algebra.Order.Ring.Nat
import Mathlib.Data.List.Basic

/-!
# Finite maps ordered by their keys

An `OrdMap κ α` is a list of key-value pairs with strictly increasing keys, the ordering being part of the value.  The
operations are those of an ordered associative container: `find?`, `insert` (which overwrites) and `erase`, and a walk
over the entries meets the keys in increasing order.
-/

/-- A finite map, as its entries in increasing order of the keys. -/
structure OrdMap (κ α : Type) [LinearOrder κ] where
  entries : List (κ × α)
  sorted : entries.Pairwise fun a b => a.1 < b.1

namespace OrdMap

variable {κ α : Type} [LinearOrder κ]

/-- The map without entries. -/
def empty : OrdMap κ α := ⟨[], List.Pairwise.nil⟩

instance : EmptyCollection (OrdMap κ α) := ⟨empty⟩

/-- The value at the first entry with the key. -/
def lookup (k : κ) : List (κ × α) → Option α
  | [] => none
  | e :: l => if e.1 = k then some e.2 else lookup k l

/-- The entries with the value at `k` set. -/
def insertEntry (k : κ) (a : α) : List (κ × α) → List (κ × α)
  | [] => [(k, a)]
  | e :: l => if k < e.1 then (k, a) :: e :: l else if k = e.1 then (k, a) :: l else e :: insertEntry k a l

private theorem mem_insertEntry {k : κ} {a : α} {l : List (κ × α)} {e : κ × α} (h : e ∈ insertEntry k a l) :
    e = (k, a) ∨ e ∈ l := by
  induction l with
  | nil => simpa [insertEntry] using h
  | cons e' l ih =>
    unfold insertEntry at h
    split at h
    · simpa using h
    · split at h
      · rcases List.mem_cons.1 h with h | h
        · exact Or.inl h
        · exact Or.inr (List.mem_cons_of_mem _ h)
      · rcases List.mem_cons.1 h with h | h
        · exact Or.inr (by simp [h])
        · exact (ih h).imp_right (List.mem_cons_of_mem _)

private theorem insertEntry_sorted {k : κ} {a : α} {l : List (κ × α)} (h : l.Pairwise fun a b => a.1 < b.1) :
    (insertEntry k a l).Pairwise fun a b => a.1 < b.1 := by
  induction l with
  | nil => simp [insertEntry]
  | cons e l ih =>
    obtain ⟨he, hl⟩ := List.pairwise_cons.1 h
    unfold insertEntry
    split
    · rename_i hlt
      refine List.pairwise_cons.2 ⟨fun e' he' => ?_, h⟩
      rcases List.mem_cons.1 he' with rfl | he'
      · exact hlt
      · exact lt_trans hlt (he e' he')
    · split
      · rename_i heq
        subst heq
        exact List.pairwise_cons.2 ⟨he, hl⟩
      · rename_i hlt hne
        refine List.pairwise_cons.2 ⟨fun e' he' => ?_, ih hl⟩
        rcases mem_insertEntry he' with rfl | he'
        · exact lt_of_le_of_ne (not_lt.1 hlt) (Ne.symm hne)
        · exact he e' he'

/-- The value at a key. -/
def find? (m : OrdMap κ α) (k : κ) : Option α := lookup k m.entries

/-- Set the value at a key. -/
def insert (m : OrdMap κ α) (k : κ) (a : α) : OrdMap κ α := ⟨insertEntry k a m.entries, insertEntry_sorted m.sorted⟩

/-- Remove a key. -/
def erase (m : OrdMap κ α) (k : κ) : OrdMap κ α :=
  ⟨m.entries.filter fun e => decide (e.1 ≠ k), m.sorted.sublist List.filter_sublist⟩

@[simp] theorem find?_empty (k : κ) : (∅ : OrdMap κ α).find? k = none := rfl

private theorem lookup_eq_some {k : κ} {a : α} {l : List (κ × α)} (h : l.Pairwise fun a b => a.1 < b.1) :
    lookup k l = some a ↔ (k, a) ∈ l := by
  induction l with
  | nil => simp [lookup]
  | cons e l ih =>
    obtain ⟨he, hl⟩ := List.pairwise_cons.1 h
    unfold lookup
    split
    · rename_i hk
      subst hk
      constructor
      · intro h'
        cases h'
        simp
      · intro h'
        rcases List.mem_cons.1 h' with h' | h'
        · exact congrArg some (congrArg Prod.snd h').symm
        · exact absurd (he _ h') (lt_irrefl _)
    · rename_i hk
      rw [ih hl, List.mem_cons]
      constructor
      · exact Or.inr
      · rintro (h' | h')
        · exact absurd (congrArg Prod.fst h').symm hk
        · exact h'

/-- The entries are the pairs that `find?` finds. -/
theorem mem_entries {m : OrdMap κ α} {k : κ} {a : α} : (k, a) ∈ m.entries ↔ m.find? k = some a :=
  (lookup_eq_some m.sorted).symm

theorem entries_nodup (m : OrdMap κ α) : m.entries.Nodup := by
  refine m.sorted.imp ?_
  rintro a b hlt rfl
  exact lt_irrefl _ hlt

private theorem lookup_insertEntry (l : List (κ × α)) (k : κ) (a : α) (k' : κ) :
    lookup k' (insertEntry k a l) = if k' = k then some a else lookup k' l := by
  induction l with
  | nil => by_cases h : k' = k <;> simp [insertEntry, lookup, h, Ne.symm]
  | cons e l ih =>
    simp only [insertEntry]
    split
    · by_cases h : k' = k
      · simp [lookup, h]
      · simp [lookup, h, Ne.symm h]
    · split
      · rename_i heq
        by_cases h : k' = k
        · simp [lookup, h]
        · simp [lookup, h, Ne.symm h, ← heq]
      · rename_i hne
        by_cases h : e.1 = k'
        · subst h
          simp [lookup, Ne.symm hne]
        · simpa [lookup, h] using ih

theorem find?_insert (m : OrdMap κ α) (k : κ) (a : α) (k' : κ) :
    (m.insert k a).find? k' = if k' = k then some a else m.find? k' :=
  lookup_insertEntry m.entries k a k'

private theorem lookup_filter (l : List (κ × α)) (k k' : κ) :
    lookup k' (l.filter fun e => decide (e.1 ≠ k)) = if k' = k then none else lookup k' l := by
  induction l with
  | nil => simp [lookup]
  | cons e l ih =>
    by_cases hk : e.1 = k
    · by_cases h : k' = k
      · simpa [hk, h] using ih
      · simpa [hk, h, lookup, Ne.symm h] using ih
    · by_cases h : e.1 = k'
      · subst h
        simp [hk, lookup]
      · simpa [hk, h, lookup] using ih

theorem find?_erase (m : OrdMap κ α) (k k' : κ) : (m.erase k).find? k' = if k' = k then none else m.find? k' :=
  lookup_filter m.entries k k'

@[simp] theorem find?_insert_self (m : OrdMap κ α) (k : κ) (a : α) : (m.insert k a).find? k = some a := by
  simp [find?_insert]

@[simp] theorem find?_erase_self (m : OrdMap κ α) (k : κ) : (m.erase k).find? k = none := by
  simp [find?_erase]

end OrdMap
