import Mathlib.Algebra.Order.Ring.Nat
import Mathlib.Data.List.Perm.Basic
import Mathlib.Data.List.Nodup
import Mtcl.Base.OrdSet

/-!
# The `bimap` of the proxy

A `Bimap` keeps its keys and its values in two ordered sets and takes the key and the value at equal positions for a
pair.  What it is for is a finite one-to-one map: the pairs that were inserted and not erased since (`Op.after`).

`oneToOne_iff` compares the two in one state.  A bimap that holds the keys and the values of the pairs answers like the
map exactly when keys and values are in the same order (`Aligned`) and every position fits in an `unsigned`.
`bimap_oneToOne_iff` carries this to whole runs: the bimap is the one-to-one map throughout a run exactly when every
`insert` of the run comes with fewer than `2 ^ 32` pairs present and puts the value among the values where the key goes
among the keys.
-/

namespace Mtcl

/-- The number of values of `unsigned`. -/
abbrev unsignedRange : Nat := 2 ^ 32

/-- Class `bimap` over `std::set`. -/
structure Bimap (κ ν : Type) [LinearOrder κ] [LinearOrder ν] where
  keyTree : OrdSet κ
  valueTree : OrdSet ν

namespace Bimap

variable {κ ν : Type} [LinearOrder κ] [LinearOrder ν]

instance : EmptyCollection (Bimap κ ν) := ⟨⟨∅, ∅⟩⟩

/-- `index_of_key`; the position is cast to `unsigned`, and what is not found gets position `0`. -/
def indexOfKey (b : Bimap κ ν) (key : κ) : Nat :=
  let offset := b.keyTree.elems.idxOf key % unsignedRange
  if offset < b.keyTree.elems.length then offset else 0

/-- `index_of_value`. -/
def indexOfValue (b : Bimap κ ν) (value : ν) : Nat :=
  let offset := b.valueTree.elems.idxOf value % unsignedRange
  if offset < b.valueTree.elems.length then offset else 0

/-- `insert`; emplacing what is there already changes nothing. -/
def insert (b : Bimap κ ν) (key : κ) (value : ν) : Bimap κ ν :=
  ⟨b.keyTree.insert key, b.valueTree.insert value⟩

/-- `erase_key`; `none` where it would erase an end iterator or go past one. -/
def eraseKey (b : Bimap κ ν) (key : κ) : Option (Bimap κ ν) :=
  let offset := b.keyTree.elems.idxOf key
  if offset < b.keyTree.elems.length ∧ offset < b.valueTree.elems.length then
    some ⟨b.keyTree.eraseIdx offset, b.valueTree.eraseIdx offset⟩
  else none

/-- `erase_value`. -/
def eraseValue (b : Bimap κ ν) (value : ν) : Option (Bimap κ ν) :=
  let offset := b.valueTree.elems.idxOf value
  if offset < b.keyTree.elems.length ∧ offset < b.valueTree.elems.length then
    some ⟨b.keyTree.eraseIdx offset, b.valueTree.eraseIdx offset⟩
  else none

/-- `get_value`; `none` where it would read through an end iterator. -/
def getValue (b : Bimap κ ν) (key : κ) : Option ν := b.valueTree.elems[b.indexOfKey key]?

/-- `get_key`. -/
def getKey (b : Bimap κ ν) (value : ν) : Option κ := b.keyTree.elems[b.indexOfValue value]?

/-- The functions that change a bimap. -/
inductive Op (κ ν : Type)
  | insert (key : κ) (value : ν)
  | eraseKey (key : κ)
  | eraseValue (value : ν)
  deriving DecidableEq, Repr

/-- The bimap after one operation. -/
def step (b : Bimap κ ν) : Op κ ν → Option (Bimap κ ν)
  | .insert k v => some (b.insert k v)
  | .eraseKey k => b.eraseKey k
  | .eraseValue v => b.eraseValue v

/-! ### The one-to-one map -/

/-- The pairs inserted and not erased since, after one more operation. -/
def Op.after : Op κ ν → List (κ × ν) → List (κ × ν)
  | .insert k v, live => (k, v) :: live
  | .eraseKey k, live => live.filter fun p => decide (p.1 ≠ k)
  | .eraseValue v, live => live.filter fun p => decide (p.2 ≠ v)

/-- What is inserted is new on both sides, and what is erased is present. -/
def Op.Allowed : Op κ ν → List (κ × ν) → Prop
  | .insert k v, live => k ∉ live.map Prod.fst ∧ v ∉ live.map Prod.snd
  | .eraseKey k, live => k ∈ live.map Prod.fst
  | .eraseValue v, live => v ∈ live.map Prod.snd

/-- The value goes among the values where the key goes among the keys, and positions stay below `2 ^ 32`. -/
def Op.InOrder : Op κ ν → List (κ × ν) → Prop
  | .insert k v, live => live.length < unsignedRange ∧ ∀ p ∈ live, p.1 < k ↔ p.2 < v
  | _, _ => True

/-- Every operation of a list satisfies a condition on the pairs it meets. -/
def Along (ok : Op κ ν → List (κ × ν) → Prop) : List (Op κ ν) → List (κ × ν) → Prop
  | [], _ => True
  | o :: os, live => ok o live ∧ Along ok os (o.after live)

/-- The bimap answers like the one-to-one map. -/
def OneToOne (b : Bimap κ ν) (live : List (κ × ν)) : Prop :=
  ∀ k v, (b.getValue k = some v ∧ b.getKey v = some k) ↔ (k, v) ∈ live

/-- The bimap is the one-to-one map before and after every operation of a list. -/
def IsMap : List (Op κ ν) → Bimap κ ν → List (κ × ν) → Prop
  | [], b, live => b.OneToOne live
  | o :: os, b, live => b.OneToOne live ∧ ∃ b', b.step o = some b' ∧ IsMap os b' (o.after live)

/-! ### One state -/

/-- The two sets hold the keys and the values of the pairs. -/
private def Holds (b : Bimap κ ν) (live : List (κ × ν)) : Prop :=
  b.keyTree.elems.Perm (live.map Prod.fst) ∧ b.valueTree.elems.Perm (live.map Prod.snd)

/-- Keys and values are in the same order. -/
private def Aligned (live : List (κ × ν)) : Prop := ∀ p ∈ live, ∀ q ∈ live, p.1 < q.1 ↔ p.2 < q.2

private theorem Holds.swap {b : Bimap κ ν} {live : List (κ × ν)} (h : b.Holds live) :
    (Bimap.mk b.valueTree b.keyTree).Holds (live.map Prod.swap) := by
  refine ⟨?_, ?_⟩
  · simpa [Function.comp_def] using h.2
  · simpa [Function.comp_def] using h.1

private theorem Holds.length_keys {b : Bimap κ ν} {live : List (κ × ν)} (h : b.Holds live) :
    b.keyTree.elems.length = live.length := by
  rw [h.1.length_eq, List.length_map]

private theorem Holds.length_values {b : Bimap κ ν} {live : List (κ × ν)} (h : b.Holds live) :
    b.valueTree.elems.length = live.length := by
  rw [h.2.length_eq, List.length_map]

/-- Among pairs in the same order a key and its value are at the same position. -/
private theorem Holds.same_position {b : Bimap κ ν} {live : List (κ × ν)} (h : b.Holds live) (ha : Aligned live)
    {k : κ} {v : ν} (hkv : (k, v) ∈ live) : b.keyTree.elems.idxOf k = b.valueTree.elems.idxOf v := by
  have hk : k ∈ b.keyTree.elems := h.1.mem_iff.2 (List.mem_map_of_mem hkv)
  have hv : v ∈ b.valueTree.elems := h.2.mem_iff.2 (List.mem_map_of_mem hkv)
  rw [OrdSet.idxOf_eq_countP hk, OrdSet.idxOf_eq_countP hv, h.1.countP_eq, h.2.countP_eq, List.countP_map,
    List.countP_map]
  apply List.countP_congr
  intro p hp
  simpa using ha p hp _ hkv

private theorem Holds.getValue_of_aligned {b : Bimap κ ν} {live : List (κ × ν)} (h : b.Holds live)
    (ha : Aligned live) (hlen : live.length ≤ unsignedRange) {k : κ} {v : ν} (hkv : (k, v) ∈ live) :
    b.getValue k = some v := by
  have hk : k ∈ b.keyTree.elems := h.1.mem_iff.2 (List.mem_map_of_mem hkv)
  have hv : v ∈ b.valueTree.elems := h.2.mem_iff.2 (List.mem_map_of_mem hkv)
  have hlt := List.idxOf_lt_length_of_mem hk
  have hl := h.length_keys
  have hi : b.indexOfKey k = b.keyTree.elems.idxOf k := by
    simp only [indexOfKey]
    rw [Nat.mod_eq_of_lt (by omega), if_pos hlt]
  rw [getValue, hi, h.same_position ha hkv, List.getElem?_eq_getElem (List.idxOf_lt_length_of_mem hv),
    List.getElem_idxOf]

private theorem getKey_swap (b : Bimap κ ν) (v : ν) : b.getKey v = (Bimap.mk b.valueTree b.keyTree).getValue v := rfl

private theorem Aligned.swap {live : List (κ × ν)} (ha : Aligned live) : Aligned (live.map Prod.swap) := by
  intro p hp q hq
  obtain ⟨p', hp', rfl⟩ := List.mem_map.1 hp
  obtain ⟨q', hq', rfl⟩ := List.mem_map.1 hq
  exact (ha p' hp' q' hq').symm

private theorem Holds.oneToOne_of_aligned {b : Bimap κ ν} {live : List (κ × ν)} (h : b.Holds live)
    (ha : Aligned live) (hlen : live.length ≤ unsignedRange) : b.OneToOne live := by
  have hkey : ∀ {k v}, (k, v) ∈ live → b.getKey v = some k := by
    intro k v hkv
    rw [getKey_swap]
    exact h.swap.getValue_of_aligned ha.swap (by simpa using hlen) (List.mem_map.2 ⟨_, hkv, rfl⟩)
  intro k v
  constructor
  · rintro ⟨hv, hk⟩
    -- the value found belongs to some pair, and its key is the one found
    have hmem : v ∈ b.valueTree.elems := List.mem_of_getElem? hv
    obtain ⟨⟨k', v'⟩, hp, rfl⟩ := List.mem_map.1 (h.2.mem_iff.1 hmem)
    rw [hkey hp] at hk
    cases hk
    exact hp
  · intro hkv
    exact ⟨h.getValue_of_aligned ha hlen hkv, hkey hkv⟩

private theorem Holds.index_eq {b : Bimap κ ν} {live : List (κ × ν)} (h : b.Holds live)
    (hlen : live.length ≤ unsignedRange) {k : κ} {v : ν} (hkv : (k, v) ∈ live) (hg : b.getValue k = some v) :
    b.keyTree.elems.idxOf k = b.valueTree.elems.idxOf v := by
  have hk : k ∈ b.keyTree.elems := h.1.mem_iff.2 (List.mem_map_of_mem hkv)
  have hlt := List.idxOf_lt_length_of_mem hk
  have hl := h.length_keys
  have hi : b.indexOfKey k = b.keyTree.elems.idxOf k := by
    simp only [indexOfKey]
    rw [Nat.mod_eq_of_lt (by omega), if_pos hlt]
  rw [getValue, hi] at hg
  obtain ⟨hlt', hget⟩ := List.getElem?_eq_some_iff.1 hg
  rw [← hget, b.valueTree.nodup.idxOf_getElem]

private theorem Holds.length_of_oneToOne {b : Bimap κ ν} {live : List (κ × ν)} (h : b.Holds live)
    (h1 : b.OneToOne live) : live.length ≤ unsignedRange := by
  by_contra hlen
  have hl := h.length_keys
  -- the keys at the positions `0` and `2 ^ 32` get the same value, and the value has one key
  have hfind : ∀ i (hi : i < b.keyTree.elems.length), i % unsignedRange = 0 →
      b.getValue b.keyTree.elems[i] = b.valueTree.elems[0]? ∧
        ∃ v, b.valueTree.elems[0]? = some v ∧ b.getKey v = some b.keyTree.elems[i] := by
    intro i hi hmod
    have hg : b.getValue b.keyTree.elems[i] = b.valueTree.elems[0]? := by
      simp only [getValue, indexOfKey]
      rw [b.keyTree.nodup.idxOf_getElem, hmod, if_pos (by omega)]
    obtain ⟨⟨k, v⟩, hp, hk⟩ := List.mem_map.1 (h.1.mem_iff.1 (List.getElem_mem hi))
    obtain ⟨e1, e2⟩ := (h1 k v).2 hp
    simp only at hk
    subst hk
    exact ⟨hg, v, by rw [← hg, e1], e2⟩
  obtain ⟨-, v, hv, hk0⟩ := hfind 0 (by omega) (Nat.zero_mod _)
  obtain ⟨-, v', hv', hk1⟩ := hfind unsignedRange (by omega) (Nat.mod_self _)
  rw [hv] at hv'
  cases hv'
  rw [hk0] at hk1
  exact absurd ((b.keyTree.nodup.getElem_inj_iff).1 (Option.some.inj hk1)) (by decide)

/-- A bimap that holds the keys and the values of the pairs is the one-to-one map exactly when they are in the
same order and every position fits in an `unsigned`. -/
private theorem Holds.oneToOne_iff {b : Bimap κ ν} {live : List (κ × ν)} (h : b.Holds live) :
    b.OneToOne live ↔ Aligned live ∧ live.length ≤ unsignedRange := by
  constructor
  · intro h1
    have hlen := h.length_of_oneToOne h1
    refine ⟨fun p hp q hq => ?_, hlen⟩
    have hpos : ∀ r ∈ live, b.keyTree.elems.idxOf r.1 = b.valueTree.elems.idxOf r.2 :=
      fun r hr => h.index_eq hlen hr ((h1 r.1 r.2).2 hr).1
    have hk : ∀ r ∈ live, r.1 ∈ b.keyTree.elems := fun r hr => h.1.mem_iff.2 (List.mem_map_of_mem hr)
    have hv : ∀ r ∈ live, r.2 ∈ b.valueTree.elems := fun r hr => h.2.mem_iff.2 (List.mem_map_of_mem hr)
    rw [← OrdSet.idxOf_lt_idxOf (hk p hp) (hk q hq), hpos p hp, hpos q hq,
      OrdSet.idxOf_lt_idxOf (hv p hp) (hv q hq)]
  · rintro ⟨ha, hlen⟩
    exact h.oneToOne_of_aligned ha hlen

/-! ### Runs -/

private theorem holds_insert {b : Bimap κ ν} {live : List (κ × ν)} (h : b.Holds live) {k : κ} {v : ν}
    (hk : k ∉ live.map Prod.fst) (hv : v ∉ live.map Prod.snd) : (b.insert k v).Holds ((k, v) :: live) := by
  have key : ∀ {α : Type} [LinearOrder α] (s : OrdSet α) (a : α) (l : List α), s.elems.Perm l → a ∉ l →
      (s.insert a).elems.Perm (a :: l) := by
    intro α _ s a l hp ha
    refine (List.perm_ext_iff_of_nodup (s.insert a).nodup
      (List.nodup_cons.2 ⟨ha, hp.nodup_iff.1 s.nodup⟩)).2 fun c => ?_
    rw [OrdSet.mem_insert, List.mem_cons, hp.mem_iff]
  exact ⟨key _ _ _ h.1 hk, key _ _ _ h.2 hv⟩

/-- Inserting keeps the pairs in order exactly when the new value goes where the new key goes. -/
private theorem aligned_insert {live : List (κ × ν)} {k : κ} {v : ν} (hk : k ∉ live.map Prod.fst)
    (hv : v ∉ live.map Prod.snd) (ha : Aligned live) :
    Aligned ((k, v) :: live) ↔ ∀ p ∈ live, p.1 < k ↔ p.2 < v := by
  have hne : ∀ p ∈ live, p.1 ≠ k ∧ p.2 ≠ v := fun p hp =>
    ⟨fun e => hk (e ▸ List.mem_map_of_mem hp), fun e => hv (e ▸ List.mem_map_of_mem hp)⟩
  constructor
  · intro h p hp
    exact h p (List.mem_cons_of_mem _ hp) (k, v) (List.mem_cons_self ..)
  · intro h p hp q hq
    rcases List.mem_cons.1 hp with rfl | hp <;> rcases List.mem_cons.1 hq with rfl | hq
    · exact iff_of_false (lt_irrefl _) (lt_irrefl _)
    · obtain ⟨h1, h2⟩ := hne q hq
      have := not_congr (h q hq)
      rwa [not_lt, not_lt, le_iff_lt_or_eq, le_iff_lt_or_eq, or_iff_left (Ne.symm h1),
        or_iff_left (Ne.symm h2)] at this
    · exact h p hp
    · exact ha p hp q hq

private theorem filter_perm_eraseIdx {α : Type} [LinearOrder α] {s : OrdSet α} {β : Type} {l : List β} {f : β → α}
    (hp : s.elems.Perm (l.map f)) (q : β → Bool) {a : α} (hq : ∀ p ∈ l, q p = decide (f p ≠ a)) :
    (s.eraseIdx (s.elems.idxOf a)).elems.Perm ((l.filter q).map f) := by
  have hn : (l.map f).Nodup := hp.nodup_iff.1 s.nodup
  refine (List.perm_ext_iff_of_nodup (OrdSet.nodup _) (hn.sublist (List.filter_sublist.map f))).2 fun c => ?_
  rw [OrdSet.mem_eraseIdx_idxOf, hp.mem_iff, List.mem_map, List.mem_map]
  constructor
  · rintro ⟨hc, p, hpl, rfl⟩
    exact ⟨p, List.mem_filter.2 ⟨hpl, by simpa [hq p hpl] using hc⟩, rfl⟩
  · rintro ⟨p, hpl, rfl⟩
    obtain ⟨hpl, hpq⟩ := List.mem_filter.1 hpl
    exact ⟨by simpa [hq p hpl] using hpq, p, hpl, rfl⟩

private theorem fst_eq_iff_snd_eq {κ ν : Type} {live : List (κ × ν)} (hk : (live.map Prod.fst).Nodup)
    (hv : (live.map Prod.snd).Nodup) {k : κ} {v : ν} (hkv : (k, v) ∈ live) {p : κ × ν} (hp : p ∈ live) :
    p.1 = k ↔ p.2 = v := by
  refine ⟨fun e => ?_, fun e => ?_⟩
  · exact congrArg Prod.snd (List.inj_on_of_nodup_map hk hp hkv e)
  · exact congrArg Prod.fst (List.inj_on_of_nodup_map hv hp hkv e)

/-- While the bimap is the one-to-one map, erasing returns and removes one pair. -/
private theorem erase_holds {b : Bimap κ ν} {live : List (κ × ν)} (h : b.Holds live) (ha : Aligned live) {k : κ} {v : ν}
    (hkv : (k, v) ∈ live) :
    ∃ b', b.eraseKey k = some b' ∧ b.eraseValue v = some b' ∧ b'.Holds (live.filter fun p => decide (p.1 ≠ k)) ∧
      b'.Holds (live.filter fun p => decide (p.2 ≠ v)) := by
  have hk : k ∈ b.keyTree.elems := h.1.mem_iff.2 (List.mem_map_of_mem hkv)
  have hlt := List.idxOf_lt_length_of_mem hk
  have hpos := h.same_position ha hkv
  have hl : b.keyTree.elems.idxOf k < b.valueTree.elems.length := by
    rw [h.length_values, ← h.length_keys]
    exact hlt
  have heq := fun p (hp : p ∈ live) =>
    fst_eq_iff_snd_eq (h.1.nodup_iff.1 b.keyTree.nodup) (h.2.nodup_iff.1 b.valueTree.nodup) hkv hp
  refine ⟨⟨b.keyTree.eraseIdx (b.keyTree.elems.idxOf k), b.valueTree.eraseIdx (b.valueTree.elems.idxOf v)⟩,
    ?_, ?_, ⟨?_, ?_⟩, ⟨?_, ?_⟩⟩
  · simp only [eraseKey]
    rw [if_pos ⟨hlt, hl⟩, hpos]
  · simp only [eraseValue]
    rw [← hpos, if_pos ⟨hlt, hl⟩]
  · exact filter_perm_eraseIdx h.1 _ fun _ _ => rfl
  · exact filter_perm_eraseIdx h.2 _ fun p hp => by simp [heq p hp]
  · exact filter_perm_eraseIdx h.1 _ fun p hp => by simp [heq p hp]
  · exact filter_perm_eraseIdx h.2 _ fun _ _ => rfl

private theorem Aligned.sublist {l l' : List (κ × ν)} (hs : l'.Sublist l) (ha : Aligned l) : Aligned l' :=
  fun p hp q hq => ha p (hs.subset hp) q (hs.subset hq)

/-- The bimap holds the keys and the values of the pairs, in the same order. -/
structure Matches (b : Bimap κ ν) (live : List (κ × ν)) : Prop where
  private holds : b.Holds live
  private aligned : Aligned live
  private fits : live.length ≤ unsignedRange

section

variable {b : Bimap κ ν} {live : List (κ × ν)} {k : κ} {v : ν}

theorem matches_empty : (∅ : Bimap κ ν).Matches [] := ⟨⟨List.Perm.nil, List.Perm.nil⟩, nofun, Nat.zero_le _⟩

/-- A pair that goes to the same place on both sides. -/
theorem Matches.insert (h : b.Matches live) (hall : (Op.insert k v).Allowed live) (hin : (Op.insert k v).InOrder live) :
    (b.insert k v).Matches ((k, v) :: live) :=
  ⟨holds_insert h.holds hall.1 hall.2, (aligned_insert hall.1 hall.2 h.aligned).2 hin.2, hin.1⟩

theorem Matches.getValue (h : b.Matches live) (hkv : (k, v) ∈ live) : b.getValue k = some v :=
  ((h.holds.oneToOne_of_aligned h.aligned h.fits k v).2 hkv).1

theorem Matches.getKey (h : b.Matches live) (hkv : (k, v) ∈ live) : b.getKey v = some k :=
  ((h.holds.oneToOne_of_aligned h.aligned h.fits k v).2 hkv).2

theorem Matches.mem_keys (h : b.Matches live) : k ∈ b.keyTree.elems ↔ ∃ v, (k, v) ∈ live := by
  rw [h.holds.1.mem_iff, List.mem_map]
  constructor
  · rintro ⟨⟨k', v⟩, hp, rfl⟩
    exact ⟨v, hp⟩
  · rintro ⟨v, hp⟩
    exact ⟨_, hp, rfl⟩

theorem Matches.mem_values (h : b.Matches live) : v ∈ b.valueTree.elems ↔ ∃ k, (k, v) ∈ live := by
  rw [h.holds.2.mem_iff, List.mem_map]
  constructor
  · rintro ⟨⟨k, v'⟩, hp, rfl⟩
    exact ⟨k, hp⟩
  · rintro ⟨k, hp⟩
    exact ⟨_, hp, rfl⟩

/-- Erasing a key removes its pair. -/
theorem Matches.eraseKey (h : b.Matches live) (hkv : (k, v) ∈ live) :
    ∃ b', b.eraseKey k = some b' ∧ b'.Matches (live.filter fun p => decide (p.1 ≠ k)) := by
  obtain ⟨b', he, -, hb, -⟩ := erase_holds h.holds h.aligned hkv
  exact ⟨b', he, hb, h.aligned.sublist List.filter_sublist, le_trans (List.length_filter_le ..) h.fits⟩

end

/-- One allowed operation on a bimap that is the one-to-one map: it returns, the sets hold the right keys and
values, and the bimap still is the map exactly when the operation is in order. -/
private theorem step_holds {b : Bimap κ ν} {live : List (κ × ν)} (h : b.Holds live) (h1 : b.OneToOne live)
    {o : Op κ ν} (hall : o.Allowed live) :
    ∃ b', b.step o = some b' ∧ b'.Holds (o.after live) ∧ (b'.OneToOne (o.after live) ↔ o.InOrder live) := by
  obtain ⟨ha, hlen⟩ := h.oneToOne_iff.1 h1
  have herase : ∀ q : κ × ν → Bool, Aligned (live.filter q) ∧ (live.filter q).length ≤ unsignedRange :=
    fun q => ⟨ha.sublist List.filter_sublist, le_trans (List.length_filter_le ..) hlen⟩
  cases o with
  | insert k v =>
    obtain ⟨hk, hv⟩ := hall
    have hi := holds_insert h hk hv
    refine ⟨_, rfl, hi, ?_⟩
    rw [Op.after, hi.oneToOne_iff, aligned_insert hk hv ha, and_comm, List.length_cons, Nat.succ_le_iff]
    rfl
  | eraseKey k =>
    obtain ⟨⟨k, v⟩, hkv, rfl⟩ := List.mem_map.1 hall
    obtain ⟨b', e, -, hb, -⟩ := erase_holds h ha hkv
    exact ⟨b', e, hb, iff_of_true (hb.oneToOne_iff.2 (herase _)) trivial⟩
  | eraseValue v =>
    obtain ⟨⟨k, v⟩, hkv, rfl⟩ := List.mem_map.1 hall
    obtain ⟨b', -, e, -, hb⟩ := erase_holds h ha hkv
    exact ⟨b', e, hb, iff_of_true (hb.oneToOne_iff.2 (herase _)) trivial⟩

private theorem isMap_iff {os : List (Op κ ν)} {b : Bimap κ ν} {live : List (κ × ν)} (h : b.Holds live)
    (h1 : b.OneToOne live) (hall : Along Op.Allowed os live) : IsMap os b live ↔ Along Op.InOrder os live := by
  induction os generalizing b live with
  | nil => exact iff_of_true h1 trivial
  | cons o os ih =>
    obtain ⟨b', e, hb, hiff⟩ := step_holds h h1 hall.1
    constructor
    · rintro ⟨-, b'', e', hm⟩
      rw [e] at e'
      cases e'
      have h1' : b'.OneToOne (o.after live) := by
        cases os with
        | nil => exact hm
        | cons _ _ => exact hm.1
      exact ⟨hiff.1 h1', (ih hb h1' hall.2).1 hm⟩
    · rintro ⟨hin, hin'⟩
      exact ⟨h1, b', e, (ih hb (hiff.2 hin) hall.2).2 hin'⟩

/-- From the empty bimap, whatever is inserted and erased, the bimap is the one-to-one map of the pairs
throughout exactly when every insertion is in order. -/
theorem bimap_oneToOne_iff (os : List (Op κ ν)) (hall : Along Op.Allowed os []) :
    IsMap os (∅ : Bimap κ ν) [] ↔ Along Op.InOrder os [] :=
  isMap_iff ⟨List.Perm.nil, List.Perm.nil⟩ (fun k v => by simp [getValue, getKey, EmptyCollection.emptyCollection,
    OrdSet.empty]) hall

theorem bimap_oneToOne_iff_run :
    Along Op.Allowed [Op.insert 1 10, .insert 2 20, .eraseKey 1, .insert 3 30, .eraseValue 20] [] ∧
      IsMap [Op.insert 1 10, .insert 2 20, .eraseKey 1, .insert 3 30, .eraseValue 20] (∅ : Bimap Nat Nat) [] := by
  have hall : Along Op.Allowed [Op.insert 1 10, .insert 2 20, .eraseKey 1, .insert 3 30, .eraseValue 20]
      ([] : List (Nat × Nat)) := by
    simp [Along, Op.Allowed, Op.after]
  refine ⟨hall, (bimap_oneToOne_iff _ hall).2 ?_⟩
  simp [Along, Op.InOrder, Op.after]

/-- Two pairs that cross: each key is answered with the value of the other one. -/
theorem bimap_crossed :
    Along Op.Allowed [Op.insert 1 20, .insert 2 10] ([] : List (Nat × Nat)) ∧
      ¬ IsMap [Op.insert 1 20, .insert 2 10] (∅ : Bimap Nat Nat) [] ∧
      (((∅ : Bimap Nat Nat).insert 1 20).insert 2 10).getValue 1 = some 10 := by
  refine ⟨by simp [Along, Op.Allowed, Op.after], ?_, rfl⟩
  rintro ⟨-, b, hb, -, b', hb', h⟩
  cases hb
  cases hb'
  have : (((∅ : Bimap Nat Nat).insert 1 20).insert 2 10).getValue 1 = some 20 := ((h 1 20).2 (by simp [Op.after])).1
  exact absurd this (by decide)

end Bimap

end Mtcl
