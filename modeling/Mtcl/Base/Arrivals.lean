import Mathlib.Algebra.Order.Ring.Nat
import Mathlib.Data.List.Basic

/-!
# Byte streams that arrive in pieces

A receiver meets a stream as a list of arrivals: a piece of data (never empty), a moment in which nothing is there
(`quiet`), the end of the file, or an error.  `read` is a blocking read of at most `n` items, `poll` the one that
does not wait.  The list is the whole future of the receiving end, so quantifying over it is quantifying over every
segmentation of the stream and every point at which it may stop.

`lead s` is what arrives before the first end of file or error, `afterLead s` the rest, and `dropItems n s` what is
left when `n` items have been taken.  `Delivers s w` says that `s` brings the items of `w` in order and that nothing
goes wrong before they are all there.  An item of `w` may be marked: then it never arrives later than the item before
it.
-/

namespace Arrivals

variable {α ε : Type}

/-- What the receiver of a stream meets next. -/
inductive Arrival (α ε : Type)
  | piece (b : α) (bs : List α)
  | quiet
  | eof
  | error (e : ε)
  deriving DecidableEq, Repr

/-- The answer of one read. -/
inductive Answer (α ε : Type)
  | items (bs : List α)
  | eof
  | error (e : ε)
  deriving DecidableEq, Repr

/-- What a short read leaves of a piece stays at the front. -/
def putBack : List α → List (Arrival α ε) → List (Arrival α ε)
  | [], s => s
  | b :: bs, s => .piece b bs :: s

/-- A blocking read of at most `n` items; `none` when it waits for ever. -/
def read (n : Nat) : List (Arrival α ε) → Option (Answer α ε × List (Arrival α ε))
  | [] => none
  | .quiet :: s => read n s
  | .piece b bs :: s => some (.items ((b :: bs).take n), putBack ((b :: bs).drop n) s)
  | .eof :: s => some (.eof, .eof :: s)
  | .error e :: s => some (.error e, s)

/-- A read of at most `n` items that does not wait; `none` when nothing is there. -/
def poll (n : Nat) : List (Arrival α ε) → Option (Answer α ε) × List (Arrival α ε)
  | [] => (none, [])
  | .quiet :: s => (none, s)
  | .piece b bs :: s => (some (.items ((b :: bs).take n)), putBack ((b :: bs).drop n) s)
  | .eof :: s => (some .eof, .eof :: s)
  | .error e :: s => (some (.error e), s)

/-- The items a `poll` finds. -/
def present : List (Arrival α ε) → List α
  | .piece b bs :: _ => b :: bs
  | _ => []

/-- Something will be readable: data, the end of the file, or an error. -/
def readable : List (Arrival α ε) → Bool
  | [] => false
  | .quiet :: s => readable s
  | _ :: _ => true

/-- All the items that will ever arrive. -/
def incoming : List (Arrival α ε) → List α
  | [] => []
  | .quiet :: s => incoming s
  | .piece b bs :: s => b :: bs ++ incoming s
  | .eof :: _ => []
  | .error _ :: s => incoming s

/-- The items that arrive before the first end of file or error. -/
def lead : List (Arrival α ε) → List α
  | .quiet :: s => lead s
  | .piece b bs :: s => b :: bs ++ lead s
  | _ => []

/-- The arrivals from the first end of file or error on. -/
def afterLead : List (Arrival α ε) → List (Arrival α ε)
  | .quiet :: s => afterLead s
  | .piece _ _ :: s => afterLead s
  | s => s

/-- The arrivals that are left when `n` items of the lead have been taken. -/
def dropItems : Nat → List (Arrival α ε) → List (Arrival α ε)
  | 0, s => s
  | n + 1, .quiet :: s => dropItems (n + 1) s
  | n + 1, .piece b bs :: s =>
    if n < bs.length + 1 then putBack ((b :: bs).drop (n + 1)) s else dropItems (n - bs.length) s
  | _ + 1, s => s

/-! ### Taking items off the lead -/

@[simp] theorem lead_putBack (bs : List α) (s : List (Arrival α ε)) : lead (putBack bs s) = bs ++ lead s := by
  cases bs <;> rfl

@[simp] theorem afterLead_putBack (bs : List α) (s : List (Arrival α ε)) :
    afterLead (putBack bs s) = afterLead s := by
  cases bs <;> rfl

/-- All that arrives is the lead and what comes after it. -/
theorem incoming_eq (s : List (Arrival α ε)) : incoming s = lead s ++ incoming (afterLead s) := by
  induction s with
  | nil => rfl
  | cons a s ih => cases a <;> simp [incoming, lead, afterLead, ih]

theorem afterLead_cases (s : List (Arrival α ε)) :
    afterLead s = [] ∨ (∃ t, afterLead s = .eof :: t) ∨ ∃ e t, afterLead s = .error e :: t := by
  induction s with
  | nil => exact Or.inl rfl
  | cons a s ih => cases a <;> simp [afterLead, ih]

theorem dropItems_lead {n : Nat} {s : List (Arrival α ε)} (h : n ≤ (lead s).length) :
    lead (dropItems n s) = (lead s).drop n ∧ afterLead (dropItems n s) = afterLead s := by
  induction s generalizing n with
  | nil => cases n <;> simp_all [dropItems, lead]
  | cons a s ih =>
    cases n with
    | zero => simp [dropItems]
    | succ n =>
      cases a with
      | quiet => exact ih h
      | eof => simp [lead] at h
      | error e => simp [lead] at h
      | piece b bs =>
        simp only [lead, List.cons_append, List.length_cons, List.length_append] at h
        unfold dropItems
        split
        · simp only [lead_putBack, afterLead_putBack, lead, afterLead, List.drop_succ_cons, List.cons_append,
            and_true]
          rw [List.drop_append_of_le_length (by omega)]
        · obtain ⟨h1, h2⟩ := ih (n := n - bs.length) (by omega)
          refine ⟨?_, h2⟩
          rw [h1, lead, List.cons_append, List.drop_succ_cons, List.drop_append]
          rw [List.drop_eq_nil_of_le (show bs.length ≤ n by omega), List.nil_append]

theorem incoming_dropItems {n : Nat} {s : List (Arrival α ε)} (h : n ≤ (lead s).length) :
    incoming (dropItems n s) = (incoming s).drop n := by
  obtain ⟨h1, h2⟩ := dropItems_lead h
  rw [incoming_eq, h1, h2, incoming_eq s, List.drop_append_of_le_length h]

theorem dropItems_putBack (k : Nat) (bs : List α) (s : List (Arrival α ε)) (hk : k ≤ bs.length) :
    dropItems k (putBack bs s) = putBack (bs.drop k) s := by
  cases bs with
  | nil =>
    obtain rfl : k = 0 := by simpa using hk
    simp [dropItems]
  | cons b bs =>
    cases k with
    | zero => simp [dropItems]
    | succ k =>
      simp only [List.length_cons] at hk
      simp [putBack, dropItems, show k < bs.length + 1 by omega]

theorem dropItems_add (m n : Nat) (s : List (Arrival α ε)) (h : m + n ≤ (lead s).length) :
    dropItems (m + n) s = dropItems n (dropItems m s) := by
  induction s generalizing m n with
  | nil => cases m <;> cases n <;> simp_all [dropItems, lead]
  | cons a s ih =>
    cases m with
    | zero => simp [dropItems]
    | succ m =>
      rw [Nat.succ_add]
      cases a with
      | quiet =>
        have := ih (m + 1) n h
        rw [Nat.succ_add] at this
        exact this
      | eof => simp [lead] at h
      | error e => simp [lead] at h
      | piece b bs =>
        simp only [lead, List.cons_append, List.length_cons, List.length_append] at h
        by_cases h1 : m < bs.length + 1
        · by_cases h2 : m + n < bs.length + 1
          · simp only [dropItems, h1, h2, if_true, List.drop_succ_cons]
            rw [dropItems_putBack _ _ _ (by simp; omega), List.drop_drop]
          · simp only [dropItems, h1, h2, if_true, if_false, List.drop_succ_cons]
            rcases hd : bs.drop m with _ | ⟨c, cs⟩
            · have := List.drop_eq_nil_iff.1 hd
              rw [putBack]
              congr 1
              omega
            · have hl := congrArg List.length hd
              simp only [List.length_drop, List.length_cons] at hl
              obtain ⟨k, rfl⟩ : ∃ k, n = k + 1 := ⟨n - 1, by omega⟩
              simp only [putBack, dropItems, show ¬ k < cs.length + 1 by omega, if_false]
              congr 1
              omega
        · have h2 : ¬ m + n < bs.length + 1 := by omega
          simp only [dropItems, h1, h2, if_false]
          rw [← ih _ _ (by omega)]
          congr 1
          omega

/-- A blocking read takes a prefix of the lead, at least one item and at most `n`. -/
theorem read_lead {n : Nat} (hn : 0 < n) {s : List (Arrival α ε)} (h : lead s ≠ []) :
    ∃ k, 0 < k ∧ k ≤ n ∧ k ≤ (lead s).length ∧ read n s = some (.items ((lead s).take k), dropItems k s) := by
  induction s with
  | nil => simp [lead] at h
  | cons a s ih =>
    cases a with
    | quiet =>
      obtain ⟨k, h1, h2, h3, h4⟩ := ih h
      obtain ⟨k, rfl⟩ : ∃ j, k = j + 1 := ⟨k - 1, by omega⟩
      exact ⟨k + 1, h1, h2, h3, h4⟩
    | eof => simp [lead] at h
    | error e => simp [lead] at h
    | piece b bs =>
      have hlead : min n (bs.length + 1) ≤ (lead (.piece b bs :: s)).length := by
        rw [lead, List.length_append, List.length_cons]
        omega
      refine ⟨min n (bs.length + 1), by omega, by omega, hlead, ?_⟩
      obtain ⟨k, hk⟩ : ∃ k, min n (bs.length + 1) = k + 1 := ⟨min n (bs.length + 1) - 1, by omega⟩
      have e1 : (b :: bs).take n = (b :: bs).take (k + 1) := by
        rw [← hk]
        simp [List.take_eq_take_iff]
      have e2 : (b :: bs).drop n = (b :: bs).drop (k + 1) := by
        rw [← hk]
        by_cases hle : n ≤ bs.length + 1
        · rw [Nat.min_eq_left hle]
        · rw [List.drop_eq_nil_of_le (by simp; omega), List.drop_eq_nil_of_le (by simp; omega)]
      rw [hk, read, lead, dropItems, if_pos (by omega), e1, e2, List.take_append_of_le_length (by simp; omega)]

/-- With an empty lead a blocking read meets what comes after it. -/
theorem read_afterLead (n : Nat) {s : List (Arrival α ε)} (h : lead s = []) : read n s = read n (afterLead s) := by
  induction s with
  | nil => rfl
  | cons a s ih =>
    cases a with
    | quiet => exact ih h
    | eof => rfl
    | error e => rfl
    | piece b bs => simp [lead] at h

/-- What a `poll` finds is the front of the lead. -/
theorem present_prefix (s : List (Arrival α ε)) : present s <+: lead s := by
  rcases s with _ | ⟨a, s⟩
  · exact List.prefix_rfl
  · cases a <;> simp [present, lead]

theorem poll_present {n : Nat} {s : List (Arrival α ε)} (hn : 0 < n) (h : present s ≠ []) :
    poll n s = (some (.items ((present s).take n)), dropItems (min n (present s).length) s) := by
  rcases s with _ | ⟨a, s⟩
  · exact absurd rfl h
  · cases a with
    | quiet => exact absurd rfl h
    | eof => exact absurd rfl h
    | error e => exact absurd rfl h
    | piece b bs =>
      obtain ⟨k, hk⟩ : ∃ k, min n (bs.length + 1) = k + 1 := ⟨min n (bs.length + 1) - 1, by omega⟩
      have e2 : (b :: bs).drop n = (b :: bs).drop (k + 1) := by
        rw [← hk]
        by_cases hle : n ≤ bs.length + 1
        · rw [Nat.min_eq_left hle]
        · rw [List.drop_eq_nil_of_le (by simp; omega), List.drop_eq_nil_of_le (by simp; omega)]
      simp only [poll, present, List.length_cons, hk, dropItems, show k < bs.length + 1 by omega, if_true, e2]

/-- A `poll` that finds nothing takes nothing. -/
theorem poll_absent {n : Nat} {s : List (Arrival α ε)} (h : present s = []) :
    incoming (poll n s).2 = incoming s ∧ ∀ bs, (poll n s).1 ≠ some (.items bs) := by
  rcases s with _ | ⟨a, s⟩
  · exact ⟨rfl, by simp [poll]⟩
  · cases a <;> simp_all [poll, present, incoming]

/-! ### Streams that deliver -/

/-- The first item is marked as arriving together with the one before it. -/
def Held (w : List (α × Bool)) : Prop := (w.head?.map Prod.snd) = some true

instance (w : List (α × Bool)) : Decidable (Held w) := inferInstanceAs (Decidable (_ = _))

/-- `s` brings the items of `w` in order, a marked item with the one before it, and nothing goes wrong before they are
all there. -/
def Delivers : List (Arrival α ε) → List (α × Bool) → Prop
  | [], w => w = []
  | .quiet :: s, w => Delivers s w
  | .piece b bs :: s, w =>
    w = [] ∨ ((b :: bs) <+: w.map Prod.fst ∧ ¬ Held (w.drop (bs.length + 1)) ∧ Delivers s (w.drop (bs.length + 1)))
  | _ :: _, w => w = []

/-- The items of a stream none of which is marked. -/
def loose (bs : List α) : List (α × Bool) := bs.map fun b => (b, false)

@[simp] theorem map_fst_loose (bs : List α) : (loose bs).map Prod.fst = bs := by
  simp [loose, Function.comp_def]

@[simp] theorem length_loose (bs : List α) : (loose bs).length = bs.length := by simp [loose]

theorem loose_append (xs ys : List α) : loose (xs ++ ys) = loose xs ++ loose ys := by simp [loose]

/-- The items of a block that arrives as a whole: the first is not marked, the others are. -/
def glued : List α → List (α × Bool)
  | [] => []
  | b :: bs => (b, false) :: bs.map fun b => (b, true)

@[simp] theorem map_fst_glued (bs : List α) : (glued bs).map Prod.fst = bs := by
  cases bs <;> simp [glued, Function.comp_def]

theorem not_held_loose (bs : List α) : ¬ Held (loose bs) := by
  cases bs <;> simp [Held, loose]

/-- Every stream delivers its lead, without marks. -/
theorem delivers_lead (s : List (Arrival α ε)) : Delivers s (loose (lead s)) := by
  induction s with
  | nil => rfl
  | cons a s ih =>
    cases a with
    | quiet => exact ih
    | piece b bs =>
      right
      have hdrop : (loose (b :: bs ++ lead s)).drop (bs.length + 1) = loose (lead s) := by
        rw [loose_append, List.drop_left' (by simp)]
      rw [lead, hdrop, map_fst_loose]
      exact ⟨List.prefix_append _ _, not_held_loose _, ih⟩
    | eof => rfl
    | error e => rfl

/-- A stream that still delivers something is going to be readable. -/
theorem Delivers.readable {s : List (Arrival α ε)} {w : List (α × Bool)} (h : Delivers s w) (hw : w ≠ []) :
    readable s = true := by
  induction s with
  | nil => exact absurd h hw
  | cons a s ih =>
    cases a with
    | quiet => exact ih h
    | piece b bs => rfl
    | eof => rfl
    | error e => rfl

/-- Taking `n` items of a stream that delivers: they are all in the lead. -/
theorem Delivers.take {s : List (Arrival α ε)} {w : List (α × Bool)} (h : Delivers s w) {n : Nat} (hn : n ≤ w.length) :
    n ≤ (lead s).length ∧ (lead s).take n = (w.map Prod.fst).take n ∧ Delivers (dropItems n s) (w.drop n) := by
  induction s generalizing w n with
  | nil =>
    cases n with
    | zero => exact ⟨Nat.zero_le _, by simp, h⟩
    | succ n =>
      rw [show w = [] from h] at hn
      simp at hn
  | cons a s ih =>
    cases n with
    | zero => exact ⟨Nat.zero_le _, by simp, h⟩
    | succ n =>
      have hw : w ≠ [] := by
        rintro rfl
        simp at hn
      cases a with
      | quiet => exact ih h hn
      | eof => exact absurd h hw
      | error e => exact absurd h hw
      | piece b bs =>
        obtain ⟨hp, hheld, hd⟩ := Or.resolve_left h hw
        have hlen : bs.length + 1 ≤ w.length := by simpa using hp.length_le
        have hpre : (w.map Prod.fst).take (bs.length + 1) = b :: bs := (List.prefix_iff_eq_take.1 hp).symm
        by_cases hle : n < bs.length + 1
        · refine ⟨by simp [lead]; omega, ?_, ?_⟩
          · rw [lead, List.take_append_of_le_length (by simp; omega), ← hpre, List.take_take,
              Nat.min_eq_left (by omega)]
          · rw [dropItems, if_pos hle]
            rcases hrest : (b :: bs).drop (n + 1) with _ | ⟨c, cs⟩
            · have hge := List.drop_eq_nil_iff.1 hrest
              have : n + 1 = bs.length + 1 := by simp at hge; omega
              rw [putBack, this]
              exact hd
            · have hl := congrArg List.length hrest
              simp only [List.length_drop, List.length_cons] at hl
              right
              refine ⟨?_, ?_, ?_⟩
              · rw [← hrest, ← hpre, List.drop_take, ← List.map_drop]
                exact List.take_prefix _ _
              · rw [List.drop_drop, show n + 1 + (cs.length + 1) = bs.length + 1 by omega]
                exact hheld
              · rw [List.drop_drop, show n + 1 + (cs.length + 1) = bs.length + 1 by omega]
                exact hd
        · have hdl : n - bs.length ≤ (w.drop (bs.length + 1)).length := by simp; omega
          have hsplit : (w.map Prod.fst).take (n + 1) =
              b :: bs ++ ((w.drop (bs.length + 1)).map Prod.fst).take (n - bs.length) := by
            rw [← hpre, List.map_drop, ← List.take_add]
            congr 1
            omega
          obtain ⟨h1, h2, h3⟩ := ih hd hdl
          refine ⟨by simp [lead]; omega, ?_, ?_⟩
          · rw [hsplit, ← h2, lead, List.take_append, List.take_of_length_le (by simp; omega)]
            congr 2
            simp
          · rw [dropItems, if_neg hle]
            rw [List.drop_drop, show bs.length + 1 + (n - bs.length) = n + 1 by omega] at h3
            exact h3

private theorem Delivers.poll_block {s : List (Arrival α ε)} {x : α × Bool} {xs w : List (α × Bool)}
    (h : Delivers s (x :: xs ++ w)) (hx : ∀ y ∈ xs, y.2 = true) :
    (∃ s', s = .quiet :: s' ∧ Delivers s' (x :: xs ++ w)) ∨
      (poll (xs.length + 1) s = (some (.items ((x :: xs).map Prod.fst)), dropItems (xs.length + 1) s) ∧
        Delivers (dropItems (xs.length + 1) s) w) := by
  rcases s with _ | ⟨a, s⟩
  · cases h
  · cases a with
    | quiet => exact Or.inl ⟨s, rfl, h⟩
    | eof => cases h
    | error e => cases h
    | piece b bs =>
      right
      obtain ⟨hp, hheld, hd⟩ := Or.resolve_left h (by simp)
      -- the piece does not stop inside the block
      have hlen : xs.length ≤ bs.length := by
        by_contra hlt
        apply hheld
        rw [List.cons_append, List.drop_succ_cons, List.drop_append_of_le_length (by omega)]
        have : bs.length < xs.length := by omega
        rw [List.drop_eq_getElem_cons this, Held, List.cons_append, List.head?_cons, Option.map_some,
          hx _ (List.getElem_mem this)]
      have hpre : (b :: bs).take (xs.length + 1) = (x :: xs).map Prod.fst := by
        have e : (x :: xs).map Prod.fst <+: (x :: xs ++ w).map Prod.fst := by
          rw [List.map_append]
          exact List.prefix_append _ _
        have := List.prefix_of_prefix_length_le e hp (by simp; omega)
        have := List.prefix_iff_eq_take.1 this
        simpa using this.symm
      obtain ⟨-, -, htake⟩ := Delivers.take (s := .piece b bs :: s) h (n := xs.length + 1) (by simp)
      have e : (x :: xs ++ w).drop (xs.length + 1) = w := by simp
      rw [e] at htake
      refine ⟨?_, htake⟩
      simp only [Arrivals.poll, hpre, dropItems, show xs.length < bs.length + 1 by omega, if_true]

/-- A `poll` for a block that arrives as a whole finds all of it or nothing. -/
theorem Delivers.poll {s : List (Arrival α ε)} {bs : List α} {w : List (α × Bool)} (hbs : bs ≠ [])
    (h : Delivers s (glued bs ++ w)) :
    (∃ s', s = .quiet :: s' ∧ Delivers s' (glued bs ++ w)) ∨
      (poll bs.length s = (some (.items bs), dropItems bs.length s) ∧ Delivers (dropItems bs.length s) w) := by
  obtain ⟨b, bs, rfl⟩ := List.exists_cons_of_ne_nil hbs
  have hmarks : ∀ y ∈ bs.map fun b => (b, true), y.2 = true := by
    intro y hy
    obtain ⟨b, -, rfl⟩ := List.mem_map.1 hy
    rfl
  have hblock := Delivers.poll_block h hmarks
  rw [List.length_map] at hblock
  have hfst : (((b, false) :: bs.map fun b => (b, true)).map Prod.fst) = b :: bs := map_fst_glued (b :: bs)
  rw [hfst] at hblock
  exact hblock

/-- Taking items leaves no more arrivals than there were. -/
theorem length_dropItems_le (n : Nat) (s : List (Arrival α ε)) : (dropItems n s).length ≤ s.length := by
  induction s generalizing n with
  | nil => cases n <;> exact Nat.le_refl _
  | cons a s ih =>
    cases n with
    | zero => exact Nat.le_refl _
    | succ n =>
      cases a with
      | quiet => exact Nat.le_succ_of_le (ih _)
      | eof => exact Nat.le_refl _
      | error e => exact Nat.le_refl _
      | piece b bs =>
        unfold dropItems
        split
        · rcases (b :: bs).drop (n + 1) with _ | ⟨c, cs⟩
          · exact Nat.le_succ _
          · exact Nat.le_refl _
        · exact Nat.le_succ_of_le (ih _)

end Arrivals
