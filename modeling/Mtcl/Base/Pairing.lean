import Mathlib.Logic.Function.Basic

/-!
# Pairings

A partial map in which points are paired off is `Symmetric`: when it maps `x` to `y` it maps `y` to `x`.
Pairing two points that are not in it keeps it so; forgetting one point of a pair never does, unless the point
is paired with itself.
-/

namespace Pairing

variable {α : Type} {m : α → Option α} {a b : α}

/-- The map maps `x` to `y` exactly when it maps `y` to `x`. -/
def Symmetric (m : α → Option α) : Prop := ∀ x y, m x = some y ↔ m y = some x

theorem symmetric_none : Symmetric fun _ : α => none := fun _ _ => ⟨nofun, nofun⟩

/-- What is in no pair is no partner. -/
theorem Symmetric.ne_of_none (h : Symmetric m) (ha : m a = none) (x : α) : m x ≠ some a := by
  intro hx
  rw [(h x a).1 hx] at ha
  cases ha

variable [DecidableEq α]

/-- `a` and `b` become a pair. -/
def join (m : α → Option α) (a b : α) : α → Option α := Function.update (Function.update m a (some b)) b (some a)

/-- `b` is forgotten. -/
def cut (m : α → Option α) (b : α) : α → Option α := Function.update m b none

theorem join_left (m : α → Option α) (hab : a ≠ b) : join m a b a = some b := by
  unfold join
  rw [Function.update_of_ne hab, Function.update_self]

theorem join_right (m : α → Option α) (a b : α) : join m a b b = some a := Function.update_self ..

theorem join_of_ne (m : α → Option α) {x : α} (ha : x ≠ a) (hb : x ≠ b) : join m a b x = m x := by
  unfold join
  rw [Function.update_of_ne hb, Function.update_of_ne ha]

/-- What `join` maps to what: the new pair, both ways, and the old ones. -/
theorem join_eq_some (hab : a ≠ b) {x y : α} :
    join m a b x = some y ↔ x = a ∧ y = b ∨ x = b ∧ y = a ∨ x ≠ a ∧ x ≠ b ∧ m x = some y := by
  by_cases hb : x = b
  · subst hb
    rw [join_right]
    constructor
    · intro h
      exact .inr (.inl ⟨rfl, (Option.some.inj h).symm⟩)
    · rintro (⟨rfl, -⟩ | ⟨-, rfl⟩ | ⟨-, h, -⟩)
      · exact absurd rfl hab
      · rfl
      · exact absurd rfl h
  · by_cases ha : x = a
    · subst ha
      rw [join_left m hab]
      constructor
      · intro h
        exact .inl ⟨rfl, (Option.some.inj h).symm⟩
      · rintro (⟨-, rfl⟩ | ⟨h, -⟩ | ⟨h, -⟩)
        · rfl
        · exact absurd h hb
        · exact absurd rfl h
    · rw [join_of_ne m ha hb]
      constructor
      · intro h
        exact .inr (.inr ⟨ha, hb, h⟩)
      · rintro (⟨h, -⟩ | ⟨h, -⟩ | ⟨-, -, h⟩)
        · exact absurd h ha
        · exact absurd h hb
        · exact h

/-- Pairing two points that are in no pair. -/
theorem Symmetric.join (h : Symmetric m) (hab : a ≠ b) (ha : m a = none) (hb : m b = none) :
    Symmetric (join m a b) := by
  -- one direction for all points is both
  have himp : ∀ x y, Pairing.join m a b x = some y → Pairing.join m a b y = some x := by
    intro x y hx
    rcases (join_eq_some hab).1 hx with ⟨rfl, rfl⟩ | ⟨rfl, rfl⟩ | ⟨-, -, hx⟩
    · exact join_right ..
    · exact join_left _ hab
    · have hya : y ≠ a := fun he => h.ne_of_none ha x (he ▸ hx)
      have hyb : y ≠ b := fun he => h.ne_of_none hb x (he ▸ hx)
      rw [join_of_ne _ hya hyb]
      exact (h x y).1 hx
  exact fun x y => ⟨himp x y, himp y x⟩

/-- Forgetting one point of a pair. -/
theorem not_symmetric_cut (hab : a ≠ b) (h : m a = some b) : ¬Symmetric (cut m b) := by
  intro hs
  have ha : cut m b a = some b := by
    unfold cut
    rw [Function.update_of_ne hab]
    exact h
  have hb := (hs a b).1 ha
  unfold cut at hb
  rw [Function.update_self] at hb
  cases hb

end Pairing
