import Mathlib.Logic.Function.Basic

/-!
# Names of objects

A directory of names, each of which refers to an object or to nothing.  An object is made together with a name
for it, and lives on when the name is taken away; the name can then be given to another object.  Objects are
numbered in the order in which they are made, so a new one is none of those that anything refers to (`Sound`).
-/

variable {N : Type}

/-- What each name refers to, and how many objects have been made. -/
structure Names (N : Type) where
  object : N → Option Nat := fun _ => none
  made : Nat := 0

namespace Names

/-- The names refer to objects that have been made, and no two of them to the same one. -/
structure Sound (ns : Names N) : Prop where
  lt : ∀ {n o}, ns.object n = some o → o < ns.made
  injective : ∀ {n n' o}, ns.object n = some o → ns.object n' = some o → n = n'

variable [DecidableEq N]

/-- A new object under a name. -/
def create (ns : Names N) (n : N) : Names N where
  object := Function.update ns.object n (some ns.made)
  made := ns.made + 1

/-- The name is taken away. -/
def unlink (ns : Names N) (n : N) : Names N := { ns with object := Function.update ns.object n none }

@[simp] theorem create_self (ns : Names N) (n : N) : (ns.create n).object n = some ns.made := Function.update_self ..

@[simp] theorem unlink_self (ns : Names N) (n : N) : (ns.unlink n).object n = none := Function.update_self ..

@[simp] theorem made_create (ns : Names N) (n : N) : (ns.create n).made = ns.made + 1 := rfl

@[simp] theorem made_unlink (ns : Names N) (n : N) : (ns.unlink n).made = ns.made := rfl

theorem create_of_ne (ns : Names N) {n n' : N} (h : n' ≠ n) : (ns.create n).object n' = ns.object n' :=
  Function.update_of_ne h ..

theorem unlink_of_ne (ns : Names N) {n n' : N} (h : n' ≠ n) : (ns.unlink n).object n' = ns.object n' :=
  Function.update_of_ne h ..

/-- What a name refers to is not affected by a new name, which has referred to nothing. -/
theorem create_keeps {ns : Names N} {n n' : N} {o : Nat} (hn : ns.object n = none) (h : ns.object n' = some o) :
    (ns.create n).object n' = some o := by
  rw [create_of_ne, h]
  rintro rfl
  rw [hn] at h
  cases h

theorem Sound.create {ns : Names N} (hs : ns.Sound) (n : N) : (ns.create n).Sound where
  lt := by
    intro n' o h
    by_cases hn : n' = n
    · subst hn
      rw [create_self] at h
      cases h
      exact Nat.lt_succ_self _
    · rw [create_of_ne _ hn] at h
      exact Nat.lt_succ_of_lt (hs.lt h)
  injective := by
    have hold : ∀ {n' o}, n' ≠ n → (ns.create n).object n' = some o → ns.object n' = some o ∧ o ≠ ns.made := by
      intro n' o hn h
      rw [create_of_ne _ hn] at h
      exact ⟨h, Nat.ne_of_lt (hs.lt h)⟩
    intro n1 n2 o h1 h2
    by_cases hn1 : n1 = n <;> by_cases hn2 : n2 = n
    · rw [hn1, hn2]
    · rw [hn1, create_self] at h1
      exact absurd (Option.some.inj h1).symm (hold hn2 h2).2
    · rw [hn2, create_self] at h2
      exact absurd (Option.some.inj h2).symm (hold hn1 h1).2
    · exact hs.injective (hold hn1 h1).1 (hold hn2 h2).1

theorem Sound.unlink {ns : Names N} (hs : ns.Sound) (n : N) : (ns.unlink n).Sound := by
  have hold : ∀ {n' o}, (ns.unlink n).object n' = some o → ns.object n' = some o := by
    intro n' o h
    by_cases hn : n' = n
    · subst hn
      rw [unlink_self] at h
      cases h
    · rwa [unlink_of_ne _ hn] at h
  exact ⟨fun h => hs.lt (hold h), fun h h' => hs.injective (hold h) (hold h')⟩

end Names
