/-!
# Programs that avoid an error

`Safe bad P x` says that the program `x` does not stop with the error `bad`, and that what it returns, if it
returns, has the property `P`; with other errors it may stop.  `Exactly bad C P x` says that the condition `C`
is what decides about that, and `Returns P x` lets the program stop with any error.  The rules follow the
structure of a program.
-/

namespace Safety

variable {α β ε : Type} {bad : ε} {P P' : α → Prop} {Q : β → Prop}

/-- The program does not stop with `bad`, and what it returns has the property. -/
def Safe (bad : ε) (P : α → Prop) : Except ε α → Prop
  | .ok a => P a
  | .error e => e ≠ bad

theorem Safe.ok {a : α} (h : P a) : Safe bad P (.ok a) := h

theorem Safe.error {e : ε} (h : e ≠ bad) : Safe bad P (.error e) := h

/-- Sequence. -/
theorem Safe.bind {x : Except ε α} {f : α → Except ε β} (h : Safe bad P x) (hf : ∀ a, P a → Safe bad Q (f a)) :
    Safe bad Q (x >>= f) := by
  cases x with
  | error e => exact h
  | ok a => exact hf a h

/-- What is made of the result. -/
theorem Safe.map {x : Except ε α} {g : α → β} (h : Safe bad (fun a => Q (g a)) x) :
    Safe bad Q (x >>= fun a => .ok (g a)) :=
  h.bind fun _ ha => ha

/-- Consequence. -/
theorem Safe.mono {x : Except ε α} (h : Safe bad P x) (hP : ∀ a, P a → P' a) : Safe bad P' x := by
  cases x with
  | error e => exact h
  | ok a => exact hP a h

/-- A program that is known not to stop with `bad` is safe for what its results are. -/
theorem Safe.of_ne {x : Except ε α} (h : x ≠ .error bad) : Safe bad (fun a => x = .ok a) x := by
  cases x with
  | error e => exact fun he => h (congrArg Except.error he)
  | ok a => rfl

theorem Safe.ne {x : Except ε α} (h : Safe bad P x) : x ≠ .error bad := by
  rintro rfl
  exact h rfl

theorem Safe.of_eq {x : Except ε α} (h : Safe bad P x) {a : α} (hx : x = .ok a) : P a := by
  rw [hx] at h
  exact h

/-- Under the condition the program is safe, and what it returns has the property only under the condition. -/
structure Exactly (bad : ε) (C : Prop) (P : α → Prop) (x : Except ε α) : Prop where
  safe : C → Safe bad P x
  only : ∀ a, x = .ok a → P a → C

section

variable {C : Prop}

theorem Exactly.of_safe {x : Except ε α} (h : Safe bad (fun a => P a ↔ C) x) : Exactly bad C P x where
  safe hC := h.mono fun _ ha => ha.2 hC
  only _ hx := (h.of_eq hx).1

theorem Exactly.congr {C' : Prop} {x : Except ε α} (hC : C ↔ C') (h : Exactly bad C' P x) : Exactly bad C P x where
  safe h' := h.safe (hC.1 h')
  only a hx ha := hC.2 (h.only a hx ha)

theorem Exactly.of_error (hC : ¬C) : Exactly bad C P (.error bad) where
  safe h := absurd h hC
  only := nofun

/-- A program that is safe whatever the condition, in front. -/
theorem Exactly.after {x : Except ε α} {f : α → Except ε β} (h : Safe bad P x) (hf : ∀ a, P a → Exactly bad C Q (f a)) :
    Exactly bad C Q (x >>= f) where
  safe hC := h.bind fun a ha => (hf a ha).safe hC
  only b hb hQ := by
    cases x with
    | error e => cases hb
    | ok a => exact (hf a h).only b hb hQ

/-- A program that carries the property on, behind. -/
theorem Exactly.bind {x : Except ε α} {f : α → Except ε β} (h : Exactly bad C P x)
    (hf : ∀ a, Safe bad (fun b => Q b ↔ P a) (f a)) : Exactly bad C Q (x >>= f) where
  safe hC := (h.safe hC).bind fun a ha => (hf a).mono fun _ hb => hb.2 ha
  only b hb hQ := by
    cases x with
    | error e => cases hb
    | ok a => exact h.only a rfl (((hf a).of_eq hb).1 hQ)

end

/-- What the program returns has the property. -/
def Returns (P : α → Prop) (x : Except ε α) : Prop := ∀ a, x = .ok a → P a

theorem Safe.returns {x : Except ε α} (h : Safe bad P x) : Returns P x := fun _ hx => h.of_eq hx

theorem Returns.ok {a : α} (h : P a) : Returns P (.ok a : Except ε α) := by
  intro b hb
  cases hb
  exact h

theorem Returns.error {e : ε} : Returns P (.error e) := nofun

/-- Sequence. -/
theorem Returns.bind {x : Except ε α} {f : α → Except ε β} (h : Returns P x) (hf : ∀ a, P a → Returns Q (f a)) :
    Returns Q (x >>= f) := by
  cases x with
  | error e => exact nofun
  | ok a => exact hf a (h a rfl)

/-- Consequence. -/
theorem Returns.mono {x : Except ε α} (h : Returns P x) (hP : ∀ a, P a → P' a) : Returns P' x :=
  fun a ha => hP a (h a ha)

end Safety
