import Mathlib.Logic.Function.Basic
import Mtcl.Base.Runs
import Mtcl.Handle

/-!
# Reference counts

Class `Handle` counts the `HandleUser` objects that refer to it, and deletes itself when the count is zero and
both sides are closed.  It is modelled over the functions of an arbitrary transport (`Transport`), with the
objects that have been deleted marked; a program is a sequence of operations on `HandleUser` objects (`Users`).

`counter_exact` says that the count is right in every state of every run without a move assignment onto an
object that refers to a handle, and that such an assignment always makes it wrong.
-/

namespace Mtcl

/-- What a transport adds to class `Handle`, on the state `T` of its connector and of its parts of the handles. -/
structure Transport (T : Type) where
  probe : Nat → Nat → Bool → T → Except Stop (Ret × Nat × T)
  receive : Nat → Nat → T → Except Stop (Ret × Bytes × T)
  send : Nat → Bytes → T → Except Stop (Ret × T)
  sendEOS : Nat → T → Except Stop T
  notifyClose : Nat → Bool → Bool → T → Except Stop T
  notifyYield : Nat → T → Except Stop T

/-- The `Handle` objects of a process, named by numbers in the order in which they are made. -/
structure Objects (T : Type) where
  base : Nat → CommBase := fun _ => {}
  deleted : Nat → Bool := fun _ => false
  allocated : Nat := 0
  transport : T

variable {T : Type}

/-! ### Class `Handle` -/

namespace Objects

/-- The object a pointer refers to. -/
def deref (o : Objects T) (id : Nat) : Except Stop CommBase :=
  if o.allocated ≤ id ∨ o.deleted id = true then .error .useAfterFree else .ok (o.base id)

def put (o : Objects T) (id : Nat) (b : CommBase) : Objects T := { o with base := Function.update o.base id b }

/-- The constructor of a handle. -/
def create (o : Objects T) : Objects T :=
  { o.put o.allocated {} with deleted := Function.update o.deleted o.allocated false, allocated := o.allocated + 1 }

/-- `delete this`, when nothing refers to the handle and both its sides are closed. -/
def deleteUnused (o : Objects T) (id : Nat) : Objects T :=
  if (o.base id).counter = 0 ∧ (o.base id).closedWr = true ∧ (o.base id).closedRd = true then
    { o with deleted := Function.update o.deleted id true }
  else o

/-- The first half of `Handle::close`: EOS is sent when the write side is closed. -/
def closeWrite (tr : Transport T) (o : Objects T) (id : Nat) : Except Stop (Objects T) :=
  if (o.base id).closedWr then .ok o
  else do
    let t ← tr.sendEOS id o.transport
    return { o.put id { o.base id with closedWr := true } with transport := t }

/-- `Handle::close`. -/
def close (tr : Transport T) (o : Objects T) (id : Nat) (closeWr closeRd : Bool) : Except Stop (Objects T) := do
  let _ ← o.deref id
  let o ← (if closeWr then o.closeWrite tr id else .ok o)
  let o := if closeRd then o.put id { o.base id with closedRd := true } else o
  let t ← tr.notifyClose id (o.base id).closedWr (o.base id).closedRd o.transport
  return ({ o with transport := t } : Objects T).deleteUnused id

/-- `Handle::yield`. -/
def yield (tr : Transport T) (o : Objects T) (id : Nat) : Except Stop (Objects T) := do
  let b ← o.deref id
  if b.closedRd then return o
  else
    let t ← tr.notifyYield id o.transport
    return { o with transport := t }

/-- `Handle::incrementReferenceCounter`. -/
def increment (o : Objects T) (id : Nat) : Except Stop (Objects T) := do
  let b ← o.deref id
  return o.put id { b with counter := b.counter + 1 }

/-- `Handle::decrementReferenceCounter`. -/
def decrement (o : Objects T) (id : Nat) : Except Stop (Objects T) := do
  let b ← o.deref id
  return (o.put id { b with counter := b.counter - 1 }).deleteUnused id

end Objects

/-- The virtual functions of the handle `id`. -/
def handle (tr : Transport T) (id : Nat) : CommunicationHandle (Objects T) where
  base o := o.deref id
  setProbed pr o := o.put id { o.base id with probed := pr }
  probe size blocking o := do
    let _ ← o.deref id
    let (r, size, t) ← tr.probe id size blocking o.transport
    return (r, size, { o with transport := t })
  receive n o := do
    let _ ← o.deref id
    let (r, bs, t) ← tr.receive id n o.transport
    return (r, bs, { o with transport := t })
  send bs o := do
    let _ ← o.deref id
    let (r, t) ← tr.send id bs o.transport
    return (r, { o with transport := t })
  close wr rd o := o.close tr id wr rd
  yield o := o.yield tr id
  incrementReferenceCounter o := o.increment id
  decrementReferenceCounter o := o.decrement id

/-! ### Programs -/

/-- A program: the handles, the ready queue of the manager, and the `HandleUser` objects in the order in which they were
constructed (`none` when one has been destroyed). -/
structure Users (T : Type) where
  objects : Objects T
  handleReady : List (HandleUser Nat) := []
  vars : List (Option (HandleUser Nat)) := []

namespace Users

/-- What can happen to the handles and the `HandleUser` objects.  `transport` is whatever a connector does to
its own state, and `handleClose` and `handleYield` are the functions of `Handle` called directly. -/
inductive Op (T : Type)
  | create
  | transport (t : T)
  | construct (id : Option Nat) (r n : Bool)
  | addinQ (b : Bool) (id : Nat)
  | getNext
  | moveConstruct (y : Nat)
  | moveAssign (x y : Nat)
  | probe (x size : Nat) (blocking : Bool)
  | receive (x size : Nat)
  | send (x : Nat) (bs : Bytes)
  | yield (x : Nat)
  | close (x : Nat)
  | destroy (x : Nat)
  | handleClose (id : Nat) (closeWr closeRd : Bool)
  | handleYield (id : Nat)

/-- The object `x`, while it exists. -/
def object (s : Users T) (x : Nat) : Except Stop (HandleUser Nat) :=
  match s.vars[x]? with
  | some (some u) => .ok u
  | _ => .error .undefined

/-- The program with another object `x` and other handles. -/
def assign (s : Users T) (x : Nat) (u : Option (HandleUser Nat)) (o : Objects T) : Users T :=
  { s with objects := o, vars := s.vars.set x u }

/-- One operation; what it returns to the program is left out. -/
def step (tr : Transport T) (s : Users T) : Op T → Except Stop (Users T)
  | .create => .ok { s with objects := s.objects.create }
  | .transport t => .ok { s with objects := { s.objects with transport := t } }
  | .construct id r n => do
    let (u, o) ← HandleUser.mk' (handle tr) id r n s.objects
    return { s with objects := o, vars := s.vars ++ [some u] }
  | .addinQ b id => do
    let (u, o) ← HandleUser.mk' (handle tr) (some id) true b s.objects
    return { s with objects := o, handleReady := s.handleReady ++ [u] }
  | .getNext =>
    match s.handleReady with
    | [] => .ok { s with vars := s.vars ++ [some ⟨none, true, true⟩] }
    | u :: us => .ok { s with handleReady := us, vars := s.vars ++ [some u] }
  | .moveConstruct y => do
    let u ← s.object y
    return { s with vars := s.vars.set y (some ⟨none, false, false⟩) ++ [some u] }
  | .moveAssign x y => do
    let u ← s.object x
    let v ← s.object y
    let (target, source) := u.moveAssign v
    return if x = y then s else { s with vars := (s.vars.set y (some source)).set x (some target) }
  | .probe x size blocking => do
    let u ← s.object x
    let (_, _, u, o) ← u.probe (handle tr) size blocking s.objects
    return s.assign x (some u) o
  | .receive x size => do
    let u ← s.object x
    let (_, _, u, o) ← u.receive (handle tr) size s.objects
    return s.assign x (some u) o
  | .send x bs => do
    let u ← s.object x
    let (_, u, o) ← u.send (handle tr) bs s.objects
    return s.assign x (some u) o
  | .yield x => do
    let u ← s.object x
    let (u, o) ← u.yield (handle tr) s.objects
    return s.assign x (some u) o
  | .close x => do
    let u ← s.object x
    let o ← u.close (handle tr) s.objects
    return { s with objects := o }
  | .destroy x => do
    let u ← s.object x
    let o ← u.destroy (handle tr) s.objects
    return s.assign x none o
  | .handleClose id wr rd => do
    let o ← (handle tr id).close wr rd s.objects
    return { s with objects := o }
  | .handleYield id => do
    let o ← (handle tr id).yield s.objects
    return { s with objects := o }

/-- There are no handles and no objects yet. -/
def Init (s : Users T) : Prop := ∃ t, s = { objects := { transport := t } }

/-- The object refers to the handle `id`. -/
def refers (id : Nat) (u : Option (HandleUser Nat)) : Bool := u.bind (·.realHandle) == some id

/-- The number of `HandleUser` objects that refer to the handle `id`. -/
def owners (s : Users T) (id : Nat) : Nat :=
  s.vars.countP (refers id) + (s.handleReady.map some).countP (refers id)

/-- A move assignment onto an object that refers to a handle. -/
def Overwrites (s : Users T) : Op T → Prop
  | .moveAssign x y => x ≠ y ∧ ∃ u, s.object x = .ok u ∧ u.realHandle ≠ none
  | _ => False

/-- The states of every run without a move assignment onto an object that refers to a handle. -/
def Reachable (tr : Transport T) : Users T → Prop :=
  Runs.Reach Init fun o s s' => ¬ s.Overwrites o ∧ s.step tr o = .ok s'

/-- The counter of each handle that exists is the number of its owners. -/
def Exact (s : Users T) : Prop :=
  ∀ id < s.objects.allocated, s.objects.deleted id = false → (s.objects.base id).counter = s.owners id

end Users

/-! ### What leaves the counters alone -/

namespace Objects

variable {tr : Transport T} {o o' o'' : Objects T} {id : Nat}

/-- No counter changes, and only a handle that nobody owns is deleted. -/
structure Calm (o o' : Objects T) : Prop where
  allocated : o'.allocated = o.allocated
  counter : ∀ i, (o'.base i).counter = (o.base i).counter
  deleted : ∀ i, o.deleted i = true → o'.deleted i = true
  unowned : ∀ i, o'.deleted i = true → o.deleted i = true ∨ (o.base i).counter = 0

theorem Calm.refl (o : Objects T) : o.Calm o := ⟨rfl, fun _ => rfl, fun _ h => h, fun _ h => Or.inl h⟩

theorem Calm.trans (h : o.Calm o') (h' : o'.Calm o'') : o.Calm o'' where
  allocated := h'.allocated.trans h.allocated
  counter i := (h'.counter i).trans (h.counter i)
  deleted i hd := h'.deleted i (h.deleted i hd)
  unowned i hd := by
    rcases h'.unowned i hd with hd | hc
    · exact h.unowned i hd
    · exact Or.inr ((h.counter i).symm.trans hc)

@[simp] theorem put_base_self (o : Objects T) (id : Nat) (b : CommBase) : (o.put id b).base id = b :=
  Function.update_self ..

theorem put_base_ne (o : Objects T) {id i : Nat} (b : CommBase) (h : i ≠ id) : (o.put id b).base i = o.base i :=
  Function.update_of_ne h ..

/-- What a function of the handle `id` can do to the objects, one thing after the other, when it leaves the
counter alone. -/
inductive Touches (id : Nat) : Objects T → Objects T → Prop
  | transport (o : Objects T) (t : T) : Touches id o { o with transport := t }
  | put (o : Objects T) {b : CommBase} (hcounter : b.counter = (o.base id).counter)
      (hrd : (o.base id).closedRd = true → b.closedRd = true) : Touches id o (o.put id b)
  | delete (o : Objects T) : Touches id o (o.deleteUnused id)

theorem Touches.calm (h : Touches id o o') : o.Calm o' := by
  cases h with
  | transport t => exact ⟨rfl, fun _ => rfl, fun _ h => h, fun _ h => Or.inl h⟩
  | put hcounter _ =>
    refine ⟨rfl, fun i => ?_, fun _ h => h, fun _ h => Or.inl h⟩
    by_cases hi : i = id
    · subst hi
      rw [put_base_self, hcounter]
    · rw [put_base_ne _ _ hi]
  | delete =>
    unfold deleteUnused
    split
    · rename_i h
      refine ⟨rfl, fun _ => rfl, fun i hd => ?_, fun i hd => ?_⟩
      · by_cases hi : i = id
        · subst hi
          exact Function.update_self ..
        · exact (Function.update_of_ne hi ..).trans hd
      · by_cases hi : i = id
        · exact Or.inr (hi ▸ h.1)
        · exact Or.inl ((Function.update_of_ne hi ..).symm.trans hd)
    · exact Calm.refl o

theorem deref_eq_ok {b : CommBase} : o.deref id = .ok b ↔ id < o.allocated ∧ o.deleted id = false ∧ o.base id = b := by
  unfold deref
  split
  · rename_i h
    refine iff_of_false nofun ?_
    rintro ⟨h1, h2, -⟩
    rcases h with h | h
    · omega
    · rw [h2] at h
      cases h
  · rename_i h
    obtain ⟨h1, h2⟩ := not_or.1 h
    simp [Nat.lt_of_not_le h1, h2]

theorem deleteUnused_base (o : Objects T) (id : Nat) : (o.deleteUnused id).base = o.base := by
  unfold deleteUnused
  split <;> rfl

/-- `Handle::close` closes the sides it is asked to close, and changes nothing else in the objects. -/
theorem close_base {wr rd : Bool} (h : o.close tr id wr rd = .ok o') :
    o'.base = Function.update o.base id
      { o.base id with closedWr := (o.base id).closedWr || wr, closedRd := (o.base id).closedRd || rd } := by
  unfold close at h
  obtain ⟨b, -, h⟩ := bind_eq_ok.1 h
  obtain ⟨o1, h1, h⟩ := bind_eq_ok.1 h
  obtain ⟨t, -, h⟩ := bind_eq_ok.1 h
  cases h
  rw [deleteUnused_base]
  have hwrite : o1.base = Function.update o.base id { o.base id with closedWr := (o.base id).closedWr || wr } := by
    cases wr with
    | false =>
      cases h1
      rw [Bool.or_false, Function.update_eq_self]
    | true =>
      rw [if_pos rfl] at h1
      unfold closeWrite at h1
      split at h1
      · rename_i hwr
        cases h1
        rw [Bool.or_true, ← hwr, Function.update_eq_self]
      · obtain ⟨t1, -, h1⟩ := bind_eq_ok.1 h1
        cases h1
        rw [Bool.or_true]
        rfl
  cases rd with
  | false =>
    rw [Bool.or_false]
    exact hwrite
  | true =>
    change Function.update o1.base id { o1.base id with closedRd := true } = _
    rw [hwrite, Function.update_idem, Function.update_self, Bool.or_true]

/-- The functions of a handle that have nothing to do with its counter. -/
def uncounted (tr : Transport T) (id : Nat) : CommunicationHandle (Objects T) :=
  { handle tr id with
    incrementReferenceCounter := fun _ => .error .undefined
    decrementReferenceCounter := fun _ => .error .undefined }

section

variable {I : Objects T → Prop} (hI : ∀ {o o'}, I o → Touches id o o' → I o')

include hI

private theorem close_keeps (ho : I o) {wr rd : Bool} (h : o.close tr id wr rd = .ok o') : I o' := by
  unfold close at h
  obtain ⟨b, -, h⟩ := bind_eq_ok.1 h
  obtain ⟨o1, h1, h⟩ := bind_eq_ok.1 h
  obtain ⟨t, -, h⟩ := bind_eq_ok.1 h
  cases h
  have ho1 : I o1 := by
    cases wr with
    | false =>
      cases h1
      exact ho
    | true =>
      rw [if_pos rfl] at h1
      unfold closeWrite at h1
      split at h1
      · cases h1
        exact ho
      · obtain ⟨t1, -, h1⟩ := bind_eq_ok.1 h1
        cases h1
        have hput : Touches id o (o.put id { o.base id with closedWr := true }) := .put o rfl fun h => h
        exact hI (hI ho hput) (.transport _ t1)
  have ho2 : I (if rd then o1.put id { o1.base id with closedRd := true } else o1) := by
    cases rd with
    | false => exact ho1
    | true => exact hI ho1 (.put o1 rfl fun _ => rfl)
  exact hI (hI ho2 (.transport _ t)) (.delete _)

/-- They keep what one such change keeps. -/
theorem uncounted_keeps : (uncounted tr id).Keeps I where
  setProbed pr o h := hI h (.put o rfl fun h => h)
  probe := by
    intro size blocking o r size' o' h he
    obtain ⟨b, -, he⟩ := bind_eq_ok.1 he
    obtain ⟨⟨r1, s1, t⟩, -, he⟩ := bind_eq_ok.1 he
    cases he
    exact hI h (.transport o t)
  receive := by
    intro n o r bs o' h he
    obtain ⟨b, -, he⟩ := bind_eq_ok.1 he
    obtain ⟨⟨r1, s1, t⟩, -, he⟩ := bind_eq_ok.1 he
    cases he
    exact hI h (.transport o t)
  send := by
    intro bs o r o' h he
    obtain ⟨b, -, he⟩ := bind_eq_ok.1 he
    obtain ⟨⟨r1, t⟩, -, he⟩ := bind_eq_ok.1 he
    cases he
    exact hI h (.transport o t)
  close h he := close_keeps hI h he
  yield := by
    intro o o' h he
    change o.yield tr id = .ok o' at he
    unfold yield at he
    obtain ⟨b, -, he⟩ := bind_eq_ok.1 he
    split at he
    · cases he
      exact h
    · obtain ⟨t, -, he⟩ := bind_eq_ok.1 he
      cases he
      exact hI h (.transport o t)
  incrementReferenceCounter _ he := nomatch he
  decrementReferenceCounter _ he := nomatch he

/-- All functions of a handle, of what a change of the counter keeps too. -/
theorem handle_keeps (hcount : ∀ {o} n, I o → I (o.put id { o.base id with counter := n })) : (handle tr id).Keeps I :=
  { uncounted_keeps hI with
    incrementReferenceCounter := by
      intro o o' h he
      obtain ⟨b, hb, he⟩ := bind_eq_ok.1 he
      obtain ⟨-, -, rfl⟩ := deref_eq_ok.1 hb
      cases he
      exact hcount _ h
    decrementReferenceCounter := by
      intro o o' h he
      obtain ⟨b, hb, he⟩ := bind_eq_ok.1 he
      obtain ⟨-, -, rfl⟩ := deref_eq_ok.1 hb
      cases he
      exact hI (hcount _ h) (.delete _) }

end

private theorem calm_keeps (tr : Transport T) (o : Objects T) (id : Nat) : (uncounted tr id).Keeps o.Calm :=
  uncounted_keeps fun h ht => h.trans ht.calm

theorem calm_close {wr rd : Bool} (h : o.close tr id wr rd = .ok o') : o.Calm o' :=
  (calm_keeps tr o id).close (.refl o) h

theorem calm_yield (h : o.yield tr id = .ok o') : o.Calm o' := (calm_keeps tr o id).yield (.refl o) h

end Objects

/-! ### What `HandleUser` does to the counters -/

namespace HandleUser

variable {tr : Transport T} {u u' : HandleUser Nat} {o o' : Objects T}

theorem calm_probe {size size' : Nat} {blocking : Bool} {r : Ret}
    (h : u.probe (handle tr) size blocking o = .ok (r, size', u', o')) : o.Calm o' ∧ u'.realHandle = u.realHandle := by
  obtain ⟨id, b, h1, h2, -, h⟩ := probe_cases h
  have hk := Objects.calm_keeps tr o id
  refine ⟨?_, h2.trans h1.symm⟩
  rcases h with ⟨rfl, -⟩ | ⟨-, -, -, -, r0, o0, h0, hout⟩
  · exact Objects.Calm.refl _
  · have h0' : o.Calm o0 := hk.probe (Objects.Calm.refl o) h0
    cases hout with
    | closed _ hc => exact hk.close h0' hc
    | failed _ => exact h0'
    | eos _ hc => exact hk.close (hk.setProbed _ _ h0') hc
    | header _ => exact hk.setProbed _ _ h0'

private theorem calm_receiveProbed {size : Nat} {r : Ret} {bs : Bytes}
    (h : u.receiveProbed (handle tr) size o = .ok (r, bs, u', o')) : o.Calm o' ∧ u' = u := by
  obtain ⟨hu, id, b, -, -, h⟩ := receiveProbed_cases h
  have hk := Objects.calm_keeps tr o id
  refine ⟨?_, hu⟩
  rcases h with ⟨-, -, -, rfl⟩ | ⟨-, h⟩
  · exact Objects.Calm.refl _
  · exact hk.receive (hk.setProbed _ _ (Objects.Calm.refl o)) h

theorem calm_receive {size : Nat} {r : Ret} {bs : Bytes}
    (h : u.receive (handle tr) size o = .ok (r, bs, u', o')) : o.Calm o' ∧ u'.realHandle = u.realHandle := by
  obtain ⟨id, b, -, -, h⟩ := receive_cases h
  rcases h with ⟨-, -, -, -, rfl, rfl⟩ | ⟨-, -, -, h⟩ | ⟨-, r0, size0, u0, o0, h0, h⟩
  · exact ⟨Objects.Calm.refl _, rfl⟩
  · obtain ⟨hc, rfl⟩ := calm_receiveProbed h
    exact ⟨hc, rfl⟩
  · obtain ⟨hc0, hu0⟩ := calm_probe h0
    rcases h with ⟨-, -, -, rfl, rfl⟩ | ⟨-, h⟩
    · exact ⟨hc0, hu0⟩
    · obtain ⟨hc, rfl⟩ := calm_receiveProbed h
      exact ⟨hc0.trans hc, hu0⟩

theorem calm_send {r : Ret} {bs : Bytes} (h : u.send (handle tr) bs o = .ok (r, u', o')) :
    o.Calm o' ∧ u'.realHandle = u.realHandle := by
  have h' : u.send (Objects.uncounted tr) bs o = .ok (r, u', o') := h
  exact ⟨send_keeps (fun id => Objects.calm_keeps tr o id) (Objects.Calm.refl o) h', send_user h⟩

theorem calm_yield (h : u.yield (handle tr) o = .ok (u', o')) : o.Calm o' ∧ u'.realHandle = u.realHandle := by
  have h' : u.yield (Objects.uncounted tr) o = .ok (u', o') := h
  exact ⟨yield_keeps (fun id => Objects.calm_keeps tr o id) (Objects.Calm.refl o) h', yield_user h⟩

theorem calm_close (h : u.close (handle tr) o = .ok o') : o.Calm o' := by
  have h' : u.close (Objects.uncounted tr) o = .ok o' := h
  exact close_keeps (fun id => Objects.calm_keeps tr o id) (Objects.Calm.refl o) h'

/-- The destructor: a readable object gives its handle back, and then lets go of it. -/
theorem destroy_cases (h : u.destroy (handle tr) o = .ok o') :
    (u.realHandle = none ∧ o' = o) ∨ ∃ id o1, u.realHandle = some id ∧
      ((u.isReadable = true ∧ o.yield tr id = .ok o1) ∨ u.isReadable = false ∧ o1 = o) ∧ o1.decrement id = .ok o' := by
  unfold destroy at h
  obtain ⟨o1, h1, h⟩ := bind_eq_ok.1 h
  rcases hu : u.realHandle with _ | id
  · rw [hu] at h
    cases h
    refine Or.inl ⟨rfl, ?_⟩
    unfold yield at h1
    dsimp only at h1
    rw [hu] at h1
    split at h1 <;> cases h1 <;> rfl
  · rw [hu] at h
    refine Or.inr ⟨id, o1, rfl, ?_, h⟩
    unfold yield at h1
    dsimp only at h1
    rw [hu] at h1
    dsimp only at h1
    by_cases hr : u.isReadable = true
    · rw [if_pos hr] at h1
      rcases hy : (handle tr id).yield o with e | o2
      · rw [hy] at h1
        cases h1
      · rw [hy] at h1
        cases h1
        exact Or.inl ⟨hr, hy⟩
    · rw [if_neg hr] at h1
      cases h1
      exact Or.inr ⟨Bool.eq_false_iff.2 hr, rfl⟩

/-- The constructor counts the new object. -/
theorem mk'_cases {id : Option Nat} {r n : Bool} (h : mk' (handle tr) id r n o = .ok (u, o')) :
    u.realHandle = id ∧ ((id = none ∧ o' = o) ∨ ∃ i, id = some i ∧ o.increment i = .ok o') := by
  unfold mk' at h
  rcases id with _ | i
  · cases h
    exact ⟨rfl, Or.inl ⟨rfl, rfl⟩⟩
  · obtain ⟨o1, h1, h⟩ := bind_eq_ok.1 h
    cases h
    exact ⟨rfl, Or.inr ⟨i, rfl, h1⟩⟩

end HandleUser

/-! ### Every step keeps the count -/

namespace Users

variable {tr : Transport T} {s s' : Users T} {x y id : Nat} {u v : HandleUser Nat}

/-- Every object refers to a handle that exists, and the counters are right. -/
structure Inv (s : Users T) : Prop where
  alive : ∀ id, 0 < s.owners id → id < s.objects.allocated ∧ s.objects.deleted id = false
  exact : s.Exact

/-- How much an object adds to the number of owners of the handle `id`. -/
private def one (id : Nat) (u : Option (HandleUser Nat)) : Nat := if refers id u then 1 else 0

private theorem one_congr (h : v.realHandle = u.realHandle) (id : Nat) : one id (some v) = one id (some u) := by
  simp [one, refers, h]

private theorem one_some (id : Nat) {j : Nat} (h : u.realHandle = some j) :
    one id (some u) = if id = j then 1 else 0 := by
  simp [one, refers, h, eq_comm (a := id)]

private theorem one_null (id : Nat) (h : u.realHandle = none) : one id (some u) = 0 := by
  simp [one, refers, h]

private theorem object_eq_ok (h : s.object x = .ok u) : s.vars[x]? = some (some u) := by
  unfold object at h
  split at h
  · cases h
    assumption
  · cases h

private theorem countP_set {l : List (Option (HandleUser Nat))} {x : Nat} {a : Option (HandleUser Nat)}
    (h : l[x]? = some a) (id : Nat) (b : Option (HandleUser Nat)) :
    (l.set x b).countP (refers id) + one id a = l.countP (refers id) + one id b := by
  obtain ⟨hx, ha⟩ := List.getElem?_eq_some_iff.1 h
  rw [List.countP_set hx, ha]
  by_cases hr : refers id a = true
  · have hpos : 0 < l.countP (refers id) := List.countP_pos_iff.2 ⟨a, List.mem_of_getElem? h, hr⟩
    rw [if_pos hr, one, if_pos hr, one]
    omega
  · rw [if_neg hr, one, if_neg hr, one]
    omega

private theorem owners_assign (h : s.object x = .ok u) (id : Nat) (b : Option (HandleUser Nat)) (o : Objects T) :
    (s.assign x b o).owners id + one id (some u) = s.owners id + one id b := by
  have hset := countP_set (object_eq_ok h) id b
  unfold owners assign
  dsimp only
  omega

private theorem owners_construct (id : Nat) (s : Users T) (u : HandleUser Nat) (o : Objects T) :
    ({ s with objects := o, vars := s.vars ++ [some u] } : Users T).owners id = s.owners id + one id (some u) := by
  simp only [owners, List.countP_append, List.countP_singleton, one]
  omega

private theorem inv_calm (hi : s.Inv) (hc : s.objects.Calm s'.objects)
    (ho : ∀ id, s'.owners id = s.owners id) : s'.Inv where
  alive id h := by
    rw [ho id] at h
    obtain ⟨hid, hd⟩ := hi.alive id h
    refine ⟨hc.allocated ▸ hid, Bool.eq_false_iff.2 fun hd' => ?_⟩
    have hcount := hi.exact id hid hd
    rcases hc.unowned id hd' with h' | h'
    · rw [hd] at h'
      cases h'
    · omega
  exact id hid hd := by
    rw [hc.allocated] at hid
    have hd0 : s.objects.deleted id = false := Bool.eq_false_iff.2 fun h => by
      rw [hc.deleted id h] at hd
      cases hd
    rw [hc.counter, ho]
    exact hi.exact id hid hd0

private theorem inv_increment (hi : s.Inv) (h : s.objects.increment id = .ok s'.objects)
    (ho : ∀ j, s'.owners j = s.owners j + if j = id then 1 else 0) : s'.Inv := by
  obtain ⟨b, hb, h⟩ := bind_eq_ok.1 h
  obtain ⟨hid, hd, rfl⟩ := Objects.deref_eq_ok.1 hb
  have he := (Except.ok.inj h).symm
  have halloc : s'.objects.allocated = s.objects.allocated := by rw [he]; rfl
  have hdel : s'.objects.deleted = s.objects.deleted := by rw [he]; rfl
  constructor
  · intro j hj
    rw [halloc, hdel]
    by_cases hji : j = id
    · exact hji ▸ ⟨hid, hd⟩
    · rw [ho, if_neg hji] at hj
      exact hi.alive j hj
  · intro j hj hdj
    rw [halloc] at hj
    rw [hdel] at hdj
    have hcount := hi.exact j hj hdj
    rw [ho, he]
    by_cases hji : j = id
    · subst hji
      rw [Objects.put_base_self, if_pos rfl]
      push_cast
      omega
    · rw [Objects.put_base_ne _ _ hji, if_neg hji]
      exact hcount

/-- An owner less; if it was the last one, the handle may be deleted. -/
private theorem inv_decrement (hi : s.Inv) (h : s.objects.decrement id = .ok s'.objects)
    (ho : ∀ j, s'.owners j + (if j = id then 1 else 0) = s.owners j) : s'.Inv := by
  obtain ⟨b, hb, h⟩ := bind_eq_ok.1 h
  obtain ⟨hid, hd, rfl⟩ := Objects.deref_eq_ok.1 hb
  have hcount := hi.exact id hid hd
  have hown := ho id
  rw [if_pos rfl] at hown
  let o1 := s.objects.put id { s.objects.base id with counter := (s.objects.base id).counter - 1 }
  have he : o1.deleteUnused id = s'.objects := Except.ok.inj h
  have hc : o1.Calm (o1.deleteUnused id) := (Objects.Touches.delete o1).calm
  rw [he] at hc
  have hcount' : ∀ j < s.objects.allocated, s.objects.deleted j = false → (o1.base j).counter = s'.owners j := by
    intro j hj hdj
    have hown' := ho j
    by_cases hji : j = id
    · subst hji
      rw [Objects.put_base_self]
      dsimp only
      omega
    · rw [if_neg hji] at hown'
      rw [Objects.put_base_ne _ _ hji, hi.exact j hj hdj]
      omega
  constructor
  · intro j hj
    have hj' : 0 < s.owners j := by
      have := ho j
      omega
    obtain ⟨h1, h2⟩ := hi.alive j hj'
    refine ⟨hc.allocated ▸ h1, Bool.eq_false_iff.2 fun hd' => ?_⟩
    have hcj := hcount' j h1 h2
    rcases hc.unowned j hd' with h' | h'
    · change s.objects.deleted j = true at h'
      rw [h2] at h'
      cases h'
    · omega
  · intro j hj hdj
    rw [hc.allocated] at hj
    rw [hc.counter]
    refine hcount' j hj (Bool.eq_false_iff.2 fun h' => ?_)
    rw [hc.deleted j h'] at hdj
    cases hdj

private theorem inv_create (hi : s.Inv) (h : s'.objects = s.objects.create) (ho : ∀ id, s'.owners id = s.owners id) :
    s'.Inv := by
  have hdel : ∀ j < s.objects.allocated, s.objects.create.deleted j = s.objects.deleted j := fun j hj =>
    Function.update_of_ne (Nat.ne_of_lt hj) ..
  have hnone : s.owners s.objects.allocated = 0 := by
    by_contra h
    exact absurd (hi.alive _ (Nat.pos_of_ne_zero h)).1 (Nat.lt_irrefl _)
  constructor
  · intro j hj
    rw [ho] at hj
    obtain ⟨h1, h2⟩ := hi.alive j hj
    rw [h]
    exact ⟨Nat.lt_succ_of_lt h1, (hdel j h1).trans h2⟩
  · intro j hj hdj
    rw [h] at hj hdj
    rw [ho, h]
    by_cases hja : j = s.objects.allocated
    · rw [hja, hnone]
      change ((s.objects.put s.objects.allocated {}).base s.objects.allocated).counter = _
      rw [Objects.put_base_self]
      rfl
    · have hj' : j < s.objects.allocated := Nat.lt_of_le_of_ne (Nat.le_of_lt_succ hj) hja
      change ((s.objects.put s.objects.allocated {}).base j).counter = _
      rw [Objects.put_base_ne _ _ hja]
      exact hi.exact j hj' ((hdel j hj').symm.trans hdj)

/-- A move assignment onto an object that refers to nothing moves an owner. -/
private theorem owners_move (hx : s.object x = .ok u) (hy : s.object y = .ok v) (hxy : x ≠ y) (id : Nat) :
    ({ s with vars := (s.vars.set y (some ⟨none, false, false⟩)).set x (some v) } : Users T).owners id +
      one id (some u) = s.owners id := by
  have hset := countP_set (object_eq_ok hy) id (some ⟨none, false, false⟩)
  have hx' : (s.vars.set y (some ⟨none, false, false⟩))[x]? = some (some u) := by
    rw [List.getElem?_set_ne hxy.symm]
    exact object_eq_ok hx
  have hset' := countP_set hx' id (some v)
  have hzero : one id (some ⟨none, false, false⟩) = 0 := one_null id rfl
  unfold owners
  dsimp only
  omega

/-- What an operation does to the counters and the owners. -/
private inductive Effect (tr : Transport T) (s s' : Users T) : Op T → Prop
  | calm {o : Op T} (hc : s.objects.Calm s'.objects) (ho : ∀ id, s'.owners id = s.owners id) : Effect tr s s' o
  | created {o : Op T} (h : s'.objects = s.objects.create) (ho : ∀ id, s'.owners id = s.owners id) : Effect tr s s' o
  | counted {o : Op T} {id : Nat} (h : s.objects.increment id = .ok s'.objects)
      (ho : ∀ j, s'.owners j = s.owners j + if j = id then 1 else 0) : Effect tr s s' o
  | released {x id : Nat} {u : HandleUser Nat} {o1 : Objects T} (hx : s.object x = .ok u) (hu : u.realHandle = some id)
      (hy : (u.isReadable = true ∧ s.objects.yield tr id = .ok o1) ∨ u.isReadable = false ∧ o1 = s.objects)
      (hdec : o1.decrement id = .ok s'.objects) (hs' : s' = s.assign x none s'.objects) : Effect tr s s' (.destroy x)

private theorem effect_assign (hx : s.object x = .ok u) {o : Objects T} (hc : s.objects.Calm o)
    (hv : v.realHandle = u.realHandle) {op : Op T} : Effect tr s (s.assign x (some v) o) op := by
  refine .calm hc fun id => ?_
  have := owners_assign hx id (some v) o
  rw [one_congr hv] at this
  omega

private theorem effect_construct {i : Option Nat} {r n : Bool} {o : Objects T} {op : Op T}
    (h : HandleUser.mk' (handle tr) i r n s.objects = .ok (u, o)) (hs' : s'.objects = o)
    (ho : ∀ j, s'.owners j = s.owners j + one j (some u)) : Effect tr s s' op := by
  subst hs'
  obtain ⟨hu, ⟨rfl, he⟩ | ⟨j, rfl, hinc⟩⟩ := HandleUser.mk'_cases h
  · refine .calm (he ▸ Objects.Calm.refl _) fun j => ?_
    rw [ho, one_null j hu]
    rfl
  · exact .counted hinc fun k => by rw [ho, one_some k hu]

private theorem step_effect {o : Op T} (ho : ¬ s.Overwrites o) (h : s.step tr o = .ok s') : Effect tr s s' o := by
  cases o with
  | create =>
    cases h
    exact .created rfl fun _ => rfl
  | transport t =>
    cases h
    have ht : Objects.Touches 0 _ _ := .transport s.objects t
    exact .calm ht.calm fun _ => rfl
  | construct i r n =>
    obtain ⟨⟨u, o⟩, hu, h⟩ := bind_eq_ok.1 h
    cases h
    exact effect_construct hu rfl fun j => owners_construct j s u o
  | addinQ b i =>
    obtain ⟨⟨u, o⟩, hu, h⟩ := bind_eq_ok.1 h
    cases h
    refine effect_construct hu rfl fun j => ?_
    simp only [owners, List.map_append, List.countP_append, List.map_cons, List.map_nil, List.countP_singleton, one]
    omega
  | getNext =>
    unfold step at h
    dsimp only at h
    split at h
    · cases h
      refine .calm (Objects.Calm.refl _) fun j => ?_
      have := owners_construct j s ⟨none, true, true⟩ s.objects
      rw [one_null j rfl] at this
      exact this
    · rename_i u us hq
      cases h
      refine .calm (Objects.Calm.refl _) fun j => ?_
      simp only [owners, hq, List.map_cons, List.countP_cons, List.countP_append, List.countP_nil]
      omega
  | moveConstruct y =>
    obtain ⟨v, hy, h⟩ := bind_eq_ok.1 h
    cases h
    refine .calm (Objects.Calm.refl _) fun j => ?_
    have hset := countP_set (object_eq_ok hy) j (some ⟨none, false, false⟩)
    have hzero : one j (some ⟨none, false, false⟩) = 0 := one_null j rfl
    simp only [owners, List.countP_append, List.countP_singleton, one] at hset hzero ⊢
    omega
  | moveAssign x y =>
    obtain ⟨u, hx, h⟩ := bind_eq_ok.1 h
    obtain ⟨v, hy, h⟩ := bind_eq_ok.1 h
    cases h
    by_cases hxy : x = y
    · rw [if_pos hxy]
      exact .calm (Objects.Calm.refl _) fun _ => rfl
    · rw [if_neg hxy]
      refine .calm (Objects.Calm.refl _) fun j => ?_
      have hu : u.realHandle = none := by
        by_contra hu
        exact ho ⟨hxy, u, hx, hu⟩
      have hmove := owners_move hx hy hxy j
      rw [one_null j hu] at hmove
      exact hmove
  | probe x size blocking =>
    obtain ⟨u, hx, h⟩ := bind_eq_ok.1 h
    obtain ⟨⟨r, size', u', o⟩, h1, h⟩ := bind_eq_ok.1 h
    cases h
    obtain ⟨hc, hu⟩ := HandleUser.calm_probe h1
    exact effect_assign hx hc hu
  | receive x size =>
    obtain ⟨u, hx, h⟩ := bind_eq_ok.1 h
    obtain ⟨⟨r, bs, u', o⟩, h1, h⟩ := bind_eq_ok.1 h
    cases h
    obtain ⟨hc, hu⟩ := HandleUser.calm_receive h1
    exact effect_assign hx hc hu
  | send x bs =>
    obtain ⟨u, hx, h⟩ := bind_eq_ok.1 h
    obtain ⟨⟨r, u', o⟩, h1, h⟩ := bind_eq_ok.1 h
    cases h
    obtain ⟨hc, hu⟩ := HandleUser.calm_send h1
    exact effect_assign hx hc hu
  | yield x =>
    obtain ⟨u, hx, h⟩ := bind_eq_ok.1 h
    obtain ⟨⟨u', o⟩, h1, h⟩ := bind_eq_ok.1 h
    cases h
    obtain ⟨hc, hu⟩ := HandleUser.calm_yield h1
    exact effect_assign hx hc hu
  | close x =>
    obtain ⟨u, hx, h⟩ := bind_eq_ok.1 h
    obtain ⟨o, h1, h⟩ := bind_eq_ok.1 h
    cases h
    exact .calm (HandleUser.calm_close h1) fun _ => rfl
  | destroy x =>
    obtain ⟨u, hx, h⟩ := bind_eq_ok.1 h
    obtain ⟨o, h1, h⟩ := bind_eq_ok.1 h
    cases h
    rcases HandleUser.destroy_cases h1 with ⟨hu, rfl⟩ | ⟨i, o1, hu, hy, hdec⟩
    · refine .calm (Objects.Calm.refl _) fun j => ?_
      have := owners_assign hx j none s.objects
      rw [one_null j hu] at this
      exact this
    · exact .released hx hu hy hdec rfl
  | handleClose i wr rd =>
    obtain ⟨o, h1, h⟩ := bind_eq_ok.1 h
    cases h
    exact .calm (Objects.calm_close h1) fun _ => rfl
  | handleYield i =>
    obtain ⟨o, h1, h⟩ := bind_eq_ok.1 h
    cases h
    exact .calm (Objects.calm_yield h1) fun _ => rfl

/-- Every operation but a move assignment onto an object that refers to a handle keeps the invariant. -/
theorem inv_step (hi : s.Inv) {o : Op T} (ho : ¬ s.Overwrites o) (h : s.step tr o = .ok s') : s'.Inv := by
  cases step_effect ho h with
  | calm hc ho => exact inv_calm hi hc ho
  | created h ho => exact inv_create hi h ho
  | counted h ho => exact inv_increment hi h ho
  | @released x id u o1 hx hu hy hdec hs' =>
    have hc : s.objects.Calm o1 := by
      rcases hy with ⟨-, hy⟩ | ⟨-, rfl⟩
      · exact Objects.calm_yield hy
      · exact Objects.Calm.refl _
    have hi1 : ({ s with objects := o1 } : Users T).Inv := inv_calm hi hc fun _ => rfl
    refine inv_decrement hi1 hdec fun j => ?_
    have := owners_assign hx j none s'.objects
    rw [← hs', one_some j hu] at this
    exact this

theorem inv_init (h : s.Init) : s.Inv := by
  obtain ⟨t, rfl⟩ := h
  exact ⟨fun id h => absurd h (Nat.lt_irrefl 0), fun id h => absurd h (Nat.not_lt_zero id)⟩

theorem Reachable.inv (h : s.Reachable tr) : s.Inv :=
  Runs.Reach.invariant Inv (fun _ => inv_init) (fun _ _ _ hi hs => inv_step hi hs.1 hs.2) h

/-- A move assignment onto an object that refers to a handle leaves that handle with a count that is one too high. -/
private theorem not_exact_of_overwrites (hi : s.Inv) {o : Op T} (ho : s.Overwrites o) (h : s.step tr o = .ok s') :
    ¬ s'.Exact := by
  cases o with
  | moveAssign x y =>
    obtain ⟨hxy, u, hx, hu⟩ := ho
    obtain ⟨i, hu⟩ := Option.ne_none_iff_exists'.1 hu
    obtain ⟨u', hx', h⟩ := bind_eq_ok.1 h
    obtain rfl : u = u' := Except.ok.inj (hx.symm.trans hx')
    obtain ⟨v, hy, h⟩ := bind_eq_ok.1 h
    cases h
    rw [if_neg hxy]
    intro he
    have hmove := owners_move hx hy hxy i
    rw [one_some i hu, if_pos rfl] at hmove
    obtain ⟨hid, hd⟩ := hi.alive i (by omega)
    have h1 := hi.exact i hid hd
    have h2 := he i hid hd
    change (s.objects.base i).counter = _ at h2
    rw [h1] at h2
    have h3 := Int.ofNat.inj h2
    change s.owners i = Users.owners { s with
      vars := (s.vars.set y (some ⟨none, false, false⟩)).set x (some v) } i at h3
    omega
  | _ => exact ho.elim

private theorem owners_pos (hx : s.object x = .ok u) (hu : u.realHandle = some id) : 0 < s.owners id := by
  have hmem : some u ∈ s.vars := List.mem_of_getElem? (object_eq_ok hx)
  have hpos : 0 < s.vars.countP (refers id) := List.countP_pos_iff.2 ⟨_, hmem, by simp [refers, hu]⟩
  unfold owners
  omega

private theorem deleted_of_destroy (hi : s.Inv) (h : s.step tr (.destroy x) = .ok s') (hx : s.object x = .ok u)
    (hu : u.realHandle = some id) (hone : s.owners id = 1) (hwr : (s.objects.base id).closedWr = true)
    (hrd : (s.objects.base id).closedRd = true) : s'.objects.deleted id = true := by
  obtain ⟨u', hx', h⟩ := bind_eq_ok.1 h
  obtain rfl : u = u' := Except.ok.inj (hx.symm.trans hx')
  obtain ⟨o, h1, h⟩ := bind_eq_ok.1 h
  cases h
  rcases HandleUser.destroy_cases h1 with ⟨hnone, -⟩ | ⟨i, o1, hi', hy, hdec⟩
  · rw [hu] at hnone
    cases hnone
  · obtain rfl : id = i := Option.some.inj (hu.symm.trans hi')
    obtain ⟨hid, hd⟩ := hi.alive id (by omega)
    have hcount := hi.exact id hid hd
    have ho1 : o1 = s.objects := by
      rcases hy with ⟨-, hy⟩ | ⟨-, rfl⟩
      · unfold Objects.yield at hy
        rw [Objects.deref_eq_ok.2 ⟨hid, hd, rfl⟩, bind_ok, if_pos hrd] at hy
        exact (Except.ok.inj hy).symm
      · rfl
    subst ho1
    obtain ⟨b, hb, hdec⟩ := bind_eq_ok.1 hdec
    obtain ⟨-, -, rfl⟩ := Objects.deref_eq_ok.1 hb
    cases hdec
    change (Objects.deleteUnused _ id).deleted id = true
    rw [Objects.deleteUnused, if_pos]
    · exact Function.update_self ..
    · rw [Objects.put_base_self]
      exact ⟨by dsimp only; omega, hwr, hrd⟩

/-- Only the destructor takes the last owner of a handle away, and a readable one gives the handle back first. -/
private theorem yielded_of_last {o : Op T} (ho : ¬ s.Overwrites o) (h : s.step tr o = .ok s') (hx : s.object x = .ok u)
    (hu : u.realHandle = some id) (hr : u.isReadable = true) (hnone : s'.owners id = 0) :
    o = .destroy x ∧ ∃ o1, s.objects.yield tr id = .ok o1 ∧ o1.decrement id = .ok s'.objects := by
  have hpos := owners_pos hx hu
  cases step_effect ho h with
  | calm hc ho =>
    have := ho id
    omega
  | created h ho =>
    have := ho id
    omega
  | counted h ho =>
    have := ho id
    omega
  | @released z i v o1 hz hv hy hdec hs' =>
    by_cases hzx : z = x
    · subst hzx
      obtain rfl : u = v := Except.ok.inj (hx.symm.trans hz)
      obtain rfl : id = i := Option.some.inj (hu.symm.trans hv)
      rcases hy with ⟨-, hy⟩ | ⟨hr', -⟩
      · exact ⟨rfl, o1, hy, hdec⟩
      · rw [hr] at hr'
        cases hr'
    · have hx' : s'.object x = .ok u := by
        rw [hs']
        unfold object assign
        dsimp only
        rw [List.getElem?_set_ne hzx, object_eq_ok hx]
      have := owners_pos hx' hu
      omega

end Users

open Users

/-- In every state of every run without a move assignment onto an object that refers to a handle, the counter of
each handle that exists is the number of `HandleUser` objects that refer to it, in the program and in the ready
queue; a handle closed in both directions is deleted when the last of them is destroyed; only the destruction of
an object takes the last owner of a handle away, and if the object is readable it has given the handle back
before; and the next step leaves the counters right just when it is not such an assignment. -/
theorem counter_exact {T : Type} (tr : Transport T) {s : Users T} (h : s.Reachable tr) :
    s.Exact ∧
    (∀ x s' u id, s.step tr (.destroy x) = .ok s' → s.object x = .ok u → u.realHandle = some id → s.owners id = 1 →
      (s.objects.base id).closedWr = true → (s.objects.base id).closedRd = true → s'.objects.deleted id = true) ∧
    (∀ o s' x u id, ¬ s.Overwrites o → s.step tr o = .ok s' → s.object x = .ok u → u.realHandle = some id →
      u.isReadable = true → s'.owners id = 0 →
      o = .destroy x ∧ ∃ o1, s.objects.yield tr id = .ok o1 ∧ o1.decrement id = .ok s'.objects) ∧
    ∀ o s', s.step tr o = .ok s' → (s'.Exact ↔ ¬ s.Overwrites o) := by
  refine ⟨h.inv.exact, fun x s' u id hs hx hu => deleted_of_destroy h.inv hs hx hu,
    fun o s' x u id ho hs hx hu => yielded_of_last ho hs hx hu, fun o s' hs => ⟨fun he ho => ?_, fun ho => ?_⟩⟩
  · exact not_exact_of_overwrites h.inv ho hs he
  · exact (inv_step h.inv ho hs).exact

/-- A transport that writes down which handles are given back to it. -/
private def yieldLog : Transport (List Nat) where
  probe _ size _ t := .ok (.error .EWOULDBLOCK, size, t)
  receive _ _ _ := .error .blocked
  send _ bs t := .ok (.ok bs.length, t)
  sendEOS _ t := .ok t
  notifyClose _ _ _ t := .ok t
  notifyYield id t := .ok (id :: t)

/-- An object on a new connection is moved and destroyed. -/
theorem counter_exact_run :
    ∃ s : Users (List Nat), s.objects.transport = [0] ∧ s.owners 0 = 0 ∧ s.objects.allocated = 1 ∧ s.Exact := by
  have h0 : Users.Reachable yieldLog { objects := { transport := [] } } := .start ⟨[], rfl⟩
  have h1 := Runs.Reach.next .create h0 ⟨nofun, rfl⟩
  have h2 := Runs.Reach.next (.construct (some 0) true true) h1 ⟨nofun, rfl⟩
  have h3 := Runs.Reach.next (.moveConstruct 0) h2 ⟨nofun, rfl⟩
  have h4 := Runs.Reach.next (.destroy 1) h3 ⟨nofun, rfl⟩
  exact ⟨_, rfl, by decide, rfl, (counter_exact yieldLog h4).1⟩

/-- Two connections, one of which is assigned to the object of the other: nobody refers to the first any more,
but its counter is one, and it has not been given back. -/
theorem counter_overwritten :
    ∃ s s' : Users (List Nat), s.Reachable yieldLog ∧ s.step yieldLog (.moveAssign 0 1) = .ok s' ∧ s'.owners 0 = 0 ∧
      (s'.objects.base 0).counter = 1 ∧ s'.objects.transport = [] ∧ ¬ s'.Exact := by
  have h0 : Users.Reachable yieldLog { objects := { transport := [] } } := .start ⟨[], rfl⟩
  have h1 := Runs.Reach.next .create h0 ⟨nofun, rfl⟩
  have h2 := Runs.Reach.next .create h1 ⟨nofun, rfl⟩
  have h3 := Runs.Reach.next (.construct (some 0) true true) h2 ⟨nofun, rfl⟩
  have h4 := Runs.Reach.next (.construct (some 1) true true) h3 ⟨nofun, rfl⟩
  refine ⟨_, _, h4, rfl, by decide, by decide, rfl, fun he => ?_⟩
  have h := he 0 (by decide) rfl
  revert h
  decide

end Mtcl
