import Mtcl.Base.Words

/-!
# Handles and their users

`CommunicationHandle W` is the table of virtual functions of one handle object that lives in a world `W`; the transport
handles and the contexts of the collectives are its instances.  `HandleUser` is the object an application holds, and
its functions are written once over the table.

A call either returns, with the value of the C++ function and the new world, or stops (`Stop`): it waits for
ever, it does what the language leaves undefined, `std::vector::at` throws (`outOfRange`), or one of its loops
needs more turns than it was given (`outOfFuel`).  A `ssize_t` result is `.ok n`, or `.error e` for `-1` with
`errno = e`.
-/

namespace Mtcl

abbrev Bytes := List UInt8

/-- The values of `errno` that the code looks at or sets; `EAGAIN` is `EWOULDBLOCK`. -/
inductive Errno
  | EWOULDBLOCK | EINVAL | ECONNRESET | EBADF | ENOMEM | EINTR | EPIPE | EPROTO | EPERM | ECOMM
  | other (code : Nat)
  deriving DecidableEq, Repr

/-- A `ssize_t`: the number returned, or `-1` with `errno`. -/
abbrev Ret := Except Errno Nat

/-- Why a call does not return. -/
inductive Stop
  | blocked
  | nullDereference
  | useAfterFree
  | undefined
  | outOfRange
  | outOfFuel
  deriving DecidableEq, Repr

/-- `sizeof(size_t)`. -/
abbrev sizeofSizeT : Nat := 8

/-- `sizeof(int)`. -/
abbrev sizeofInt : Nat := 4

/-- The data members of class `CommunicationHandle` that the functions below read. -/
structure CommBase where
  probed : Bool × Nat := (false, 0)
  closedRd : Bool := false
  closedWr : Bool := false
  counter : Int := 0
  deriving DecidableEq, Repr

/-- The virtual functions of one `CommunicationHandle` object of a world `W`.  `probe` gets the value its reference
argument has before the call and returns the one it has afterwards; `receive` returns the bytes it wrote. -/
structure CommunicationHandle (W : Type) where
  base : W → Except Stop CommBase
  setProbed : Bool × Nat → W → W
  probe : Nat → Bool → W → Except Stop (Ret × Nat × W)
  receive : Nat → W → Except Stop (Ret × Bytes × W)
  send : Bytes → W → Except Stop (Ret × W)
  close : Bool → Bool → W → Except Stop W
  yield : W → Except Stop W
  incrementReferenceCounter : W → Except Stop W
  decrementReferenceCounter : W → Except Stop W

/-- `HandleUser`: the handle it refers to, as a name in the world (`none` is the null pointer). -/
structure HandleUser (H : Type) where
  realHandle : Option H := none
  isReadable : Bool := false
  newConnection : Bool := false
  deriving DecidableEq, Repr

variable {H W : Type}

namespace HandleUser

/-- `realHandle->`. -/
def deref (vt : H → CommunicationHandle W) (u : HandleUser H) : Except Stop (CommunicationHandle W) :=
  match u.realHandle with
  | some h => .ok (vt h)
  | none => .error .nullDereference

/-- `HandleUser(h, r, n)`. -/
def mk' (vt : H → CommunicationHandle W) (h : Option H) (r n : Bool) (w : W) : Except Stop (HandleUser H × W) :=
  match h with
  | none => .ok (⟨none, r, n⟩, w)
  | some h => do
    let w ← (vt h).incrementReferenceCounter w
    return (⟨some h, r, n⟩, w)

/-- `operator=(HandleUser&&)` onto another object: the new values of the target and of the source.  What the target
referred to before is not released. -/
def moveAssign (_target source : HandleUser H) : HandleUser H × HandleUser H :=
  (source, ⟨none, false, false⟩)

/-- `HandleUser::yield`. -/
def yield (vt : H → CommunicationHandle W) (u : HandleUser H) (w : W) : Except Stop (HandleUser H × W) :=
  let u := { u with isReadable := false, newConnection := false }
  match u.realHandle with
  | none => .ok (u, w)
  | some h => do
    let w ← (vt h).yield w
    return (u, w)

/-- `HandleUser::send`. -/
def send (vt : H → CommunicationHandle W) (u : HandleUser H) (buff : Bytes) (w : W) :
    Except Stop (Ret × HandleUser H × W) :=
  let u := { u with newConnection := false }
  match u.realHandle with
  | none => .ok (.error .EBADF, u, w)
  | some h => do
    let b ← (vt h).base w
    if b.closedWr then
      return (.error .EBADF, u, w)
    else
      let (r, w) ← (vt h).send buff w
      return (r, u, w)

/-- `HandleUser::probe`.  The test for a null `realHandle` comes after its first use, so it is never reached; the
three cases of `-1` that do not close the handle return it with the same `errno`. -/
def probe (vt : H → CommunicationHandle W) (u : HandleUser H) (size : Nat) (blocking : Bool) (w : W) :
    Except Stop (Ret × Nat × HandleUser H × W) := do
  let u := { u with newConnection := false }
  let h ← u.deref vt
  let b ← h.base w
  if b.probed.1 then
    return (.ok (if b.probed.2 = 0 then 0 else sizeofSizeT), b.probed.2, u, w)
  else if !u.isReadable then
    return (.ok 0, size, u, w)
  else if b.closedRd then
    return (.ok 0, size, u, w)
  else
    let (r, size, w) ← h.probe size blocking w
    match r with
    | .ok 0 =>
      let w ← h.close true true w
      return (.ok 0, size, { u with isReadable := false }, w)
    | .error e =>
      if e = .ECONNRESET then
        let w ← h.close true true w
        return (.ok 0, size, u, w)
      else
        return (.error e, size, u, w)
    | .ok (n + 1) =>
      let w := h.setProbed (true, size) w
      if size = 0 then
        -- EOS received
        let w ← h.close false true w
        return (.ok 0, size, { u with isReadable := false }, w)
      else
        return (.ok (n + 1), size, u, w)

/-- The end of `HandleUser::receive`, once the header has been read. -/
def receiveProbed (vt : H → CommunicationHandle W) (u : HandleUser H) (size : Nat) (w : W) :
    Except Stop (Ret × Bytes × HandleUser H × W) := do
  let h ← u.deref vt
  let b ← h.base w
  let sz := b.probed.2
  if size < sz then
    return (.error .ENOMEM, [], u, w)
  else
    let (r, bs, w) ← h.receive (min sz size) (h.setProbed (false, 0) w)
    return (r, bs, u, w)

/-- `HandleUser::receive`. -/
def receive (vt : H → CommunicationHandle W) (u : HandleUser H) (size : Nat) (w : W) :
    Except Stop (Ret × Bytes × HandleUser H × W) := do
  let h ← u.deref vt
  let b ← h.base w
  if !b.probed.1 then
    -- the initial value of `sz` is not used
    let (r, _, u, w) ← u.probe vt 0 true w
    match r with
    | .ok (_ + 1) => u.receiveProbed vt size w
    | r => return (r, [], u, w)
  else
    let u := { u with newConnection := false }
    if !u.isReadable then
      return (.ok 0, [], u, w)
    else if b.closedRd then
      return (.ok 0, [], u, w)
    else
      u.receiveProbed vt size w

/-- `HandleUser::close`. -/
def close (vt : H → CommunicationHandle W) (u : HandleUser H) (w : W) : Except Stop W :=
  match u.realHandle with
  | none => .ok w
  | some h => (vt h).close true false w

/-- `HandleUser::isClosed`. -/
def isClosed (vt : H → CommunicationHandle W) (u : HandleUser H) (w : W) : Except Stop (Bool × Bool) :=
  match u.realHandle with
  | none => .ok (true, true)
  | some h => do
    let b ← (vt h).base w
    return (b.closedRd, b.closedWr)

/-- `~HandleUser`; a readable handle goes back to the runtime first. -/
def destroy (vt : H → CommunicationHandle W) (u : HandleUser H) (w : W) : Except Stop W := do
  let w ← (if u.isReadable then (u.yield vt w).map Prod.snd else .ok w)
  match u.realHandle with
  | none => .ok w
  | some h => (vt h).decrementReferenceCounter w

end HandleUser

/-! ### Invariants of the world -/

/-- A chain of calls returns when each of them does. -/
theorem bind_eq_ok {α β : Type} {x : Except Stop α} {f : α → Except Stop β} {b : β} :
    (x >>= f) = .ok b ↔ ∃ a, x = .ok a ∧ f a = .ok b := by
  cases x with
  | error e => simp [bind, Except.bind]
  | ok a => simp [bind, Except.bind]

/-- A call whose result is changed returns when it does. -/
theorem map_eq_ok {α β : Type} {x : Except Stop α} {f : α → β} {b : β} (h : x.map f = .ok b) :
    ∃ a, x = .ok a ∧ f a = b := by
  cases x with
  | error e => cases h
  | ok a => exact ⟨a, rfl, Except.ok.inj h⟩

@[simp] theorem bind_ok {α β : Type} (a : α) (f : α → Except Stop β) : ((.ok a : Except Stop α) >>= f) = f a := rfl

@[simp] theorem bind_error {α β : Type} (e : Stop) (f : α → Except Stop β) :
    ((.error e : Except Stop α) >>= f) = .error e := rfl

@[simp] theorem pure_eq_ok {α : Type} (a : α) : (pure a : Except Stop α) = .ok a := rfl

theorem error_ne_succ (e : Errno) (k : Nat) : (.error e : Ret) ≠ .ok (k + 1) := nofun

theorem zero_ne_succ (k : Nat) : (.ok 0 : Ret) ≠ .ok (k + 1) := nofun

/-- The virtual functions of a handle keep a property of the world. -/
structure CommunicationHandle.Keeps (h : CommunicationHandle W) (I : W → Prop) : Prop where
  setProbed : ∀ pr w, I w → I (h.setProbed pr w)
  probe : ∀ {size blocking w r size' w'}, I w → h.probe size blocking w = .ok (r, size', w') → I w'
  receive : ∀ {n w r bs w'}, I w → h.receive n w = .ok (r, bs, w') → I w'
  send : ∀ {bs w r w'}, I w → h.send bs w = .ok (r, w') → I w'
  close : ∀ {wr rd w w'}, I w → h.close wr rd w = .ok w' → I w'
  yield : ∀ {w w'}, I w → h.yield w = .ok w' → I w'
  incrementReferenceCounter : ∀ {w w'}, I w → h.incrementReferenceCounter w = .ok w' → I w'
  decrementReferenceCounter : ∀ {w w'}, I w → h.decrementReferenceCounter w = .ok w' → I w'

namespace HandleUser

variable {vt : H → CommunicationHandle W} {I : W → Prop}

theorem deref_eq_ok {u : HandleUser H} {h : CommunicationHandle W} :
    u.deref vt = .ok h ↔ ∃ r, u.realHandle = some r ∧ vt r = h := by
  unfold deref
  split <;> simp_all

/-- A successful `HandleUser::send` is one of the handle. -/
theorem send_ok {u u' : HandleUser H} {bs : Bytes} {w w' : W} {n : Nat} (h : u.send vt bs w = .ok (.ok n, u', w')) :
    ∃ id, u.realHandle = some id ∧ u'.realHandle = some id ∧ (vt id).send bs w = .ok (.ok n, w') := by
  unfold send at h
  dsimp only at h
  split at h
  · cases h
  · rename_i id hid
    obtain ⟨b, -, h⟩ := bind_eq_ok.1 h
    by_cases hwr : b.closedWr = true
    · rw [if_pos hwr] at h
      cases h
    · rw [if_neg hwr] at h
      obtain ⟨⟨r, w1⟩, h1, h⟩ := bind_eq_ok.1 h
      cases h
      exact ⟨id, hid, hid, h1⟩

/-- `HandleUser::send` on a handle that is open for writing is `send` of the handle. -/
theorem send_of {u : HandleUser H} {id : H} {bs : Bytes} {w w' : W} {r : Ret} {b : CommBase}
    (hu : u.realHandle = some id) (hb : (vt id).base w = .ok b) (hwr : b.closedWr = false)
    (h : (vt id).send bs w = .ok (r, w')) :
    u.send vt bs w = .ok (r, { u with newConnection := false }, w') := by
  unfold send
  dsimp only
  rw [hu]
  dsimp only
  rw [hb, bind_ok, if_neg (by simp [hwr]), h]
  rfl

/-- What `HandleUser::probe` makes of the result of the handle's `probe`. -/
inductive ProbeOutcome (h : CommunicationHandle W) (size : Nat) : Ret → W → Ret → W → Prop
  | closed {r : Ret} {w w' : W} (hr : r = .ok 0 ∨ r = .error .ECONNRESET) (hc : h.close true true w = .ok w') :
      ProbeOutcome h size r w (.ok 0) w'
  | failed {e : Errno} {w : W} (he : e ≠ .ECONNRESET) : ProbeOutcome h size (.error e) w (.error e) w
  | eos {n : Nat} {w w' : W} (hsize : size = 0) (hc : h.close false true (h.setProbed (true, size) w) = .ok w') :
      ProbeOutcome h size (.ok (n + 1)) w (.ok 0) w'
  | header {n : Nat} {w : W} (hsize : size ≠ 0) :
      ProbeOutcome h size (.ok (n + 1)) w (.ok (n + 1)) (h.setProbed (true, size) w)

/-- What `HandleUser::probe` does: it answers from what is known already, or it calls `probe` of the handle once. -/
theorem probe_cases {u u' : HandleUser H} {size size' : Nat} {blocking : Bool} {w w' : W} {r : Ret}
    (h : u.probe vt size blocking w = .ok (r, size', u', w')) :
    ∃ id b, u.realHandle = some id ∧ u'.realHandle = some id ∧ (vt id).base w = .ok b ∧
      ((w' = w ∧ u' = { u with newConnection := false } ∧
          (b.probed.1 = true ∧ size' = b.probed.2 ∧ r = .ok (if b.probed.2 = 0 then 0 else sizeofSizeT) ∨
            b.probed.1 = false ∧ (u.isReadable = false ∨ b.closedRd = true) ∧ size' = size ∧ r = .ok 0)) ∨
        b.probed.1 = false ∧ u.isReadable = true ∧ b.closedRd = false ∧
          (∀ n, r = .ok (n + 1) → u'.isReadable = true) ∧
          ∃ r0 w0, (vt id).probe size blocking w = .ok (r0, size', w0) ∧ ProbeOutcome (vt id) size' r0 w0 r w') := by
  unfold probe at h
  obtain ⟨ch, hd, h⟩ := bind_eq_ok.1 h
  obtain ⟨id, hu, rfl⟩ := deref_eq_ok.1 hd
  obtain ⟨b, hb, h⟩ := bind_eq_ok.1 h
  refine ⟨id, b, hu, ?_⟩
  by_cases hp : b.probed.1 = true
  · rw [if_pos hp] at h
    cases h
    exact ⟨hu, hb, Or.inl ⟨rfl, rfl, Or.inl ⟨hp, rfl, rfl⟩⟩⟩
  rw [if_neg hp] at h
  have hp' := Bool.eq_false_iff.2 hp
  by_cases hread : u.isReadable = true
  · rw [if_neg (by simp [hread])] at h
    by_cases hrd : b.closedRd = true
    · rw [if_pos hrd] at h
      cases h
      exact ⟨hu, hb, Or.inl ⟨rfl, rfl, Or.inr ⟨hp', Or.inr hrd, rfl, rfl⟩⟩⟩
    · rw [if_neg hrd] at h
      have hrd' := Bool.eq_false_iff.2 hrd
      obtain ⟨⟨r1, s1, w1⟩, h1, h⟩ := bind_eq_ok.1 h
      rcases r1 with e | n
      · simp only at h
        by_cases he : e = .ECONNRESET
        · rw [if_pos he] at h
          obtain ⟨w2, h2, h⟩ := bind_eq_ok.1 h
          cases h
          exact ⟨hu, hb, Or.inr ⟨hp', hread, hrd', nofun, _, _, h1, .closed (Or.inr (congrArg _ he)) h2⟩⟩
        · rw [if_neg he] at h
          cases h
          exact ⟨hu, hb, Or.inr ⟨hp', hread, hrd', nofun, _, _, h1, .failed he⟩⟩
      · cases n with
        | zero =>
          obtain ⟨w2, h2, h⟩ := bind_eq_ok.1 h
          cases h
          exact ⟨hu, hb, Or.inr ⟨hp', hread, hrd', nofun, _, _, h1, .closed (Or.inl rfl) h2⟩⟩
        | succ n =>
          simp only at h
          by_cases hsize : s1 = 0
          · rw [if_pos hsize] at h
            obtain ⟨w3, h3, h⟩ := bind_eq_ok.1 h
            cases h
            exact ⟨hu, hb, Or.inr ⟨hp', hread, hrd', nofun, _, _, h1, .eos hsize h3⟩⟩
          · rw [if_neg hsize] at h
            cases h
            exact ⟨hu, hb, Or.inr ⟨hp', hread, hrd', fun _ _ => hread, _, _, h1, .header hsize⟩⟩
  · rw [if_pos (by simp [hread])] at h
    cases h
    exact ⟨hu, hb, Or.inl ⟨rfl, rfl, Or.inr ⟨hp', Or.inl (Bool.eq_false_iff.2 hread), rfl, rfl⟩⟩⟩

/-- What the end of `HandleUser::receive` does: it leaves the message, or calls `receive` of the handle once. -/
theorem receiveProbed_cases {u u' : HandleUser H} {size : Nat} {w w' : W} {r : Ret} {bs : Bytes}
    (h : u.receiveProbed vt size w = .ok (r, bs, u', w')) :
    u' = u ∧ ∃ id b, u.realHandle = some id ∧ (vt id).base w = .ok b ∧
      (size < b.probed.2 ∧ r = .error .ENOMEM ∧ bs = [] ∧ w' = w ∨
        b.probed.2 ≤ size ∧ (vt id).receive b.probed.2 ((vt id).setProbed (false, 0) w) = .ok (r, bs, w')) := by
  unfold receiveProbed at h
  obtain ⟨ch, hd, h⟩ := bind_eq_ok.1 h
  obtain ⟨id, hu, rfl⟩ := deref_eq_ok.1 hd
  obtain ⟨b, hb, h⟩ := bind_eq_ok.1 h
  dsimp only at h
  by_cases hsize : size < b.probed.2
  · rw [if_pos hsize] at h
    cases h
    exact ⟨rfl, id, b, hu, hb, Or.inl ⟨hsize, rfl, rfl, rfl⟩⟩
  · have hle := Nat.le_of_not_lt hsize
    rw [if_neg hsize, Nat.min_eq_left hle] at h
    obtain ⟨⟨r1, bs1, w1⟩, h1, h⟩ := bind_eq_ok.1 h
    cases h
    exact ⟨rfl, id, b, hu, hb, Or.inr ⟨hle, h1⟩⟩

/-- What `HandleUser::receive` does: nothing, a blocking `probe` that finds no message, or the end of it, after such a
`probe` if the size was not known. -/
theorem receive_cases {u u' : HandleUser H} {size : Nat} {w w' : W} {r : Ret} {bs : Bytes}
    (h : u.receive vt size w = .ok (r, bs, u', w')) :
    ∃ id b, u.realHandle = some id ∧ (vt id).base w = .ok b ∧
      ((b.probed.1 = true ∧ (u.isReadable = false ∨ b.closedRd = true) ∧ r = .ok 0 ∧ bs = [] ∧
          u' = { u with newConnection := false } ∧ w' = w) ∨
        (b.probed.1 = true ∧ u.isReadable = true ∧ b.closedRd = false ∧
          ({ u with newConnection := false } : HandleUser H).receiveProbed vt size w = .ok (r, bs, u', w')) ∨
        b.probed.1 = false ∧ ∃ r0 size0 u0 w0, u.probe vt 0 true w = .ok (r0, size0, u0, w0) ∧
          (((∀ n, r0 ≠ .ok (n + 1)) ∧ r = r0 ∧ bs = [] ∧ u' = u0 ∧ w' = w0) ∨
            (∃ n, r0 = .ok (n + 1)) ∧ u0.receiveProbed vt size w0 = .ok (r, bs, u', w'))) := by
  unfold receive at h
  obtain ⟨ch, hd, h⟩ := bind_eq_ok.1 h
  obtain ⟨id, hu, rfl⟩ := deref_eq_ok.1 hd
  obtain ⟨b, hb, h⟩ := bind_eq_ok.1 h
  refine ⟨id, b, hu, hb, ?_⟩
  by_cases hp : b.probed.1 = true
  · rw [if_neg (by simp [hp])] at h
    dsimp only at h
    by_cases hread : u.isReadable = true
    · rw [if_neg (by simp [hread])] at h
      by_cases hrd : b.closedRd = true
      · rw [if_pos hrd] at h
        cases h
        exact Or.inl ⟨hp, Or.inr hrd, rfl, rfl, rfl, rfl⟩
      · rw [if_neg hrd] at h
        exact Or.inr (Or.inl ⟨hp, hread, Bool.eq_false_iff.2 hrd, h⟩)
    · rw [if_pos (by simp [hread])] at h
      cases h
      exact Or.inl ⟨hp, Or.inl (Bool.eq_false_iff.2 hread), rfl, rfl, rfl, rfl⟩
  · rw [if_pos (by simp [hp])] at h
    refine Or.inr (Or.inr ⟨Bool.eq_false_iff.2 hp, ?_⟩)
    obtain ⟨⟨r1, s1, u1, w1⟩, h1, h⟩ := bind_eq_ok.1 h
    refine ⟨r1, s1, u1, w1, h1, ?_⟩
    rcases r1 with e | n
    · cases h
      exact Or.inl ⟨nofun, rfl, rfl, rfl, rfl⟩
    · cases n with
      | zero =>
        cases h
        exact Or.inl ⟨nofun, rfl, rfl, rfl, rfl⟩
      | succ n => exact Or.inr ⟨⟨n, rfl⟩, h⟩

/-- `HandleUser::probe` makes an object unreadable only when it closes the read side of the handle. -/
theorem probe_unreadable {u u' : HandleUser H} {size size' : Nat} {blocking : Bool} {w w' : W} {r : Ret}
    (h : u.probe vt size blocking w = .ok (r, size', u', w')) :
    u'.isReadable = u.isReadable ∨ ∃ id wr w1, u.realHandle = some id ∧ (vt id).close wr true w1 = .ok w' := by
  unfold probe at h
  obtain ⟨ch, hd, h⟩ := bind_eq_ok.1 h
  obtain ⟨id, hu, rfl⟩ := deref_eq_ok.1 hd
  obtain ⟨b, -, h⟩ := bind_eq_ok.1 h
  split at h
  · cases h
    exact .inl rfl
  · split at h
    · cases h
      exact .inl rfl
    · split at h
      · cases h
        exact .inl rfl
      · obtain ⟨⟨r1, s1, w1⟩, -, h⟩ := bind_eq_ok.1 h
        rcases r1 with e | n
        · dsimp only at h
          split at h
          · obtain ⟨w2, h2, h⟩ := bind_eq_ok.1 h
            cases h
            exact .inr ⟨id, true, w1, hu, h2⟩
          · cases h
            exact .inl rfl
        · cases n with
          | zero =>
            obtain ⟨w2, h2, h⟩ := bind_eq_ok.1 h
            cases h
            exact .inr ⟨id, true, w1, hu, h2⟩
          | succ n =>
            dsimp only at h
            split at h
            · obtain ⟨w2, h2, h⟩ := bind_eq_ok.1 h
              cases h
              exact .inr ⟨id, false, _, hu, h2⟩
            · cases h
              exact .inl rfl

/-- The same for `HandleUser::receive`. -/
theorem receive_unreadable {u u' : HandleUser H} {size : Nat} {w w' : W} {r : Ret} {bs : Bytes}
    (h : u.receive vt size w = .ok (r, bs, u', w')) :
    u'.isReadable = u.isReadable ∨ ∃ id wr w1, u.realHandle = some id ∧ (vt id).close wr true w1 = .ok w' := by
  obtain ⟨id, b, -, -, h⟩ := receive_cases h
  rcases h with ⟨-, -, -, -, rfl, -⟩ | ⟨-, -, -, h⟩ | ⟨-, r0, size0, u0, w0, h0, h⟩
  · exact .inl rfl
  · obtain ⟨rfl, -⟩ := receiveProbed_cases h
    exact .inl rfl
  · rcases h with ⟨-, -, -, rfl, rfl⟩ | ⟨⟨n, rfl⟩, h⟩
    · exact probe_unreadable h0
    · obtain ⟨rfl, -⟩ := receiveProbed_cases h
      obtain ⟨_, _, -, -, -, hp⟩ := probe_cases h0
      rcases hp with ⟨-, rfl, -⟩ | ⟨-, hread, -, hread', -⟩
      · exact .inl rfl
      · exact .inl ((hread' n rfl).trans hread.symm)

/-! The handle a `HandleUser` refers to stays the same. -/

theorem probe_user {u u' : HandleUser H} {size size' : Nat} {blocking : Bool} {w w' : W} {r : Ret}
    (h : u.probe vt size blocking w = .ok (r, size', u', w')) : u'.realHandle = u.realHandle := by
  obtain ⟨id, b, hu, hu', -⟩ := probe_cases h
  rw [hu, hu']

theorem receive_user {u u' : HandleUser H} {size : Nat} {w w' : W} {r : Ret} {bs : Bytes}
    (h : u.receive vt size w = .ok (r, bs, u', w')) : u'.realHandle = u.realHandle := by
  obtain ⟨id, b, hu, -, h⟩ := receive_cases h
  rcases h with ⟨-, -, -, -, rfl, -⟩ | ⟨-, -, -, h⟩ | ⟨-, r0, size0, u0, w0, h0, h⟩
  · rfl
  · obtain ⟨rfl, -⟩ := receiveProbed_cases h
    rfl
  · rw [← probe_user h0]
    rcases h with ⟨-, -, -, rfl, -⟩ | ⟨-, h⟩
    · rfl
    · obtain ⟨rfl, -⟩ := receiveProbed_cases h
      rfl

theorem send_user {u u' : HandleUser H} {bs : Bytes} {w w' : W} {r : Ret} (h : u.send vt bs w = .ok (r, u', w')) :
    u'.realHandle = u.realHandle := by
  unfold send at h
  dsimp only at h
  split at h
  · cases h
    rfl
  · rename_i id hu
    obtain ⟨b, -, h⟩ := bind_eq_ok.1 h
    by_cases hwr : b.closedWr = true
    · rw [if_pos hwr] at h
      cases h
      rfl
    · rw [if_neg hwr] at h
      obtain ⟨⟨r1, w1⟩, -, h⟩ := bind_eq_ok.1 h
      cases h
      rfl

theorem yield_user {u u' : HandleUser H} {w w' : W} (h : u.yield vt w = .ok (u', w')) :
    u'.realHandle = u.realHandle := by
  unfold yield at h
  dsimp only at h
  split at h
  · cases h
    rfl
  · obtain ⟨w1, -, h⟩ := bind_eq_ok.1 h
    cases h
    rfl

theorem yield_keeps (hk : ∀ h, (vt h).Keeps I) {u u' : HandleUser H} {w w' : W} (hw : I w)
    (h : u.yield vt w = .ok (u', w')) : I w' := by
  unfold yield at h
  dsimp only at h
  split at h
  · cases h
    exact hw
  · obtain ⟨w1, h1, h2⟩ := bind_eq_ok.1 h
    cases h2
    exact (hk _).yield hw h1

theorem send_keeps (hk : ∀ h, (vt h).Keeps I) {u u' : HandleUser H} {bs : Bytes} {w w' : W} {r : Ret} (hw : I w)
    (h : u.send vt bs w = .ok (r, u', w')) : I w' := by
  unfold send at h
  dsimp only at h
  split at h
  · cases h
    exact hw
  · obtain ⟨b, -, h2⟩ := bind_eq_ok.1 h
    split at h2
    · cases h2
      exact hw
    · obtain ⟨⟨r1, w1⟩, h3, h4⟩ := bind_eq_ok.1 h2
      cases h4
      exact (hk _).send hw h3

/-- `probe` uses only the handle that it is called for. -/
theorem probe_keeps_own {u u' : HandleUser H} {size size' : Nat} {blocking : Bool} {w w' : W} {r : Ret}
    (hk : ∀ id, u.realHandle = some id → (vt id).Keeps I) (hw : I w)
    (h : u.probe vt size blocking w = .ok (r, size', u', w')) : I w' := by
  obtain ⟨id, b, hu, -, -, h⟩ := probe_cases h
  have hkid := hk id hu
  rcases h with ⟨rfl, -⟩ | ⟨-, -, -, -, r0, w0, h0, hout⟩
  · exact hw
  · have hw0 : I w0 := hkid.probe hw h0
    cases hout with
    | closed _ hc => exact hkid.close hw0 hc
    | failed _ => exact hw0
    | eos _ hc => exact hkid.close (hkid.setProbed _ _ hw0) hc
    | header _ => exact hkid.setProbed _ _ hw0

theorem probe_keeps (hk : ∀ h, (vt h).Keeps I) {u u' : HandleUser H} {size size' : Nat} {blocking : Bool} {w w' : W}
    {r : Ret} (hw : I w) (h : u.probe vt size blocking w = .ok (r, size', u', w')) : I w' :=
  probe_keeps_own (fun id _ => hk id) hw h

private theorem receiveProbed_keeps {u u' : HandleUser H} {size : Nat} {w w' : W} {r : Ret} {bs : Bytes}
    (hk : ∀ id, u.realHandle = some id → (vt id).Keeps I) (hw : I w)
    (h : u.receiveProbed vt size w = .ok (r, bs, u', w')) : I w' := by
  obtain ⟨-, id, b, hu, -, h⟩ := receiveProbed_cases h
  rcases h with ⟨-, -, -, rfl⟩ | ⟨-, h⟩
  · exact hw
  · exact (hk id hu).receive ((hk id hu).setProbed _ _ hw) h

/-- `receive` uses only the handle that it is called for. -/
theorem receive_keeps_own {u u' : HandleUser H} {size : Nat} {w w' : W} {r : Ret} {bs : Bytes}
    (hk : ∀ id, u.realHandle = some id → (vt id).Keeps I) (hw : I w) (h : u.receive vt size w = .ok (r, bs, u', w')) :
    I w' := by
  obtain ⟨id, b, -, -, h⟩ := receive_cases h
  rcases h with ⟨-, -, -, -, -, rfl⟩ | ⟨-, -, -, h⟩ | ⟨-, r0, size0, u0, w0, h0, h⟩
  · exact hw
  · exact receiveProbed_keeps (u := { u with newConnection := false }) hk hw h
  · have hw0 : I w0 := probe_keeps_own hk hw h0
    rcases h with ⟨-, -, -, -, rfl⟩ | ⟨-, h⟩
    · exact hw0
    · exact receiveProbed_keeps (fun id hid => hk id ((probe_user h0).symm.trans hid)) hw0 h

theorem receive_keeps (hk : ∀ h, (vt h).Keeps I) {u u' : HandleUser H} {size : Nat} {w w' : W} {r : Ret} {bs : Bytes}
    (hw : I w) (h : u.receive vt size w = .ok (r, bs, u', w')) : I w' :=
  receive_keeps_own (fun id _ => hk id) hw h

theorem close_keeps (hk : ∀ h, (vt h).Keeps I) {u : HandleUser H} {w w' : W} (hw : I w)
    (h : u.close vt w = .ok w') : I w' := by
  unfold close at h
  split at h
  · cases h
    exact hw
  · exact (hk _).close hw h

theorem destroy_keeps (hk : ∀ h, (vt h).Keeps I) {u : HandleUser H} {w w' : W} (hw : I w)
    (h : u.destroy vt w = .ok w') : I w' := by
  unfold destroy at h
  obtain ⟨w1, h1, h⟩ := bind_eq_ok.1 h
  have hw1 : I w1 := by
    split at h1
    · rcases hy : u.yield vt w with e | ⟨u2, w2⟩
      · rw [hy] at h1
        cases h1
      · rw [hy] at h1
        cases h1
        exact yield_keeps hk hw hy
    · cases h1
      exact hw
  split at h
  · cases h
    exact hw1
  · exact (hk _).decrementReferenceCounter hw1 h

end HandleUser

end Mtcl
