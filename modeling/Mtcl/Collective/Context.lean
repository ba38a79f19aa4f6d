import Mtcl.Handle

/-!
# Contexts of collectives

A `CollectiveContext` is the handle of a team: it has the flags and the header cache of every handle, and passes its
calls on to the implementation of the collective, which works on the handles of the other members (the participants).
`CollectiveImpl C W` is the table of virtual functions of an implementation with data members `C` whose participants
live in a world `W`.
-/

namespace Mtcl

inductive HandleType
  | BROADCAST | FANIN | FANOUT | GATHER | P2P | INVALID_TYPE
  deriving DecidableEq, Repr

variable {H C W : Type}

/-! ### Implementations -/

/-- The virtual functions of one implementation of a collective. -/
structure CollectiveImpl (C W : Type) where
  probe : Nat → Bool → C → W → Except Stop (Ret × Nat × C × W)
  receive : Nat → C → W → Except Stop (Ret × Bytes × C × W)
  send : Bytes → C → W → Except Stop (Ret × C × W)
  close : Bool → Bool → C → W → Except Stop (C × W)

/-- `CollectiveImpl::probeHandle`.  A participant is never null. -/
def probeHandle (vt : H → CommunicationHandle W) (realHandle : H) (size : Nat) (blocking : Bool) (w : W) :
    Except Stop (Ret × Nat × W) := do
  let h := vt realHandle
  let b ← h.base w
  if b.probed.1 then
    return (.ok (if b.probed.2 = 0 then 0 else sizeofSizeT), b.probed.2, w)
  else if b.closedRd then
    return (.ok 0, size, w)
  else
    let (r, size, w) ← h.probe size blocking w
    match r with
    | .ok 0 =>
      let w ← h.close true true w
      return (.ok 0, size, w)
    | .error e =>
      if e = .ECONNRESET then
        let w ← h.close true true w
        return (.ok 0, size, w)
      else
        return (.error e, size, w)
    | .ok (n + 1) =>
      let w := h.setProbed (true, size) w
      if size = 0 then
        -- EOS received
        let w ← h.close false true w
        return (.ok 0, size, w)
      else
        return (.ok (n + 1), size, w)

/-- The end of `CollectiveImpl::receiveFromHandle`, once the header has been read. -/
def receiveProbedFromHandle (vt : H → CommunicationHandle W) (realHandle : H) (size : Nat) (w : W) :
    Except Stop (Ret × Bytes × W) := do
  let h := vt realHandle
  let b ← h.base w
  let sz := b.probed.2
  if size < sz then
    return (.error .ENOMEM, [], w)
  else
    h.receive (min sz size) (h.setProbed (false, 0) w)

/-- `CollectiveImpl::receiveFromHandle`. -/
def receiveFromHandle (vt : H → CommunicationHandle W) (realHandle : H) (size : Nat) (w : W) :
    Except Stop (Ret × Bytes × W) := do
  let h := vt realHandle
  let b ← h.base w
  if !b.probed.1 then
    -- the initial value of `sz` is not used
    let (r, _, w) ← probeHandle vt realHandle 0 true w
    match r with
    | .ok (_ + 1) => receiveProbedFromHandle vt realHandle size w
    | r => return (r, [], w)
  else if b.closedRd then
    return (.ok 0, [], w)
  else
    receiveProbedFromHandle vt realHandle size w

/-! ### The context -/

/-- An object of class `CollectiveContext`, with its entry in `Manager::contexts`. -/
structure CollectiveContext (C : Type) extends CommBase where
  coll : C
  canSend : Bool := false
  canReceive : Bool := false
  toManage : Bool := false
  deleted : Bool := false
  deriving Repr

namespace CollectiveContext

/-- The constructor. -/
def mk' (canSend canReceive : Bool) (coll : C) : CollectiveContext C where
  closedRd := !canReceive
  closedWr := !canSend
  counter := 1
  coll := coll
  canSend := canSend
  canReceive := canReceive

/-- `createContext`, with its implementation set. -/
def createContext (type : HandleType) (root : Bool) (coll : C) : Option (CollectiveContext C) :=
  match type with
  | .BROADCAST => some (mk' false false coll)
  | .FANIN => some (mk' (!root) root coll)
  | .FANOUT => some (mk' root (!root) coll)
  | .GATHER => some (mk' false false coll)
  | .P2P => none
  | .INVALID_TYPE => none

variable (impl : CollectiveImpl C W) (c : CollectiveContext C) (w : W)

/-- The object, while it exists. -/
def deref : Except Stop (CollectiveContext C) := if c.deleted then .error .useAfterFree else .ok c

variable {c} in
theorem deref_of (h : c.deleted = false) : c.deref = .ok c := if_neg (Bool.eq_false_iff.1 h)

/-- `CollectiveContext::receive`. -/
def receive (size : Nat) : Except Stop (Ret × Bytes × CollectiveContext C × W) :=
  if !c.canReceive then .ok (.error .EINVAL, [], c, w)
  else do
    let (r, bs, coll, w) ← impl.receive size c.coll w
    return (r, bs, { c with coll := coll }, w)

/-- `CollectiveContext::send`. -/
def send (buff : Bytes) : Except Stop (Ret × CollectiveContext C × W) :=
  if !c.canSend then .ok (.error .EINVAL, c, w)
  else do
    let (r, coll, w) ← impl.send buff c.coll w
    return (r, { c with coll := coll }, w)

/-- `CollectiveContext::probe`. -/
def probe (size : Nat) (blocking : Bool) : Except Stop (Ret × Nat × CollectiveContext C × W) :=
  if !c.canReceive then .ok (.error .EINVAL, size, c, w)
  else do
    let (r, size, coll, w) ← impl.probe size blocking c.coll w
    return (r, size, { c with coll := coll }, w)

/-- `CollectiveContext::close`. -/
def close (closeWr closeRd : Bool) : Except Stop (CollectiveContext C × W) := do
  let c := { c with closedRd := c.closedRd || closeRd }
  let (coll, w) ← impl.close (closeWr && !c.closedWr) closeRd c.coll w
  return ({ c with coll := coll, closedWr := c.closedWr || closeWr }, w)

/-- `CollectiveContext::sendrecv`, with `f` for the call of the implementation; it does not look at the flags. -/
def sendrecv {β : Type} (f : C → W → Except Stop (Ret × β × C × W)) :
    Except Stop (Ret × β × CollectiveContext C × W) := do
  let (r, b, coll, w) ← f c.coll w
  return (r, b, { c with coll := coll }, w)

/-- `CollectiveContext::yield`. -/
def yield : CollectiveContext C := if !c.closedRd && c.canReceive then { c with toManage := true } else c

/-- `CollectiveContext::decrementReferenceCounter`. -/
def decrement : CollectiveContext C :=
  let c := { c with counter := c.counter - 1 }
  if c.counter = 0 ∧ c.closedWr = true ∧ c.closedRd = true then { c with deleted := true } else c

end CollectiveContext

/-- The virtual functions of a context. -/
def contextHandle (impl : CollectiveImpl C W) : CommunicationHandle (CollectiveContext C × W) where
  base s := do
    let c ← s.1.deref
    return c.toCommBase
  setProbed pr s := ({ s.1 with probed := pr }, s.2)
  probe size blocking s := do
    let c ← s.1.deref
    let (r, size, c, w) ← c.probe impl s.2 size blocking
    return (r, size, (c, w))
  receive n s := do
    let c ← s.1.deref
    let (r, bs, c, w) ← c.receive impl s.2 n
    return (r, bs, (c, w))
  send bs s := do
    let c ← s.1.deref
    let (r, c, w) ← c.send impl s.2 bs
    return (r, (c, w))
  close wr rd s := do
    let c ← s.1.deref
    c.close impl s.2 wr rd
  yield s := do
    let c ← s.1.deref
    return (c.yield, s.2)
  incrementReferenceCounter s := do
    let c ← s.1.deref
    return ({ c with counter := c.counter + 1 }, s.2)
  decrementReferenceCounter s := do
    let c ← s.1.deref
    return (c.decrement, s.2)

/-- The object that `Manager::createTeam` returns. -/
def teamUser : HandleUser Unit := ⟨some (), true, true⟩

/-- `HandleUser::sendrecv` on a context, with `f` for the call of the implementation. -/
def HandleUser.sendrecv {β : Type} (f : C → W → Except Stop (Ret × β × C × W)) (u : HandleUser Unit)
    (s : CollectiveContext C × W) : Except Stop (Ret × β × (CollectiveContext C × W)) :=
  match u.realHandle with
  | none => .error .nullDereference
  | some _ => do
    let c ← s.1.deref
    let (r, b, c, w) ← ({ c with probed := (false, 0) } : CollectiveContext C).sendrecv s.2 f
    return (r, b, (c, w))

/-! ### What a context changes of itself -/

section

variable {impl : CollectiveImpl C W} {s s' : CollectiveContext C × W}

theorem CollectiveContext.deref_eq_ok {c c' : CollectiveContext C} : c.deref = .ok c' ↔ c.deleted = false ∧ c' = c := by
  unfold CollectiveContext.deref
  cases c.deleted <;> simp [eq_comm]

theorem contextHandle_base {b : CommBase} :
    (contextHandle impl).base s = .ok b ↔ s.1.deleted = false ∧ b = s.1.toCommBase := by
  constructor
  · intro h
    obtain ⟨c, hd, h⟩ := bind_eq_ok.1 h
    obtain ⟨hdel, rfl⟩ := CollectiveContext.deref_eq_ok.1 hd
    exact ⟨hdel, (Except.ok.inj h).symm⟩
  · rintro ⟨hdel, rfl⟩
    change (s.1.deref >>= _) = _
    rw [CollectiveContext.deref_of hdel]
    rfl

/-- `probe` and `receive` change nothing of the context but the implementation. -/
theorem contextHandle_probe {size size' : Nat} {blocking : Bool} {r : Ret}
    (h : (contextHandle impl).probe size blocking s = .ok (r, size', s')) :
    s.1.deleted = false ∧ ∃ coll, s'.1 = { s.1 with coll := coll } ∧
      ((s.1.canReceive = false ∧ r = .error .EINVAL ∧ s' = s) ∨
        s.1.canReceive = true ∧ impl.probe size blocking s.1.coll s.2 = .ok (r, size', coll, s'.2)) := by
  obtain ⟨c, hd, h⟩ := bind_eq_ok.1 h
  obtain ⟨hdel, rfl⟩ := CollectiveContext.deref_eq_ok.1 hd
  obtain ⟨⟨r1, size1, c1, w1⟩, h1, h⟩ := bind_eq_ok.1 h
  cases h
  unfold CollectiveContext.probe at h1
  by_cases hcan : s.1.canReceive = true
  · rw [if_neg (by simp [hcan])] at h1
    obtain ⟨⟨r2, size2, coll, w2⟩, h2, h1⟩ := bind_eq_ok.1 h1
    cases h1
    exact ⟨hdel, coll, rfl, Or.inr ⟨hcan, h2⟩⟩
  · rw [if_pos (by simp [hcan])] at h1
    cases h1
    exact ⟨hdel, s.1.coll, rfl, Or.inl ⟨Bool.eq_false_iff.2 hcan, rfl, rfl⟩⟩

theorem contextHandle_receive {n : Nat} {r : Ret} {bs : Bytes}
    (h : (contextHandle impl).receive n s = .ok (r, bs, s')) :
    s.1.deleted = false ∧ ∃ coll, s'.1 = { s.1 with coll := coll } ∧
      ((s.1.canReceive = false ∧ r = .error .EINVAL ∧ s' = s) ∨
        s.1.canReceive = true ∧ impl.receive n s.1.coll s.2 = .ok (r, bs, coll, s'.2)) := by
  obtain ⟨c, hd, h⟩ := bind_eq_ok.1 h
  obtain ⟨hdel, rfl⟩ := CollectiveContext.deref_eq_ok.1 hd
  obtain ⟨⟨r1, bs1, c1, w1⟩, h1, h⟩ := bind_eq_ok.1 h
  cases h
  unfold CollectiveContext.receive at h1
  by_cases hcan : s.1.canReceive = true
  · rw [if_neg (by simp [hcan])] at h1
    obtain ⟨⟨r2, bs2, coll, w2⟩, h2, h1⟩ := bind_eq_ok.1 h1
    cases h1
    exact ⟨hdel, coll, rfl, Or.inr ⟨hcan, h2⟩⟩
  · rw [if_pos (by simp [hcan])] at h1
    cases h1
    exact ⟨hdel, s.1.coll, rfl, Or.inl ⟨Bool.eq_false_iff.2 hcan, rfl, rfl⟩⟩

/-! ### What a context passes on -/

theorem contextHandle_probe_of {size size' : Nat} {blocking : Bool} {r : Ret} {coll : C} {w : W}
    (hd : s.1.deleted = false) (hc : s.1.canReceive = true)
    (h : impl.probe size blocking s.1.coll s.2 = .ok (r, size', coll, w)) :
    (contextHandle impl).probe size blocking s = .ok (r, size', ({ s.1 with coll := coll }, w)) := by
  change (s.1.deref >>= fun c => c.probe impl s.2 size blocking >>= _) = _
  rw [CollectiveContext.deref_of hd, bind_ok, CollectiveContext.probe, if_neg (by simp [hc]), h]
  rfl

theorem contextHandle_probe_error {size : Nat} {blocking : Bool} {st : Stop} (hd : s.1.deleted = false)
    (hc : s.1.canReceive = true) (h : impl.probe size blocking s.1.coll s.2 = .error st) :
    (contextHandle impl).probe size blocking s = .error st := by
  change (s.1.deref >>= fun c => c.probe impl s.2 size blocking >>= _) = _
  rw [CollectiveContext.deref_of hd, bind_ok, CollectiveContext.probe, if_neg (by simp [hc]), h]
  rfl

theorem contextHandle_receive_of {n : Nat} {r : Ret} {bs : Bytes} {coll : C} {w : W} (hd : s.1.deleted = false)
    (hc : s.1.canReceive = true) (h : impl.receive n s.1.coll s.2 = .ok (r, bs, coll, w)) :
    (contextHandle impl).receive n s = .ok (r, bs, ({ s.1 with coll := coll }, w)) := by
  change (s.1.deref >>= fun c => c.receive impl s.2 n >>= _) = _
  rw [CollectiveContext.deref_of hd, bind_ok, CollectiveContext.receive, if_neg (by simp [hc]), h]
  rfl

theorem contextHandle_send_of {bs : Bytes} {r : Ret} {coll : C} {w : W} (hd : s.1.deleted = false)
    (hc : s.1.canSend = true) (h : impl.send bs s.1.coll s.2 = .ok (r, coll, w)) :
    (contextHandle impl).send bs s = .ok (r, ({ s.1 with coll := coll }, w)) := by
  change (s.1.deref >>= fun c => c.send impl s.2 bs >>= _) = _
  rw [CollectiveContext.deref_of hd, bind_ok, CollectiveContext.send, if_neg (by simp [hc]), h]
  rfl

theorem contextHandle_close_of {wr rd : Bool} {coll : C} {w : W} (hd : s.1.deleted = false)
    (h : impl.close (wr && !s.1.closedWr) rd s.1.coll s.2 = .ok (coll, w)) :
    (contextHandle impl).close wr rd s =
      .ok ({ s.1 with coll := coll, closedRd := s.1.closedRd || rd, closedWr := s.1.closedWr || wr }, w) := by
  change (s.1.deref >>= fun c => c.close impl s.2 wr rd) = _
  rw [CollectiveContext.deref_of hd, bind_ok, CollectiveContext.close]
  change (impl.close (wr && !s.1.closedWr) rd s.1.coll s.2 >>= _) = _
  rw [h]
  rfl

/-- `sendrecv` calls the implementation once, and changes nothing else of the context but the cache. -/
theorem HandleUser.sendrecv_cases {β : Type} {f : C → W → Except Stop (Ret × β × C × W)} {u : HandleUser Unit} {r : Ret}
    {b : β} (h : u.sendrecv f s = .ok (r, b, s')) :
    ∃ coll, f s.1.coll s.2 = .ok (r, b, coll, s'.2) ∧ s'.1 = { s.1 with probed := (false, 0), coll := coll } := by
  unfold HandleUser.sendrecv at h
  split at h
  · cases h
  · obtain ⟨c, hd, h⟩ := bind_eq_ok.1 h
    obtain ⟨-, rfl⟩ := CollectiveContext.deref_eq_ok.1 hd
    obtain ⟨⟨r1, b1, c1, w1⟩, h1, h⟩ := bind_eq_ok.1 h
    cases h
    obtain ⟨⟨r2, b2, coll, w2⟩, h2, h1⟩ := bind_eq_ok.1 h1
    cases h1
    exact ⟨coll, h2, rfl⟩

theorem HandleUser.sendrecv_of {β : Type} {f : C → W → Except Stop (Ret × β × C × W)} {r : Ret} {b : β}
    {coll : C} {w : W} (hd : s.1.deleted = false) (h : f s.1.coll s.2 = .ok (r, b, coll, w)) :
    teamUser.sendrecv f s = .ok (r, b, ({ s.1 with probed := (false, 0), coll := coll }, w)) := by
  change (s.1.deref >>= fun c => ({ c with probed := (false, 0) } : CollectiveContext C).sendrecv s.2 f >>= _) = _
  rw [CollectiveContext.deref_of hd, bind_ok, CollectiveContext.sendrecv]
  change ((f s.1.coll s.2 >>= _) >>= _) = _
  rw [h]
  rfl

/-- A successful `send` is one of the implementation. -/
theorem contextHandle_send_ok {bs : Bytes} {n : Nat} (h : (contextHandle impl).send bs s = .ok (.ok n, s')) :
    ∃ coll, s'.1 = { s.1 with coll := coll } ∧ impl.send bs s.1.coll s.2 = .ok (.ok n, coll, s'.2) := by
  obtain ⟨c, hd, h⟩ := bind_eq_ok.1 h
  obtain ⟨-, rfl⟩ := CollectiveContext.deref_eq_ok.1 hd
  obtain ⟨⟨r1, c1, w1⟩, h1, h⟩ := bind_eq_ok.1 h
  cases h
  unfold CollectiveContext.send at h1
  by_cases hcan : s.1.canSend = true
  · rw [if_neg (by simp [hcan])] at h1
    obtain ⟨⟨r2, coll, w2⟩, h2, h1⟩ := bind_eq_ok.1 h1
    cases h1
    exact ⟨coll, rfl, h2⟩
  · rw [if_pos (by simp [hcan])] at h1
    cases h1

/-- `close` closes the implementation and sets the flags. -/
theorem contextHandle_close {wr rd : Bool} (h : (contextHandle impl).close wr rd s = .ok s') :
    s.1.deleted = false ∧ ∃ coll, s'.1 = { s.1 with coll := coll, closedRd := s.1.closedRd || rd,
                                                     closedWr := s.1.closedWr || wr } ∧
      impl.close (wr && !s.1.closedWr) rd s.1.coll s.2 = .ok (coll, s'.2) := by
  obtain ⟨c, hd, h⟩ := bind_eq_ok.1 h
  obtain ⟨hdel, rfl⟩ := CollectiveContext.deref_eq_ok.1 hd
  obtain ⟨⟨coll, w⟩, h1, h⟩ := bind_eq_ok.1 h
  cases h
  exact ⟨hdel, coll, rfl, h1⟩

end

end Mtcl
