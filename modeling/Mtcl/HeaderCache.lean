import Mtcl.Collective.Context
import Mtcl.HandleMQTT
import Mtcl.HandleSHM
import Mtcl.Tcp.Invariant

/-!
# The header cache of a handle

`Handle::probed` is written by `HandleUser` and by the implementations of the collectives, never by the virtual
functions of the handle itself, and the read side is closed by `close` alone.  `Caches` says so of a table of
virtual functions, and holds of TCP, shared memory and MQTT, and of every context.

`WellCached` is what a handle keeps in its cache: no size without a header, and with EOS the read side has been closed.
-/

namespace Mtcl

variable {H W : Type}

/-- The cache is a member of the object that the virtual functions do not write, and the read side is closed by
`close`. -/
structure CommunicationHandle.Caches (h : CommunicationHandle W) : Prop where
  base_setProbed : ∀ pr w, h.base (h.setProbed pr w) = (h.base w).map fun b => { b with probed := pr }
  setProbed_self : ∀ {w b}, h.base w = .ok b → h.setProbed b.probed w = w
  setProbed_setProbed : ∀ pr pr' w, h.setProbed pr (h.setProbed pr' w) = h.setProbed pr w
  probe : ∀ {size blocking w r size' w' b'}, h.probe size blocking w = .ok (r, size', w') → h.base w' = .ok b' →
    ∃ b, h.base w = .ok b ∧ b'.probed = b.probed ∧ b'.closedRd = b.closedRd
  receive : ∀ {n w r bs w' b'}, h.receive n w = .ok (r, bs, w') → h.base w' = .ok b' →
    ∃ b, h.base w = .ok b ∧ b'.probed = b.probed ∧ b'.closedRd = b.closedRd
  close : ∀ {wr rd w w' b'}, h.close wr rd w = .ok w' → h.base w' = .ok b' →
    ∃ b, h.base w = .ok b ∧ b'.probed = b.probed ∧ b'.closedRd = (b.closedRd || rd)

/-- What holds of the cache in every state: there is no size without a header, and EOS has closed the read side. -/
def CommBase.WellCached (b : CommBase) : Prop :=
  (b.probed.1 = false → b.probed.2 = 0) ∧ (b.probed = (true, 0) → b.closedRd = true)

/-! ### TCP -/

theorem tcp_setProbed_handles (id : Nat) (pr : Bool × Nat) (p : Process) :
    ((tcpHandle id).setProbed pr p).handles id = { p.handles id with probed := pr } :=
  Process.put_handles_self ..

theorem tcp_caches (id : Nat) : (tcpHandle id).Caches where
  base_setProbed pr p := by
    show ((p.put id _).deref id >>= _) = Except.map _ (p.deref id >>= _)
    unfold Process.deref
    rw [Process.put_handles_self]
    by_cases hgone : p.allocated ≤ id ∨ (p.handles id).deleted = true
    · rw [if_pos hgone]
      exact congrArg (· >>= _) (if_pos hgone)
    · rw [if_neg hgone]
      exact congrArg (· >>= _) (if_neg hgone)
  setProbed_self := by
    intro p b hb
    obtain ⟨k, hk, hb⟩ := bind_eq_ok.1 hb
    obtain ⟨-, -, rfl⟩ := Process.deref_eq_ok.1 hk
    cases hb
    exact p.put_self id
  setProbed_setProbed pr pr' p := by
    have hput : (tcpHandle id).setProbed pr ((tcpHandle id).setProbed pr' p) =
        p.put id { ((tcpHandle id).setProbed pr' p).handles id with probed := pr } := p.put_put id _ _
    rw [hput, tcp_setProbed_handles]
    rfl
  probe := by
    intro size blocking p r size' p' b' hcall hb'
    obtain ⟨k, hk, hcall⟩ := bind_eq_ok.1 hcall
    obtain ⟨hid, hdel, rfl⟩ := Process.deref_eq_ok.1 hk
    obtain ⟨⟨r1, size1, k'⟩, hprobe, hcall⟩ := bind_eq_ok.1 hcall
    cases hcall
    obtain ⟨s, rfl⟩ := HandleTCP.probe_incoming hprobe
    obtain ⟨k2, hk2, hb'⟩ := bind_eq_ok.1 hb'
    obtain ⟨-, -, rfl⟩ := Process.deref_eq_ok.1 hk2
    cases hb'
    rw [Process.put_handles_self]
    exact ⟨_, bind_eq_ok.2 ⟨_, hk, rfl⟩, rfl, rfl⟩
  receive := by
    intro n p r bs p' b' hcall hb'
    obtain ⟨k, hk, hcall⟩ := bind_eq_ok.1 hcall
    obtain ⟨hid, hdel, rfl⟩ := Process.deref_eq_ok.1 hk
    obtain ⟨⟨r1, bs1, k'⟩, hrecv, hcall⟩ := bind_eq_ok.1 hcall
    cases hcall
    obtain ⟨s, rfl⟩ := HandleTCP.receive_incoming hrecv
    obtain ⟨k2, hk2, hb'⟩ := bind_eq_ok.1 hb'
    obtain ⟨-, -, rfl⟩ := Process.deref_eq_ok.1 hk2
    cases hb'
    rw [Process.put_handles_self]
    exact ⟨_, bind_eq_ok.2 ⟨_, hk, rfl⟩, rfl, rfl⟩
  close := by
    intro wr rd p p' b' hcall hb'
    obtain ⟨k, hk, hcall⟩ := bind_eq_ok.1 hcall
    obtain ⟨hid, hdel, rfl⟩ := Process.deref_eq_ok.1 hk
    cases hcall
    obtain ⟨k2, hk2, hb'⟩ := bind_eq_ok.1 hb'
    obtain ⟨-, -, rfl⟩ := Process.deref_eq_ok.1 hk2
    cases hb'
    obtain ⟨-, fd, wire, answers, eos, deleted, hh, -⟩ := p.closeHandle_handles id wr rd
    rw [hh, Function.update_self]
    exact ⟨_, bind_eq_ok.2 ⟨_, hk, rfl⟩, rfl, rfl⟩

/-! ### Contexts -/

theorem contextHandle_caches {C : Type} (impl : CollectiveImpl C W) : (contextHandle impl).Caches where
  base_setProbed pr s := by
    show (({ s.1 with probed := pr } : CollectiveContext C).deref >>= _) = Except.map _ (s.1.deref >>= _)
    unfold CollectiveContext.deref
    cases s.1.deleted <;> rfl
  setProbed_self := by
    intro s b hb
    obtain ⟨-, rfl⟩ := contextHandle_base.1 hb
    rfl
  setProbed_setProbed _ _ _ := rfl
  probe := by
    intro size blocking s r size' s' b' hcall hb'
    obtain ⟨hdel, coll, hs', -⟩ := contextHandle_probe hcall
    obtain ⟨-, rfl⟩ := contextHandle_base.1 hb'
    rw [hs']
    exact ⟨_, contextHandle_base.2 ⟨hdel, rfl⟩, rfl, rfl⟩
  receive := by
    intro n s r bs s' b' hcall hb'
    obtain ⟨hdel, coll, hs', -⟩ := contextHandle_receive hcall
    obtain ⟨-, rfl⟩ := contextHandle_base.1 hb'
    rw [hs']
    exact ⟨_, contextHandle_base.2 ⟨hdel, rfl⟩, rfl, rfl⟩
  close := by
    intro wr rd s s' b' hcall hb'
    obtain ⟨hdel, coll, hs', -⟩ := contextHandle_close hcall
    obtain ⟨-, rfl⟩ := contextHandle_base.1 hb'
    rw [hs']
    exact ⟨_, contextHandle_base.2 ⟨hdel, rfl⟩, rfl, rfl⟩

/-! ### Shared memory and MQTT -/

namespace HandleSHM

theorem deref_eq_ok {h k : HandleSHM} : h.deref = .ok k ↔ h.deleted = false ∧ h = k := by
  unfold deref
  cases h.deleted <;> simp

theorem base_eq_ok {h : HandleSHM} {b : CommBase} :
    shmHandle.base h = .ok b ↔ h.deleted = false ∧ b = h.toCommBase := by
  show (h.deref >>= fun h => .ok h.toCommBase) = .ok b ↔ _
  unfold deref
  cases h.deleted <;> simp [bind, Except.bind, eq_comm]

private theorem probe_cache {h h' : HandleSHM} {size size' : Nat} {blocking : Bool} {r : Ret}
    (hcall : h.probe size blocking = .ok (r, size', h')) : ∃ b, h' = { h with inBuf := b } := by
  obtain ⟨⟨r1, b⟩, -, hcall⟩ := bind_eq_ok.1 hcall
  cases r1 <;> cases hcall <;> exact ⟨b, rfl⟩

private theorem close_cache (h : HandleSHM) (wr rd : Bool) :
    (h.close wr rd).probed = h.probed ∧ (h.close wr rd).closedRd = (h.closedRd || rd) := by
  have hdelete : ∀ k : HandleSHM, k.deleteUnused.probed = k.probed ∧ k.deleteUnused.closedRd = k.closedRd := by
    intro k
    unfold deleteUnused
    split <;> exact ⟨rfl, rfl⟩
  have hnotify : ∀ (k : HandleSHM) (a b : Bool), (k.notifyClose a b).probed = k.probed ∧
      (k.notifyClose a b).closedRd = k.closedRd := by
    intro k a b
    cases a <;> cases b <;> exact ⟨rfl, rfl⟩
  unfold close
  dsimp only
  rw [(hdelete _).1, (hdelete _).2, (hnotify ..).1, (hnotify ..).2]
  cases rd <;> cases hw : (wr && !h.closedWr) <;> simp [sendEOS]

end HandleSHM

theorem shm_caches : shmHandle.Caches where
  base_setProbed pr h := by
    show (({ h with probed := pr } : HandleSHM).deref >>= _) = Except.map _ (h.deref >>= _)
    unfold HandleSHM.deref
    cases h.deleted <;> rfl
  setProbed_self := by
    intro h b hb
    obtain ⟨-, rfl⟩ := HandleSHM.base_eq_ok.1 hb
    rfl
  setProbed_setProbed _ _ _ := rfl
  probe := by
    intro size blocking h r size' h' b' hcall hb'
    obtain ⟨k, hk, hcall⟩ := bind_eq_ok.1 hcall
    obtain ⟨hdel, rfl⟩ := HandleSHM.deref_eq_ok.1 hk
    obtain ⟨b, rfl⟩ := HandleSHM.probe_cache hcall
    obtain ⟨-, rfl⟩ := HandleSHM.base_eq_ok.1 hb'
    exact ⟨_, HandleSHM.base_eq_ok.2 ⟨hdel, rfl⟩, rfl, rfl⟩
  receive := by
    intro n h r bs h' b' hcall hb'
    obtain ⟨k, hk, hcall⟩ := bind_eq_ok.1 hcall
    obtain ⟨hdel, rfl⟩ := HandleSHM.deref_eq_ok.1 hk
    obtain ⟨⟨r1, bs1, b⟩, -, hcall⟩ := bind_eq_ok.1 hcall
    cases hcall
    obtain ⟨-, rfl⟩ := HandleSHM.base_eq_ok.1 hb'
    exact ⟨_, HandleSHM.base_eq_ok.2 ⟨hdel, rfl⟩, rfl, rfl⟩
  close := by
    intro wr rd h h' b' hcall hb'
    obtain ⟨k, hk, hcall⟩ := bind_eq_ok.1 hcall
    obtain ⟨hdel, rfl⟩ := HandleSHM.deref_eq_ok.1 hk
    cases hcall
    obtain ⟨-, rfl⟩ := HandleSHM.base_eq_ok.1 hb'
    exact ⟨_, HandleSHM.base_eq_ok.2 ⟨hdel, rfl⟩, HandleSHM.close_cache h wr rd⟩

/-- The header of a message stays in the slot until the message is received. -/
theorem shm_kept {h : HandleSHM} (hdel : h.deleted = false) (hmap : h.inBuf.shmp = true)
    (hguard : h.inBuf.seg.guard = true) (size : Nat) (blocking : Bool) :
    shmHandle.probe size blocking (shmHandle.setProbed (false, 0) h) =
      .ok (.ok sizeofSizeT, h.inBuf.seg.size, shmHandle.setProbed (false, 0) h) := by
  have hderef : (shmHandle.setProbed (false, 0) h).deref = .ok (shmHandle.setProbed (false, 0) h) :=
    HandleSHM.deref_eq_ok.2 ⟨hdel, rfl⟩
  have hlook : h.inBuf.look = h.inBuf := if_pos hguard
  have hawait : h.inBuf.await = .ok h.inBuf := if_pos hguard
  have hget : h.inBuf.getsize = .ok (.ok h.inBuf.seg.size, h.inBuf) := by
    unfold ShmBuffer.getsize
    rw [if_neg (by simp [hmap]), hawait]
    rfl
  have htry : h.inBuf.trygetsize = (.ok h.inBuf.seg.size, h.inBuf) := by
    unfold ShmBuffer.trygetsize
    rw [if_neg (by simp [hmap]), hlook, if_pos hguard]
  show ((shmHandle.setProbed (false, 0) h).deref >>= fun k => k.probe size blocking) = _
  rw [hderef, bind_ok]
  cases blocking with
  | true =>
    show (h.inBuf.getsize >>= _) = _
    rw [hget]
    rfl
  | false =>
    show (Except.ok h.inBuf.trygetsize >>= _) = _
    rw [htry]
    rfl

namespace HandleMQTT

theorem deref_eq_ok {h k : HandleMQTT} : h.deref = .ok k ↔ h.deleted = false ∧ h = k := by
  unfold deref
  cases h.deleted <;> simp

theorem base_eq_ok {garbage : Nat → UInt8} {h : HandleMQTT} {b : CommBase} :
    (mqttHandle garbage).base h = .ok b ↔ h.deleted = false ∧ b = h.toCommBase := by
  show (h.deref >>= fun h => .ok h.toCommBase) = .ok b ↔ _
  unfold deref
  cases h.deleted <;> simp [bind, Except.bind, eq_comm]

private theorem receive_cache {h h' : HandleMQTT} {n : Nat} {r : Ret} {bs : Bytes}
    (hcall : h.receive n = .ok (r, bs, h')) : h'.toCommBase = h.toCommBase := by
  unfold receive at hcall
  dsimp only at hcall
  cases hm : h.messages with
  | nil =>
    rw [hm] at hcall
    obtain ⟨⟨bs1, client⟩, -, hcall⟩ := bind_eq_ok.1 hcall
    cases hcall
    rfl
  | cons m ms =>
    rw [hm] at hcall
    dsimp only at hcall
    by_cases hsize : n < m.length
    · rw [if_pos hsize] at hcall
      cases hcall
    · rw [if_neg hsize] at hcall
      cases hcall
      rfl

private theorem probe_cache {garbage : Nat → UInt8} {h h' : HandleMQTT} {size size' : Nat} {blocking : Bool} {r : Ret}
    (hcall : h.probe garbage size blocking = .ok (r, size', h')) : h'.toCommBase = h.toCommBase := by
  unfold probe at hcall
  by_cases hp : h.isProbed = true
  · rw [if_pos hp] at hcall
    cases hm : h.messages with
    | nil =>
      rw [hm] at hcall
      cases hcall
    | cons m ms =>
      rw [hm] at hcall
      obtain ⟨bs, -, hcall⟩ := bind_eq_ok.1 hcall
      cases hcall
      rfl
  · rw [if_neg hp] at hcall
    cases blocking with
    | true =>
      rw [if_pos rfl] at hcall
      obtain ⟨⟨r1, bs, k⟩, hrecv, hcall⟩ := bind_eq_ok.1 hcall
      cases hcall
      have hbase : k.toCommBase = h.toCommBase := receive_cache hrecv
      exact hbase
    | false =>
      rw [if_neg Bool.false_ne_true] at hcall
      cases hc : h.client with
      | nil =>
        rw [hc] at hcall
        cases hcall
        rfl
      | cons x client =>
        rw [hc] at hcall
        obtain ⟨bs, -, hcall⟩ := bind_eq_ok.1 hcall
        cases hcall
        rfl

private theorem close_cache (h : HandleMQTT) (wr rd : Bool) :
    (h.close wr rd).probed = h.probed ∧ (h.close wr rd).closedRd = (h.closedRd || rd) := by
  have hdelete : ∀ k : HandleMQTT, k.deleteUnused.probed = k.probed ∧ k.deleteUnused.closedRd = k.closedRd := by
    intro k
    unfold deleteUnused
    split <;> exact ⟨rfl, rfl⟩
  have hnotify : ∀ (k : HandleMQTT) (b : Bool), (k.notifyClose b).probed = k.probed ∧
      (k.notifyClose b).closedRd = k.closedRd := by
    intro k b
    cases b <;> exact ⟨rfl, rfl⟩
  unfold close
  dsimp only
  rw [(hdelete _).1, (hdelete _).2, (hnotify ..).1, (hnotify ..).2]
  cases rd <;> cases hw : (wr && !h.closedWr) <;> simp [sendEOS]

end HandleMQTT

theorem mqtt_caches (garbage : Nat → UInt8) : (mqttHandle garbage).Caches where
  base_setProbed pr h := by
    show (({ h with probed := pr } : HandleMQTT).deref >>= _) = Except.map _ (h.deref >>= _)
    unfold HandleMQTT.deref
    cases h.deleted <;> rfl
  setProbed_self := by
    intro h b hb
    obtain ⟨-, rfl⟩ := HandleMQTT.base_eq_ok.1 hb
    rfl
  setProbed_setProbed _ _ _ := rfl
  probe := by
    intro size blocking h r size' h' b' hcall hb'
    obtain ⟨k, hk, hcall⟩ := bind_eq_ok.1 hcall
    obtain ⟨hdel, rfl⟩ := HandleMQTT.deref_eq_ok.1 hk
    obtain ⟨-, rfl⟩ := HandleMQTT.base_eq_ok.1 hb'
    rw [HandleMQTT.probe_cache hcall]
    exact ⟨_, HandleMQTT.base_eq_ok.2 ⟨hdel, rfl⟩, rfl, rfl⟩
  receive := by
    intro n h r bs h' b' hcall hb'
    obtain ⟨k, hk, hcall⟩ := bind_eq_ok.1 hcall
    obtain ⟨hdel, rfl⟩ := HandleMQTT.deref_eq_ok.1 hk
    obtain ⟨-, rfl⟩ := HandleMQTT.base_eq_ok.1 hb'
    rw [HandleMQTT.receive_cache hcall]
    exact ⟨_, HandleMQTT.base_eq_ok.2 ⟨hdel, rfl⟩, rfl, rfl⟩
  close := by
    intro wr rd h h' b' hcall hb'
    obtain ⟨k, hk, hcall⟩ := bind_eq_ok.1 hcall
    obtain ⟨hdel, rfl⟩ := HandleMQTT.deref_eq_ok.1 hk
    cases hcall
    obtain ⟨-, rfl⟩ := HandleMQTT.base_eq_ok.1 hb'
    exact ⟨_, HandleMQTT.base_eq_ok.2 ⟨hdel, rfl⟩, HandleMQTT.close_cache h wr rd⟩

end Mtcl
