import Mtcl.Reading
import Mtcl.ShmBuffer

/-!
# `HandleSHM`

The virtual functions of a shared-memory handle: the header of a message is the size that stands in the slot of its
input buffer, so `probe` takes nothing away, and EOS is a message of size zero.  A handle is modelled with its entry in
the table of its connector, `ConnSHM`.

`shm_reads` says that the handle brings the messages of a list whose chunks the other side writes, for every
interleaving of the two, when no message is empty and the reader counts the chunks of each as the writer does.
-/

namespace Mtcl

open Sources

/-- An object of class `HandleSHM`, with its entry in `ConnSHM::connections` (`none` when it has been erased);
`inBuf` is the member `in`. -/
structure HandleSHM extends CommBase where
  inBuf : ShmBuffer
  out : ShmBuffer
  toManage : Option Bool := some false
  deleted : Bool := false

namespace HandleSHM

/-- `HandleSHM::sendEOS`; the pointer that is passed is not null. -/
def sendEOS (h : HandleSHM) : Ret × HandleSHM := ((h.out.put []).1, { h with out := (h.out.put []).2 })

/-- `HandleSHM::send` of a buffer that is not the null pointer. -/
def send (h : HandleSHM) (buff : Bytes) : Ret × HandleSHM := ((h.out.put buff).1, { h with out := (h.out.put buff).2 })

/-- `HandleSHM::probe`. -/
def probe (h : HandleSHM) (size : Nat) (blocking : Bool) : Except Stop (Ret × Nat × HandleSHM) := do
  let (r, b) ← (if blocking then h.inBuf.getsize else .ok h.inBuf.trygetsize)
  match r with
  | .error e => return (.error e, size, { h with inBuf := b })
  | .ok sz => return (.ok sizeofSizeT, sz, { h with inBuf := b })

/-- `HandleSHM::receive`. -/
def receive (h : HandleSHM) (size : Nat) : Except Stop (Ret × Bytes × HandleSHM) := do
  let (r, bs, b) ← h.inBuf.get size
  return (r, bs, { h with inBuf := b })

/-- `ConnSHM::notify_close`. -/
def notifyClose (h : HandleSHM) (closeWr closeRd : Bool) : HandleSHM :=
  let h := if closeWr then { h with out := h.out.close.2 } else h
  if closeRd then { h with toManage := none, inBuf := h.inBuf.close.2 } else h

/-- `ConnSHM::notify_yield`. -/
def notifyYield (h : HandleSHM) : HandleSHM := { h with toManage := h.toManage.map fun _ => true }

/-- `delete this`, when nothing refers to the handle and both its sides are closed. -/
def deleteUnused (h : HandleSHM) : HandleSHM :=
  if h.counter = 0 ∧ h.closedWr = true ∧ h.closedRd = true then { h with deleted := true } else h

/-- `Handle::close`. -/
def close (h : HandleSHM) (closeWr closeRd : Bool) : HandleSHM :=
  let h := if closeWr && !h.closedWr then { h.sendEOS.2 with closedWr := true } else h
  let h := if closeRd then { h with closedRd := true } else h
  (h.notifyClose h.closedWr h.closedRd).deleteUnused

/-- The object, while it exists. -/
def deref (h : HandleSHM) : Except Stop HandleSHM := if h.deleted then .error .useAfterFree else .ok h

end HandleSHM

/-- The virtual functions of the handle. -/
def shmHandle : CommunicationHandle HandleSHM where
  base h := do
    let h ← h.deref
    return h.toCommBase
  setProbed pr h := { h with probed := pr }
  probe size blocking h := do
    let h ← h.deref
    h.probe size blocking
  receive n h := do
    let h ← h.deref
    h.receive n
  send bs h := do
    let h ← h.deref
    return h.send bs
  close wr rd h := do
    let h ← h.deref
    return h.close wr rd
  yield h := do
    let h ← h.deref
    return if h.closedRd then h else h.notifyYield
  incrementReferenceCounter h := do
    let h ← h.deref
    return { h with counter := h.counter + 1 }
  decrementReferenceCounter h := do
    let h ← h.deref
    return ({ h with counter := h.counter - 1 } : HandleSHM).deleteUnused

/-- The chunks of some messages, followed or not by EOS. -/
def fillsOf (closed : Bool) (q : List Bytes) : List Fill := q.flatMap fills ++ if closed then fills [] else []

theorem fillsOf_cons (closed : Bool) (m : Bytes) (q : List Bytes) :
    fillsOf closed (m :: q) = fills m ++ fillsOf closed q := by
  simp [fillsOf]

/-! ### Sending -/

namespace HandleSHM

/-- The handle can be written to. -/
structure Writable (h : HandleSHM) : Prop where
  deleted : h.deleted = false
  closedWr : h.closedWr = false
  mapped : h.out.shmp = true

/-- `HandleUser::send` puts the chunks of the message into the buffer. -/
theorem Writable.send {h : HandleSHM} (hw : h.Writable) {u : HandleUser Unit}
    (hu : u.realHandle = some ()) (m : Bytes) :
    u.send (fun _ => shmHandle) m h = .ok (.ok m.length, { u with newConnection := false },
      { h with out := { h.out with sent := h.out.sent ++ fills m } }) := by
  have hput : h.out.put m = (.ok m.length, { h.out with sent := h.out.sent ++ fills m }) := by
    rw [ShmBuffer.put, if_neg]
    rw [hw.mapped]
    decide
  have hderef : h.deref = .ok h := by
    rw [deref, hw.deleted]
    rfl
  have hbase : shmHandle.base h = .ok h.toCommBase := by
    change (h.deref >>= _) = _
    rw [hderef]
    rfl
  have hsend : shmHandle.send m h =
      .ok (.ok m.length, { h with out := { h.out with sent := h.out.sent ++ fills m } }) := by
    change (h.deref >>= fun h => .ok (h.send m)) = _
    rw [hderef, bind_ok, HandleSHM.send, hput]
  unfold HandleUser.send
  dsimp only
  rw [hu]
  dsimp only
  rw [hbase, bind_ok, hw.closedWr, if_neg Bool.false_ne_true, hsend]
  rfl

end HandleSHM

/-! ### Receiving -/

/-- A message of which the reader counts the chunks as the writer does, and that is not taken for EOS. -/
def Countable (m : Bytes) : Prop := m ≠ [] ∧ ChunksExact m.length

/-- The handle is open for reading, and somebody owns it. -/
structure HandleSHM.Open (h : HandleSHM) : Prop where
  deleted : h.deleted = false
  closedRd : h.closedRd = false
  owned : 0 < h.counter
  mapped : h.inBuf.shmp = true

/-- The writer makes these fills; on a connection whose peer has not closed, nothing comes after them. -/
def Writes (closed : Bool) (w : List (Option Fill)) (fs : List Fill) : Prop :=
  ∃ rest, Brings w fs rest ∧ (closed = false → ∀ x ∈ rest, x = none)

/-- What a shared-memory handle is like in each phase of the reading of a list of messages. -/
def ShmReceiving (closed : Bool) : Phase (List Bytes) Bytes → HandleSHM → Prop
  | .idle q, h => h.Open ∧ h.probed.1 = false ∧ h.inBuf.seg.guard = false ∧ (∀ m ∈ q, Countable m) ∧
      Writes closed h.inBuf.writer (fillsOf closed q)
  | .opened m q, h => h.Open ∧ h.probed = (true, m.length) ∧ h.inBuf.seg.guard = true ∧
      h.inBuf.seg.size = m.length ∧ h.inBuf.HasChunk m ∧ Countable m ∧ (∀ m ∈ q, Countable m) ∧
      Writes closed h.inBuf.writer (putLoop m.length (m.drop shmSmallMsgSize) ++ fillsOf closed q)
  | .ended _, h => h.deleted = false ∧ h.probed = (true, 0) ∧ h.closedRd = true

section

variable {closed : Bool} {h : HandleSHM}

private theorem Writes.split {w : List (Option Fill)} {xs ys : List Fill} (hw : Writes closed w (xs ++ ys)) :
    ∃ mid, Brings w xs mid ∧ Writes closed mid ys := by
  obtain ⟨rest, hb, hrest⟩ := hw
  obtain ⟨mid, h1, h2⟩ := brings_append.1 hb
  exact ⟨mid, h1, rest, h2, hrest⟩

private theorem open_deref (ho : h.Open) : h.deref = .ok h := by
  rw [HandleSHM.deref, ho.deleted]
  rfl

private theorem open_base (ho : h.Open) : shmHandle.base h = .ok h.toCommBase := by
  change (h.deref >>= _) = _
  rw [open_deref ho]
  rfl

/-- A blocking `probe` leaves the next chunk in the slot, and answers the size that comes with it. -/
private theorem probe_fill (ho : h.Open) (hg : h.inBuf.seg.guard = false) {f : Fill} {fs : List Fill}
    (hw : Writes closed h.inBuf.writer (f :: fs)) (size : Nat) :
    ∃ v, Writes closed v fs ∧ shmHandle.probe size true h =
      .ok (.ok sizeofSizeT, f.size, { h with inBuf := { h.inBuf with seg := h.inBuf.seg.fill f, writer := v } }) := by
  obtain ⟨rest, hb, hrest⟩ := hw
  obtain ⟨v, hawait, hv⟩ := ShmBuffer.await_brings hg hb
  refine ⟨v, ⟨rest, hv, hrest⟩, ?_⟩
  have hsize : h.inBuf.getsize =
      .ok (.ok f.size, { h.inBuf with seg := h.inBuf.seg.fill f, writer := v }) := by
    rw [ShmBuffer.getsize, if_neg (by rw [ho.mapped]; decide), hawait]
    rfl
  change (h.deref >>= fun h => h.probe size true) = _
  rw [open_deref ho, bind_ok, HandleSHM.probe, if_pos rfl, hsize]
  rfl

private theorem awaitLoop_none {b : ShmBuffer} {w : List (Option Fill)} (hw : ∀ x ∈ w, x = none) :
    b.awaitLoop w = .error .blocked := by
  induction w with
  | nil => rfl
  | cons x w ih =>
    rw [hw x (List.mem_cons_self ..)]
    exact ih fun y hy => hw y (List.mem_cons_of_mem _ hy)

private theorem probe_none (ho : h.Open) (hg : h.inBuf.seg.guard = false) (hw : Writes false h.inBuf.writer [])
    (size : Nat) : shmHandle.probe size true h = .error .blocked := by
  obtain ⟨rest, hb, hrest⟩ := hw
  have hsize : h.inBuf.getsize = .error .blocked := by
    rw [ShmBuffer.getsize, if_neg (by rw [ho.mapped]; decide), ShmBuffer.await, if_neg (by rw [hg]; decide),
      brings_nil.1 hb, awaitLoop_none (hrest rfl)]
    rfl
  change (h.deref >>= fun h => h.probe size true) = _
  rw [open_deref ho, bind_ok, HandleSHM.probe, if_pos rfl, hsize]
  rfl

private theorem emptied_close (ho : h.Open) (hp : h.probed = (true, 0)) :
    ∃ h', shmHandle.close false true h = .ok h' ∧ ∀ q : List Bytes, ShmReceiving closed (.ended q) h' := by
  refine ⟨h.close false true, ?_, fun q => ?_⟩
  · change (h.deref >>= fun h => .ok (h.close false true)) = _
    rw [open_deref ho, bind_ok]
  · let k : HandleSHM := { h with closedRd := true }
    have hkeep : ∀ wr, (k.notifyClose wr true).deleted = h.deleted ∧ (k.notifyClose wr true).probed = h.probed ∧
        (k.notifyClose wr true).closedRd = true ∧ (k.notifyClose wr true).counter = h.counter := by
      intro wr
      cases wr <;> exact ⟨rfl, rfl, rfl, rfl⟩
    obtain ⟨h1, h2, h3, h4⟩ := hkeep h.closedWr
    -- somebody owns the handle, so it is not deleted
    have hclose : h.close false true = k.notifyClose h.closedWr true := by
      change (k.notifyClose h.closedWr true).deleteUnused = _
      refine if_neg fun hd => ?_
      have := ho.owned
      have := hd.1
      omega
    rw [hclose]
    exact ⟨h1.trans ho.deleted, h2.trans hp, h3⟩

end

/-- A shared-memory handle to which the chunks of a list of messages are written brings these messages. -/
theorem shm_reads (closed : Bool) : Reads shmHandle (queue closed) (ShmReceiving closed) where
  idle h := ⟨_, open_base h.1, h.2.1, h.1.closedRd⟩
  opened h := ⟨h.2.2.2.2.2.1.1, _, open_base h.1, h.2.1, h.1.closedRd⟩
  ended := by
    rintro s h ⟨hdel, hp, hrd⟩
    refine ⟨h.toCommBase, ?_, hp, hrd⟩
    change (h.deref >>= _) = _
    rw [HandleSHM.deref, hdel]
    rfl
  probe := by
    rintro q h ⟨ho, hp, hg, hq, hw⟩ size
    cases q with
    | cons m q =>
      left
      obtain ⟨hm, hx⟩ := hq m (List.mem_cons_self ..)
      rw [fillsOf_cons, ShmBuffer.fills_eq hm, putLoop, if_neg hm, List.cons_append] at hw
      obtain ⟨v, hv, hcall⟩ := probe_fill ho hg hw size
      refine ⟨m, q, _, rfl, hcall, ⟨ho.deleted, ho.closedRd, ho.owned, ho.mapped⟩, rfl, rfl, rfl,
        ShmBuffer.hasChunk_next h.inBuf v _ m, ⟨hm, hx⟩, fun m' hm' => hq m' (List.mem_cons_of_mem _ hm'), hv⟩
    | nil =>
      right
      cases closed with
      | true =>
        left
        obtain ⟨v, -, hcall⟩ := probe_fill ho hg hw size
        let b : ShmBuffer := { h.inBuf with seg := h.inBuf.seg.fill ⟨0, [], Nat.zero_le _⟩, writer := v }
        let k : HandleSHM := { h with probed := (true, 0), inBuf := b }
        have hk : k.Open := ⟨ho.deleted, ho.closedRd, ho.owned, ho.mapped⟩
        obtain ⟨h', hclose, hended⟩ := @emptied_close true k hk rfl
        exact ⟨⟨rfl, rfl⟩, _, h', hcall, hclose, hended []⟩
      | false =>
        right
        refine ⟨fun h => ?_, fun m q' h => ?_, probe_none ho hg hw size⟩
        · cases h.2
        · cases h
  receive := by
    rintro m q h ⟨ho, -, hg, hsz, hchunk, hm, hq, hw⟩
    obtain ⟨mid, hb, hmid⟩ := hw.split
    have hlen : nmsgs m.length = .ok (fills m).length := by
      rw [ShmBuffer.fills_eq hm.1, length_putLoop]
      exact (nmsgs_eq_iff (List.length_pos_iff.2 hm.1)).2 hm.2
    obtain ⟨seg, hseg, htake⟩ := ShmBuffer.takeMessage_whole hm.1 hlen hsz hchunk hb
    have hpos := List.length_pos_iff.2 hm.1
    have hget : h.inBuf.get m.length = .ok (.ok m.length, m, { h.inBuf with seg := seg, writer := mid }) := by
      have hne : ¬ (!h.inBuf.shmp || m.length == 0) = true := by
        rw [ho.mapped]
        simp
        exact hm.1
      rw [ShmBuffer.get, if_neg hne, ShmBuffer.await, if_pos hg]
      exact htake
    refine ⟨{ h with probed := (false, 0), inBuf := { h.inBuf with seg := seg, writer := mid } }, ?_,
      ⟨ho.deleted, ho.closedRd, ho.owned, ho.mapped⟩, rfl, hseg, hq, hmid⟩
    have hset : ({ h with probed := (false, 0) } : HandleSHM).deref = .ok { h with probed := (false, 0) } := by
      rw [HandleSHM.deref, ho.deleted]
      rfl
    change (({ h with probed := (false, 0) } : HandleSHM).deref >>= fun h => h.receive m.length) = _
    rw [hset, bind_ok, HandleSHM.receive, hget]
    rfl

end Mtcl
