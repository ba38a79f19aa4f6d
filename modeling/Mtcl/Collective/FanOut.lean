import Mtcl.Base.Shares
import Mtcl.Collective.Context
import Mtcl.Collective.Sending
import Mtcl.Reading

/-!
# `FanOutGeneric`

The generic implementation of a fan-out.  The root sends every message to one participant, the next one each
time; a worker reads from its only participant, the root.

`sendAll_shares` says that the root deals its messages out to the participants, and `fanOut_furnishes` that over
a handle that brings a list of messages a worker reads this list, up to EOS: there it stops when closing the
handle has deleted it.
-/

namespace Mtcl

open Shares Sources

variable {H W : Type}

/-- An object of class `FanOutGeneric`. -/
structure FanOutGeneric (H : Type) where
  participants : List H
  current : Nat := 0
  root : Bool
  deriving DecidableEq, Repr

namespace FanOutGeneric

section

variable (vt : H → CommunicationHandle W)

/-- `FanOutGeneric::probe`.  At EOS the cache of the handle is written when both its sides have been closed,
which is undefined when that has deleted it. -/
def probe (size : Nat) (blocking : Bool) (c : FanOutGeneric H) (w : W) :
    Except Stop (Ret × Nat × FanOutGeneric H × W) :=
  match c.participants with
  | [] => .ok (.error .ECONNRESET, size, c, w)
  | h :: _ => do
    let (res, size, w) ← (vt h).probe size blocking w
    match res with
    | .ok (n + 1) =>
      if size = 0 then do
        let w ← (vt h).close true true w
        let _ ← (vt h).base w
        return (.ok (n + 1), size, { c with participants := c.participants.dropLast }, (vt h).setProbed (true, size) w)
      else return (.ok (n + 1), size, c, (vt h).setProbed (true, size) w)
    | res => return (res, size, c, w)

/-- `int res`: a result is taken modulo 2^32, and one of 2^31 or more turns negative; `errno` is then what it was. -/
def intRes (errno : Errno) : Ret → Ret
  | .ok n => if n % 2 ^ 32 < 2 ^ 31 then .ok (n % 2 ^ 32) else .error errno
  | r => r

/-- `FanOutGeneric::send`; `errno` is its value before the call. -/
def send (errno : Errno) (buff : Bytes) (c : FanOutGeneric H) (w : W) : Except Stop (Ret × FanOutGeneric H × W) :=
  match c.participants[c.current]? with
  | none => .error .outOfRange
  | some h => do
    let (r, w) ← (vt h).send buff w
    return (intRes errno r, { c with current := (c.current + 1) % c.participants.length }, w)

/-- `FanOutGeneric::receive`. -/
def receive (size : Nat) (c : FanOutGeneric H) (w : W) : Except Stop (Ret × Bytes × FanOutGeneric H × W) :=
  match c.participants[0]? with
  | none => .error .outOfRange
  | some h => do
    let (res, bs, w) ← (vt h).receive size w
    return (res, bs, c, (vt h).setProbed (false, 0) w)

/-- `FanOutGeneric::close`, which does not look at its arguments. -/
def close (c : FanOutGeneric H) (w : W) : Except Stop (FanOutGeneric H × W) :=
  if c.root then do
    let w ← closeAll vt c.participants w
    return (c, w)
  else .ok (c, w)

end

end FanOutGeneric

/-- The virtual functions of `FanOutGeneric`. -/
def fanOutGeneric (vt : H → CommunicationHandle W) (errno : Errno) : CollectiveImpl (FanOutGeneric H) W where
  probe := FanOutGeneric.probe vt
  receive := FanOutGeneric.receive vt
  send := FanOutGeneric.send vt errno
  close _ _ := FanOutGeneric.close vt

/-! ### The root -/

namespace FanOutGeneric

/-- Where the root stands when it has sent some messages: the participant `i` has been sent those whose index is
`i` modulo the number of participants. -/
structure Shared [DecidableEq H] (ps : List H) (ms : List Bytes) (c : FanOutGeneric H)
    (log : List (Sent H)) : Prop where
  participants : c.participants = ps
  current : c.current = ms.length % ps.length
  root : c.root = true
  sent : ∀ i h, ps[i]? = some h → sentTo h log = share ps.length i ms
  closed : ∀ h, closedTo h log = false

section

variable [DecidableEq H] {vt : H → CommunicationHandle W} {errno : Errno} {ps : List H} {ms : List Bytes}
  {c c' : FanOutGeneric H} {log : List (Sent H)} {s s' : W × List (Sent H)} {m : Bytes} {n : Nat}

theorem Shared.start (hc : c.participants = ps) (hcur : c.current = 0) (hroot : c.root = true) : c.Shared ps [] [] :=
  ⟨hc, by rw [hcur, List.length_nil, Nat.zero_mod], hroot, fun _ _ _ => rfl, fun _ => rfl⟩

/-- The message that has gone out is that of the participant whose turn it was. -/
private theorem Shared.next (hn : ps.Nodup) (hs : c.Shared ps ms log) {h : H} (hh : ps[c.current]? = some h) (m : Bytes)
    (n : Nat) :
    ({ c with current := (c.current + 1) % c.participants.length } : FanOutGeneric H).Shared ps (ms ++ [m])
      (log ++ [.message h m (.ok n)]) := by
  have hlt : c.current < ps.length := (List.getElem?_eq_some_iff.1 hh).1
  refine ⟨hs.participants, ?_, hs.root, fun i j hj => ?_, fun j => ?_⟩
  · dsimp only
    rw [hs.participants, hs.current, Nat.mod_add_mod, List.length_append, List.length_singleton]
  · rw [sentTo_append, hs.sent i j hj, share_concat, ← hs.current]
    by_cases hi : c.current = i
    · subst hi
      rw [hh] at hj
      cases hj
      rw [sentTo_message, if_pos rfl]
    · have hne : h ≠ j := by
        rintro rfl
        exact hi ((List.getElem?_inj hlt hn).1 (hh.trans hj.symm))
      rw [sentTo_message_of_ne hne, if_neg hi]
  · rw [closedTo_append, hs.closed j, closedTo_message]
    rfl

/-- A successful `send` goes to the participant whose turn it is. -/
theorem Shared.send (hn : ps.Nodup) (hs : c.Shared ps ms s.2)
    (he : c.send (record vt) errno m s = .ok (.ok n, c', s')) : c'.Shared ps (ms ++ [m]) s'.2 := by
  unfold FanOutGeneric.send at he
  split at he
  · cases he
  · rename_i h hh
    obtain ⟨⟨r, s1⟩, h1, he⟩ := bind_eq_ok.1 he
    obtain ⟨-, hlog⟩ := record_send h1
    obtain ⟨hr, hrest⟩ := Prod.mk.inj (Except.ok.inj he)
    cases hrest
    cases r with
    | error e => cases hr
    | ok k =>
      rw [hlog]
      exact hs.next hn (hs.participants ▸ hh) m k

end

end FanOutGeneric

section

variable [DecidableEq H] {vt : H → CommunicationHandle W} {errno : Errno} {ps : List H}

private theorem sends_shared (hn : ps.Nodup) {sent ms : List Bytes} {rs : List Ret} {u u' : HandleUser Unit}
    {s s' : CollectiveContext (FanOutGeneric H) × (W × List (Sent H))} (hs : s.1.coll.Shared ps sent s.2.2)
    (he : HandleUser.sends (fun _ => contextHandle (fanOutGeneric (record vt) errno)) ms (u, s) = .ok (rs, (u', s')))
    (hrs : ∀ r ∈ rs, ∃ n, r = .ok n) : s'.1.coll.Shared ps (sent ++ ms) s'.2.2 ∧ u'.realHandle = u.realHandle := by
  induction ms generalizing sent s u rs with
  | nil =>
    cases he
    rw [List.append_nil]
    exact ⟨hs, rfl⟩
  | cons m ms ih =>
    obtain ⟨r, ⟨u1, s1⟩, rs', h1, h2, rfl⟩ := Runs.run_cons_eq_ok he
    obtain ⟨n, rfl⟩ := hrs _ (List.mem_cons_self ..)
    have h1 : u.send (fun _ => contextHandle (fanOutGeneric (record vt) errno)) m s = .ok (.ok n, u1, s1) := by
      rcases hsend : u.send (fun _ => contextHandle (fanOutGeneric (record vt) errno)) m s with e | ⟨r, u2, s2⟩
      · rw [hsend] at h1
        cases h1
      · rw [hsend] at h1
        cases h1
        rfl
    obtain ⟨_, hu, hu1, hcall⟩ := HandleUser.send_ok h1
    obtain ⟨coll, hctx, hf⟩ := contextHandle_send_ok hcall
    have hs1 : s1.1.coll.Shared ps (sent ++ [m]) s1.2.2 := by
      rw [hctx]
      exact FanOutGeneric.Shared.send hn hs hf
    obtain ⟨h3, h4⟩ := ih hs1 h2 fun r hr => hrs r (List.mem_cons_of_mem _ hr)
    rw [List.append_assoc] at h3
    exact ⟨h3, by rw [h4, hu, hu1]⟩

/-- What a root that has sent all its messages successfully and has closed has put out. -/
theorem sendAll_shares {c : CollectiveContext (FanOutGeneric H)} {w : W} {u : HandleUser Unit}
    (hn : c.coll.participants.Nodup) (hcur : c.coll.current = 0) (hroot : c.coll.root = true)
    (hu : u.realHandle = some ()) {ms : List Bytes} {rs : List Ret}
    {s' : CollectiveContext (FanOutGeneric H) × (W × List (Sent H))}
    (he : HandleUser.sendAll (fun _ => contextHandle (fanOutGeneric (record vt) errno)) true ms (u, (c, (w, []))) =
      .ok (rs, s')) (hrs : ∀ r ∈ rs, ∃ n, r = .ok n) {i : Nat} {h : H} (hh : c.coll.participants[i]? = some h) :
    sentTo h s'.2.2 = share c.coll.participants.length i ms ∧ closedTo h s'.2.2 = true := by
  obtain ⟨⟨rs1, u1, s1⟩, h1, he⟩ := bind_eq_ok.1 he
  obtain ⟨s2, h2, he⟩ := bind_eq_ok.1 he
  cases he
  obtain ⟨hs, hu1⟩ := sends_shared hn (.start rfl hcur hroot) h1 hrs
  rw [if_pos rfl, HandleUser.close, hu1, hu] at h2
  obtain ⟨-, coll, -, hf⟩ := contextHandle_close h2
  change FanOutGeneric.close (record vt) s1.1.coll s1.2 = _ at hf
  rw [FanOutGeneric.close, if_pos hs.root, hs.participants] at hf
  obtain ⟨w1, hall, hf⟩ := bind_eq_ok.1 hf
  cases hf
  rw [closeAll_record hall, sentTo_append, sentTo_eos, List.append_nil, closedTo_append, Bool.or_eq_true]
  exact ⟨hs.sent i h hh, Or.inr ((closedTo_eos _).2 (List.mem_of_getElem? hh))⟩

end

/-! ### A worker -/

/-- What a worker needs of its handle: a `probe` finds the size of the next message, or EOS behind the last, and
`receive` finds its bytes; closing both sides behind EOS deletes the handle, unless somebody owns it.  A `probe`
that does not wait may find nothing; it is only made when it never finds a part of a header (`polls`). -/
structure Pours (h : CommunicationHandle W) (polls : Prop) (idle : List Bytes → W → Prop)
    (opened : Bytes → List Bytes → W → Prop) : Prop where
  probe : ∀ {q w}, idle q w → ∀ {blocking}, (blocking = false → polls) → ∀ size,
    (∃ m q' w', q = m :: q' ∧ m ≠ [] ∧ h.probe size blocking w = .ok (.ok sizeofSizeT, m.length, w') ∧
        opened m q' (h.setProbed (true, m.length) w')) ∨
      (q = [] ∧ ∃ w' w'', h.probe size blocking w = .ok (.ok sizeofSizeT, 0, w') ∧ h.close true true w' = .ok w'' ∧
        (h.base w'' = .error .useAfterFree ∨ ∃ b, h.base w'' = .ok b)) ∨
      blocking = false ∧ ∃ w', h.probe size blocking w = .ok (.error .EWOULDBLOCK, size, w') ∧ idle q w'
  receive : ∀ {m q w}, opened m q w →
    ∃ w', h.receive m.length w = .ok (.ok m.length, m, w') ∧ idle q (h.setProbed (false, 0) w')

/-- Nobody owns the handle: it is deleted when it is closed behind EOS. -/
def DeletedAtEos (h : CommunicationHandle W) (idle : List Bytes → W → Prop) : Prop :=
  ∀ {w w' w'' size blocking}, idle [] w → h.probe size blocking w = .ok (.ok sizeofSizeT, 0, w') →
    h.close true true w' = .ok w'' → h.base w'' = .error .useAfterFree

/-- What a handle pours it pours while a property that its `probe` and `receive` keep holds. -/
theorem Pours.and {h : CommunicationHandle W} {polls : Prop} {idle : List Bytes → W → Prop}
    {opened : Bytes → List Bytes → W → Prop} (hp : Pours h polls idle opened) {K : W → Prop}
    (hset : ∀ pr w, K w → K (h.setProbed pr w))
    (hprobe : ∀ {size blocking r size' w w'}, K w → h.probe size blocking w = .ok (r, size', w') → K w')
    (hreceive : ∀ {n r bs w w'}, K w → h.receive n w = .ok (r, bs, w') → K w') :
    Pours h polls (fun q w => idle q w ∧ K w) (fun m q w => opened m q w ∧ K w) where
  probe := by
    intro q w hw blocking hb size
    rcases hp.probe hw.1 hb size with ⟨m, q', w', hq, hm, hcall, hopened⟩ | heos | ⟨hnb, w', hcall, hidle⟩
    · exact Or.inl ⟨m, q', w', hq, hm, hcall, hopened, hset _ _ (hprobe hw.2 hcall)⟩
    · exact Or.inr (Or.inl heos)
    · exact Or.inr (Or.inr ⟨hnb, w', hcall, hidle, hprobe hw.2 hcall⟩)
  receive := by
    intro m q w hw
    obtain ⟨w', hcall, hidle⟩ := hp.receive hw.1
    exact ⟨w', hcall, hidle, hset _ _ (hreceive hw.2 hcall)⟩

/-- The context of a worker, open for reading, with its handle to the root. -/
structure FanOutGeneric.Serves (h : H) (c : CollectiveContext (FanOutGeneric H)) : Prop where
  deleted : c.deleted = false
  closedRd : c.closedRd = false
  canReceive : c.canReceive = true
  root : c.coll.root = false
  participants : c.coll.participants = [h]

/-- What a worker is like in each phase of its reading. -/
def WorkerReading (h : H) (idle : List Bytes → W → Prop) (opened : Bytes → List Bytes → W → Prop) :
    Phase (List Bytes) Bytes → CollectiveContext (FanOutGeneric H) × W → Prop
  | .idle q, (c, w) => FanOutGeneric.Serves h c ∧ c.probed.1 = false ∧ idle q w
  | .opened m q, (c, w) => FanOutGeneric.Serves h c ∧ c.probed = (true, m.length) ∧ m ≠ [] ∧ opened m q w
  | .ended _, (c, _) => c.deleted = false ∧ c.probed = (true, 0) ∧ c.closedRd = true

section

variable {vt : H → CommunicationHandle W} {errno : Errno} {h : H} {polls : Prop} {idle : List Bytes → W → Prop}
  {opened : Bytes → List Bytes → W → Prop} {c : CollectiveContext (FanOutGeneric H)}

/-- `FanOutGeneric::probe` of a worker passes on what `probe` of its handle finds. -/
private theorem worker_coll (hs : c.coll.participants = [h]) (w : W) (size : Nat) (blocking : Bool) :
    (fanOutGeneric vt errno).probe size blocking c.coll w = ((vt h).probe size blocking w >>= fun x => match x.1 with
      | .ok (n + 1) =>
        if x.2.1 = 0 then (vt h).close true true x.2.2 >>= fun w => (vt h).base w >>= fun _ =>
          .ok (.ok (n + 1), x.2.1, { c.coll with participants := c.coll.participants.dropLast },
            (vt h).setProbed (true, x.2.1) w)
        else .ok (.ok (n + 1), x.2.1, c.coll, (vt h).setProbed (true, x.2.1) x.2.2)
      | res => .ok (res, x.2.1, c.coll, x.2.2)) := by
  change FanOutGeneric.probe vt size blocking c.coll w = _
  unfold FanOutGeneric.probe
  rw [hs]
  rfl

/-- A `probe` of a worker at EOS, when that deletes its handle. -/
theorem worker_probe_deleted (hs : FanOutGeneric.Serves h c) {w w' w'' : W} {size n : Nat} {blocking : Bool}
    (hcall : (vt h).probe size blocking w = .ok (.ok (n + 1), 0, w')) (hclose : (vt h).close true true w' = .ok w'')
    (hgone : (vt h).base w'' = .error .useAfterFree) :
    (contextHandle (fanOutGeneric vt errno)).probe size blocking (c, w) = .error .useAfterFree := by
  have hprobe := @worker_coll _ _ vt errno h c hs.participants w size blocking
  rw [hcall, bind_ok] at hprobe
  dsimp only at hprobe
  rw [if_pos rfl, hclose, bind_ok, hgone] at hprobe
  exact contextHandle_probe_error hs.deleted hs.canReceive hprobe

private theorem worker_probe (hp : Pours (vt h) polls idle opened) {closed : Bool}
    (hgone : closed = false → DeletedAtEos (vt h) idle) {q : List Bytes} {w : W} (hs : FanOutGeneric.Serves h c)
    (hc : c.probed.1 = false) (hw : idle q w) {blocking : Bool} (hb : blocking = false → polls) (size : Nat) :
    (∃ m q' s', q = m :: q' ∧
        (contextHandle (fanOutGeneric vt errno)).probe size blocking (c, w) = .ok (.ok sizeofSizeT, m.length, s') ∧
        WorkerReading h idle opened (.opened m q')
          ((contextHandle (fanOutGeneric vt errno)).setProbed (true, m.length) s')) ∨
      ((q = [] ∧ closed = true) ∧ ∃ s' s'', (contextHandle (fanOutGeneric vt errno)).probe size blocking (c, w) =
          .ok (.ok sizeofSizeT, 0, s') ∧
        (contextHandle (fanOutGeneric vt errno)).close false true
          ((contextHandle (fanOutGeneric vt errno)).setProbed (true, 0) s') = .ok s'' ∧
        ∀ q, WorkerReading h idle opened (.ended q) s'') ∨
      (blocking = false ∧ ∃ s', (contextHandle (fanOutGeneric vt errno)).probe size blocking (c, w) =
        .ok (.error .EWOULDBLOCK, size, s') ∧ WorkerReading h idle opened (.idle q) s') ∨
      q = [] ∧ (contextHandle (fanOutGeneric vt errno)).probe size blocking (c, w) = .error .useAfterFree := by
  have hprobe := @worker_coll _ _ vt errno h c hs.participants w size blocking
  rcases hp.probe hw hb size with ⟨m, q', w', rfl, hm, hcall, hopened⟩ | ⟨rfl, w', w'', hcall, hclose, hbase⟩ |
    ⟨hnb, w', hcall, hidle⟩
  · left
    have hne : m.length ≠ 0 := fun e => hm (List.length_eq_zero_iff.1 e)
    rw [hcall, bind_ok] at hprobe
    dsimp only at hprobe
    rw [if_neg hne] at hprobe
    exact ⟨m, q', _, rfl, contextHandle_probe_of hs.deleted hs.canReceive hprobe,
      ⟨hs.deleted, hs.closedRd, hs.canReceive, hs.root, hs.participants⟩, rfl, hm, hopened⟩
  · right
    rcases hbase with hdeleted | ⟨b, hb⟩
    · exact Or.inr (Or.inr ⟨rfl, worker_probe_deleted hs hcall hclose hdeleted⟩)
    · left
      have hclosed : closed = true := by
        cases closed with
        | true => rfl
        | false => cases hb.symm.trans (hgone rfl hw hcall hclose)
      rw [hcall, bind_ok] at hprobe
      dsimp only at hprobe
      rw [if_pos rfl, hclose, bind_ok, hb] at hprobe
      have hctx := contextHandle_probe_of (s := (c, w)) hs.deleted hs.canReceive hprobe
      let k : CollectiveContext (FanOutGeneric H) :=
        { c with probed := (true, 0), coll := { c.coll with participants := c.coll.participants.dropLast } }
      have hcollClose : (fanOutGeneric vt errno).close (false && !k.closedWr) true k.coll
          ((vt h).setProbed (true, 0) w'') =
          .ok (k.coll, (vt h).setProbed (true, 0) w'') := if_neg (by simp [k, hs.root])
      exact ⟨⟨rfl, hclosed⟩, _, _, hctx, contextHandle_close_of (s := (k, _)) hs.deleted hcollClose,
        fun q => ⟨hs.deleted, rfl, Bool.or_true _⟩⟩
  · right
    right
    left
    rw [hcall] at hprobe
    exact ⟨hnb, _, contextHandle_probe_of hs.deleted hs.canReceive hprobe,
      ⟨hs.deleted, hs.closedRd, hs.canReceive, hs.root, hs.participants⟩, hc, hidle⟩

/-- Over a handle that brings a list of messages, a worker reads this list; at the end it is told so, or stops.
When the handle is deleted then, it always stops. -/
theorem fanOut_furnishes (hp : Pours (vt h) polls idle opened) {closed : Bool}
    (hgone : closed = false → DeletedAtEos (vt h) idle) (errno : Errno) :
    Furnishes .useAfterFree (contextHandle (fanOutGeneric vt errno)) (queue closed) (WorkerReading h idle opened)
      (· = .idle []) where
  idle := by
    rintro q ⟨c, w⟩ ⟨hs, hc, -⟩
    exact ⟨_, contextHandle_base.2 ⟨hs.deleted, rfl⟩, hc, hs.closedRd⟩
  opened := by
    rintro m q ⟨c, w⟩ ⟨hs, hc, hm, -⟩
    exact ⟨hm, _, contextHandle_base.2 ⟨hs.deleted, rfl⟩, hc, hs.closedRd⟩
  ended := by
    rintro q ⟨c, w⟩ ⟨hd, hc, hrd⟩
    exact ⟨_, contextHandle_base.2 ⟨hd, rfl⟩, hc, hrd⟩
  probe := by
    rintro q ⟨c, w⟩ ⟨hs, hc, hw⟩ size
    rcases @worker_probe _ _ _ errno _ _ _ _ c hp closed hgone _ _ hs hc hw true nofun size with
      ⟨m, q', s', rfl, hcall, hI⟩ | ⟨hfin, s', s'', hcall, hclose, hI⟩ | ⟨hb, -⟩ | ⟨rfl, hcall⟩
    · exact Or.inl ⟨m, q', s', rfl, hcall, hI⟩
    · exact Or.inr (Or.inl ⟨hfin, s', s'', hcall, hclose, hI q⟩)
    · cases hb
    · exact Or.inr (Or.inr ⟨rfl, hcall⟩)
  receive := by
    rintro m q ⟨c, w⟩ ⟨hs, hc, hm, hw⟩
    obtain ⟨w', hcall, hidle⟩ := hp.receive hw
    have hrecv : (fanOutGeneric vt errno).receive m.length c.coll w =
        .ok (.ok m.length, m, c.coll, (vt h).setProbed (false, 0) w') := by
      change FanOutGeneric.receive vt m.length c.coll w = _
      unfold FanOutGeneric.receive
      rw [hs.participants]
      dsimp only [List.getElem?_cons_zero]
      rw [hcall]
      rfl
    exact Or.inl
      ⟨_, @contextHandle_receive_of _ _ _ ({ c with probed := (false, 0) }, w) _ _ _ _ _ hs.deleted hs.canReceive hrecv,
        ⟨hs.deleted, hs.closedRd, hs.canReceive, hs.root, hs.participants⟩, rfl, hidle⟩

theorem fanOut_polls (hp : Pours (vt h) polls idle opened) {closed : Bool}
    (hgone : closed = false → DeletedAtEos (vt h) idle) (errno : Errno) (hpolls : polls) :
    Polls .useAfterFree (contextHandle (fanOutGeneric vt errno)) (queue closed) (WorkerReading h idle opened)
      (· = .idle []) := by
  rintro q ⟨c, w⟩ ⟨hs, hc, hw⟩ size
  rcases @worker_probe _ _ _ errno _ _ _ _ c hp closed hgone _ _ hs hc hw false (fun _ => hpolls) size with
    ⟨m, q', s', rfl, hcall, hI⟩ | ⟨hfin, s', s'', hcall, hclose, hI⟩ | ⟨-, s', hcall, hI⟩ | ⟨rfl, hcall⟩
  · exact Or.inl ⟨m, q', s', rfl, hcall, hI⟩
  · exact Or.inr (Or.inl ⟨hfin, s', s'', hcall, hclose, hI q⟩)
  · exact Or.inr (Or.inr (Or.inl ⟨s', hcall, hI⟩))
  · exact Or.inr (Or.inr (Or.inr ⟨rfl, hcall⟩))

/-- The call makes a worker read EOS: it does not know the size of the next message, and `probe` of its
participant finds the size zero. -/
def FindsEos (vt : H → CommunicationHandle W) (size : Nat) (t : Try)
    (s : HandleUser Unit × (CollectiveContext (FanOutGeneric H) × W)) : Prop :=
  s.2.1.probed.1 = false ∧ ∃ h n w', s.2.1.coll.participants.head? = some h ∧
    (vt h).probe (t.probe size).1 (t.probe size).2 s.2.2 = .ok (.ok (n + 1), 0, w')

/-- A call of a worker whose handle is deleted at EOS returns unless it reads EOS, and then it stops. -/
theorem worker_attempt (hp : Pours (vt h) polls idle opened) (hgone : DeletedAtEos (vt h) idle) (errno : Errno)
    {ph : Phase (List Bytes) Bytes} {s : HandleUser Unit × (CollectiveContext (FanOutGeneric H) × W)}
    (howns : Owns (WorkerReading h idle opened) () ph s) (size : Nat) {t : Try} (ht : t = .poll → polls) :
    (¬ FindsEos vt size t s ∧ ∃ a s',
        HandleUser.attempt (fun _ => contextHandle (fanOutGeneric vt errno)) size t s = .ok (a, s') ∧
        ∃ ph', Owns (WorkerReading h idle opened) () ph' s') ∨
      ¬ ¬ FindsEos vt size t s ∧
        HandleUser.attempt (fun _ => contextHandle (fanOutGeneric vt errno)) size t s = .error .useAfterFree := by
  obtain ⟨u, c, w⟩ := s
  let vt' : Unit → CommunicationHandle (CollectiveContext (FanOutGeneric H) × W) :=
    fun _ => contextHandle (fanOutGeneric vt errno)
  have hopen : true = false → DeletedAtEos (vt h) idle := fun e => nomatch e
  have hr : Furnishes .useAfterFree (vt' ()) (queue true) (WorkerReading h idle opened) (· = .idle []) :=
    fanOut_furnishes hp hopen errno
  have hblocking : (t.probe size).2 = false → polls := by
    intro hb
    rcases t with (_ | _) | _
    · cases hb
    · cases hb
    · exact ht rfl
  by_cases hfinds : FindsEos vt size t (u, (c, w))
  · right
    refine ⟨not_not_intro hfinds, ?_⟩
    obtain ⟨hprobed, h', n, w', hhead, hcall⟩ := hfinds
    have hI := howns.2.1
    cases ph with
    | opened m q => cases hprobed.symm.trans (congrArg Prod.fst hI.2.1)
    | ended q => cases hprobed.symm.trans (congrArg Prod.fst hI.2.1)
    | idle q =>
      obtain ⟨hs, -, hw⟩ := hI
      dsimp only at hhead hcall
      rw [hs.participants] at hhead
      cases hhead
      rcases hp.probe hw hblocking (t.probe size).1 with ⟨m, q', w1, -, hm, hcall', -⟩ |
        ⟨rfl, w1, w2, hcall', hclose, -⟩ | ⟨-, w1, hcall', -⟩
      · rw [hcall] at hcall'
        simp only [Except.ok.injEq, Prod.mk.injEq] at hcall'
        exact absurd (List.length_eq_zero_iff.1 hcall'.2.1.symm) hm
      · exact attempt_error hr howns size (worker_probe_deleted hs hcall' hclose (hgone hw hcall' hclose))
      · cases hcall.symm.trans hcall'
  · left
    refine ⟨hfinds, ?_⟩
    have hpolls : t = .poll → Polls .useAfterFree (vt' ()) (queue true) (WorkerReading h idle opened) (· = .idle []) :=
      fun e => fanOut_polls hp hopen errno (ht e)
    rcases attempt_step hr howns size hpolls with
      ⟨a, ph', s', hcall, howns', -⟩ | ⟨hwait | ⟨m, q, hwait⟩, -⟩
    · exact ⟨a, s', hcall, ph', howns'⟩
    · -- behind the last message it has found nothing
      subst hwait
      obtain ⟨hs, hc, hw⟩ := howns.2.1
      rcases hp.probe hw hblocking (t.probe size).1 with ⟨m, q', w1, hq, -⟩ | ⟨-, w1, w2, hcall, -⟩ |
        ⟨hb, w1, hcall, hw1⟩
      · cases hq
      · exact absurd ⟨hc, h, _, w1, by rw [hs.participants]; rfl, hcall⟩ hfinds
      · have hpoll : t = .poll := by
          rcases t with (_ | _) | _
          · cases hb
          · cases hb
          · rfl
        subst hpoll
        have hprobe := @worker_coll _ _ vt errno h c hs.participants w size false
        change (vt h).probe size false w = _ at hcall
        rw [hcall] at hprobe
        have hctx := contextHandle_probe_of (s := (c, w)) hs.deleted hs.canReceive hprobe
        refine ⟨none, _, attempt_nothing hr howns hctx, .idle [], howns.1, ?_, howns.2.2⟩
        exact ⟨⟨hs.deleted, hs.closedRd, hs.canReceive, hs.root, hs.participants⟩, hc, hw1⟩
    · cases hwait

end

end Mtcl
