import Mtcl.Reading
import Mtcl.Tcp.Invariant

/-!
# Messages on a TCP stream

A message travels as its size in eight bytes followed by its payload, and the size zero stands for the end (`encode`).
`tcp_sends` says that `HandleUser::send` puts the frames of its messages on the stream whatever the kernel moves at a
time, `tcp_hears_of` that a TCP handle brings the messages whose bytes have arrived, in whatever pieces, and waits for
the others, and `tcp_reads` that it brings them all when all their bytes arrive.
-/

namespace Mtcl

open Arrivals Sources

/-- The bytes of a message on the stream. -/
def frame (m : Bytes) : Bytes := Words.toBE sizeofSizeT m.length ++ m

/-- The bytes of some messages, followed or not by EOS. -/
def encode (closed : Bool) (q : List Bytes) : Bytes :=
  q.flatMap frame ++ if closed then List.replicate sizeofSizeT 0 else []

@[simp] theorem encode_cons (closed : Bool) (m : Bytes) (q : List Bytes) :
    encode closed (m :: q) = Words.toBE sizeofSizeT m.length ++ (m ++ encode closed q) := by
  simp [encode, frame]

/-! ### Sending -/

namespace Process

variable {p : Process} {id : Nat} {u : HandleUser Nat}

/-- The handle can be written to, and the kernel always moves something. -/
structure Writable (p : Process) (id : Nat) : Prop where
  live : p.Live id
  closedWr : (p.handles id).closedWr = false
  moves : Moves (p.handles id).answers

/-- `HandleTCP::send` puts the frame of the message on the stream. -/
theorem Writable.handle_send (h : p.Writable id) (m : Bytes) :
    ∃ p', (tcpHandle id).send m p = .ok (.ok m.length, p') ∧ p'.Writable id ∧
      (p'.handles id).wire = (p.handles id).wire ++ frame m := by
  obtain ⟨as, hmoves, hsend⟩ := HandleTCP.send_moved h.live.fd h.moves m
  refine ⟨p.put id { p.handles id with wire := (p.handles id).wire ++ frame m, answers := as }, ?_,
    ⟨h.live.put rfl rfl, ?_, ?_⟩, ?_⟩
  · change (p.deref id >>= fun h => .ok ((h.send m).1, p.put id (h.send m).2)) = _
    rw [h.live.deref, bind_ok, hsend]
    rfl
  · rw [put_handles_self]
    exact h.closedWr
  · rw [put_handles_self]
    exact hmoves
  · rw [put_handles_self]

/-- `Handle::close` of the write side puts EOS on the stream. -/
theorem Writable.handle_close (h : p.Writable id) :
    ∃ p', (tcpHandle id).close true false p = .ok p' ∧
      (p'.handles id).wire = (p.handles id).wire ++ List.replicate sizeofSizeT 0 := by
  obtain ⟨as, eos, -, hsend⟩ := HandleTCP.sendEOS_moved h.live.fd h.moves
  refine ⟨p.closeHandle id true false, h.live.close true false, ?_⟩
  rw [(closeHandle_wire p h.closedWr false).1, hsend]

/-- `HandleUser::send` puts the frame of the message on the stream. -/
theorem Writable.send (h : p.Writable id) (hu : u.realHandle = some id) (m : Bytes) :
    ∃ u' p', u.send tcpHandle m p = .ok (.ok m.length, u', p') ∧ u'.realHandle = some id ∧ p'.Writable id ∧
      (p'.handles id).wire = (p.handles id).wire ++ frame m := by
  obtain ⟨p', hcall, hw, hwire⟩ := h.handle_send m
  refine ⟨{ u with newConnection := false }, p', ?_, hu, hw, hwire⟩
  unfold HandleUser.send
  dsimp only
  rw [hu]
  dsimp only
  rw [h.live.base, bind_ok, if_neg (by simp [h.closedWr]), hcall]
  rfl

/-- `HandleUser::close` puts EOS on the stream. -/
theorem Writable.close (h : p.Writable id) (hu : u.realHandle = some id) :
    ∃ p', u.close tcpHandle p = .ok p' ∧
      (p'.handles id).wire = (p.handles id).wire ++ List.replicate sizeofSizeT 0 := by
  obtain ⟨p', hclose, hwire⟩ := h.handle_close
  refine ⟨p', ?_, hwire⟩
  unfold HandleUser.close
  rw [hu]
  exact hclose

end Process

/-- Every send is reported as successful, and the frames are on the stream in order. -/
theorem tcp_sends {p : Process} {id : Nat} {u : HandleUser Nat} (h : p.Writable id) (hu : u.realHandle = some id)
    (ms : List Bytes) :
    ∃ u' p', HandleUser.sends tcpHandle ms (u, p) = .ok (ms.map fun m => .ok m.length, (u', p')) ∧
      (u'.realHandle = some id ∧ p'.Writable id) ∧ (p'.handles id).wire = (p.handles id).wire ++ ms.flatMap frame := by
  let J : HandleUser Nat × Process → Prop := fun s => s.1.realHandle = some id ∧ s.2.Writable id
  have hstep : ∀ {u p}, J (u, p) → ∀ m, ∃ u' p', u.send tcpHandle m p = .ok (.ok m.length, u', p') ∧ J (u', p') ∧
      (p'.handles id).wire = (p.handles id).wire ++ frame m := by
    rintro u p ⟨hu, h⟩ m
    obtain ⟨u', p', h1, h2, h3, h4⟩ := h.send hu m
    exact ⟨u', p', h1, ⟨h2, h3⟩, h4⟩
  exact run_sends (J := J) hstep ⟨hu, h⟩ ms

/-! ### Receiving -/

/-- A message that the framing can carry: its size is not that of EOS, and a `ssize_t` holds it. -/
def Sendable (m : Bytes) : Prop := m ≠ [] ∧ m.length < 2 ^ 63

/-- The bytes arrive in order; on a connection whose peer has not closed, nothing comes after them. -/
def Arrives (closed : Bool) (s : List SockArrival) (bs : Bytes) : Prop :=
  Delivers s (loose bs) ∧ (closed = false → lead s = bs ∧ afterLead s = [])

/-- Bytes that the kernel has ready arrive. -/
theorem arrives_putBack (closed : Bool) (bs : Bytes) : Arrives closed (putBack bs []) bs := by
  have hlead : lead (putBack bs ([] : List SockArrival)) = bs := by
    rw [lead_putBack]
    exact List.append_nil bs
  have hd := delivers_lead (putBack bs ([] : List SockArrival))
  rw [hlead] at hd
  exact ⟨hd, fun _ => ⟨hlead, by rw [afterLead_putBack]; rfl⟩⟩

/-- `readn` takes the next bytes off a stream. -/
theorem Arrives.readn {closed : Bool} {s : List SockArrival} {bs rest : Bytes} (h : Arrives closed s (bs ++ rest)) :
    ∃ s', Mtcl.readn bs.length s = .ok (.ok bs.length, bs, s') ∧ Arrives closed s' rest := by
  have hd := h.1
  rw [loose_append] at hd
  have hlead := hd.take (n := bs.length) (by simp)
  rw [List.drop_left' (length_loose bs)] at hlead
  have htake : ((loose bs ++ loose rest).map Prod.fst).take bs.length = bs := by
    rw [List.map_append, map_fst_loose, map_fst_loose, List.take_left' rfl]
  rw [htake] at hlead
  refine ⟨dropItems bs.length s, ?_, hlead.2.2, fun hc => ?_⟩
  · rw [readn_eq, if_pos hlead.1, hlead.2.1]
  · obtain ⟨h1, h2⟩ := dropItems_lead hlead.1
    obtain ⟨h3, h4⟩ := h.2 hc
    rw [h1, h2, h3, h4]
    exact ⟨List.drop_left' rfl, rfl⟩

/-- A stream of which `A s bs` says that nothing but `bs` is still to come: `readn` finds the next bytes, or
waits when it may; when nothing is to come and the peer has not closed, it waits. -/
structure Supplies (closed : Bool) (A : List SockArrival → Bytes → Prop) (mayWait : Prop) : Prop where
  readn : ∀ {s x rest}, A s (x ++ rest) →
    (∃ s', Mtcl.readn x.length s = .ok (.ok x.length, x, s') ∧ A s' rest) ∨
      mayWait ∧ Mtcl.readn x.length s = .error .blocked
  dry : closed = false → ∀ {s n}, A s [] → 0 < n → Mtcl.readn n s = .error .blocked

/-- A stream that arrives brings its bytes. -/
theorem arrives_supplies (closed : Bool) : Supplies closed (Arrives closed) False where
  readn h := Or.inl h.readn
  dry hclosed s n h hn := by
    obtain ⟨h1, h2⟩ := h.2 hclosed
    rw [readn_eq, h1, List.length_nil, if_neg (Nat.not_le.2 hn), h2]

/-- The handle is open for reading, and somebody owns it. -/
structure Process.Open (p : Process) (id : Nat) : Prop where
  live : p.Live id
  closedRd : (p.handles id).closedRd = false
  owned : 0 < (p.handles id).counter

theorem Process.Open.withIncoming {p : Process} {id : Nat} (h : p.Open id) (pr : Bool × Nat) (s : List SockArrival) :
    (p.withIncoming id pr s).Open id := by
  refine ⟨h.live.withIncoming pr s, ?_, ?_⟩
  · rw [Process.withIncoming_handles]
    exact h.closedRd
  · rw [Process.withIncoming_handles]
    exact h.owned

/-- What a TCP handle is like in each phase of the reading of a list of messages. -/
def Receiving (closed : Bool) (id : Nat) : Phase (List Bytes) Bytes → Process → Prop
  | .idle q, p => p.Open id ∧ (p.handles id).probed.1 = false ∧ (∀ m ∈ q, Sendable m) ∧
      Arrives closed (p.handles id).incoming (encode closed q)
  | .opened m q, p => p.Open id ∧ (p.handles id).probed = (true, m.length) ∧ m ≠ [] ∧ (∀ m ∈ q, Sendable m) ∧
      Arrives closed (p.handles id).incoming (m ++ encode closed q)
  | .ended _, p => id < p.allocated ∧ (p.handles id).deleted = false ∧ (p.handles id).probed = (true, 0) ∧
      (p.handles id).closedRd = true

/-- `Receiving`, on a stream of which `A` says what is still to come. -/
def ReceivingOf (A : List SockArrival → Bytes → Prop) (closed : Bool) (id : Nat) :
    Phase (List Bytes) Bytes → Process → Prop
  | .idle q, p => p.Open id ∧ (p.handles id).probed.1 = false ∧ (∀ m ∈ q, Sendable m) ∧
      A (p.handles id).incoming (encode closed q)
  | .opened m q, p => p.Open id ∧ (p.handles id).probed = (true, m.length) ∧ m ≠ [] ∧ (∀ m ∈ q, Sendable m) ∧
      A (p.handles id).incoming (m ++ encode closed q)
  | .ended _, p => id < p.allocated ∧ (p.handles id).deleted = false ∧ (p.handles id).probed = (true, 0) ∧
      (p.handles id).closedRd = true

/-- What the reading of a stream needs of a handle: `Good` while messages are to come, and `Done` behind the end. -/
structure Readable (Good Done : Process → Prop) (id : Nat) : Prop where
  live : ∀ {p}, Good p → p.Live id
  closedRd : ∀ {p}, Good p → (p.handles id).closedRd = false
  withIncoming : ∀ {p}, Good p → ∀ pr s, Good (p.withIncoming id pr s)
  close : ∀ {p}, Good p → (p.handles id).probed = (true, 0) → ∃ p', (tcpHandle id).close false true p = .ok p' ∧ Done p'
  done : ∀ {p}, Done p → id < p.allocated ∧ (p.handles id).deleted = false ∧ (p.handles id).probed = (true, 0) ∧
    (p.handles id).closedRd = true

/-- What such a handle is like in each phase of the reading of a list of messages, on a stream of which `A` says
what is still to come. -/
def Streaming (Good Done : Process → Prop) (A : List SockArrival → Bytes → Prop) (closed : Bool) (id : Nat) :
    Phase (List Bytes) Bytes → Process → Prop
  | .idle q, p => Good p ∧ (p.handles id).probed.1 = false ∧ (∀ m ∈ q, Sendable m) ∧
      A (p.handles id).incoming (encode closed q)
  | .opened m q, p => Good p ∧ (p.handles id).probed = (true, m.length) ∧ m ≠ [] ∧ (∀ m ∈ q, Sendable m) ∧
      A (p.handles id).incoming (m ++ encode closed q)
  | .ended _, p => Done p

section

variable {A : List SockArrival → Bytes → Prop} {closed : Bool} {mayWait : Prop} {id : Nat} {Good Done : Process → Prop}

/-- A blocking `probe` before a header. -/
theorem Process.Live.probe_header (hA : Supplies closed A mayWait) {p : Process} (h : p.Live id) {hdr rest : Bytes}
    (hlen : hdr.length = sizeofSizeT) (ha : A (p.handles id).incoming (hdr ++ rest)) (size : Nat) :
    (∃ s', A s' rest ∧ (tcpHandle id).probe size true p =
        .ok (.ok sizeofSizeT, Words.ofBE hdr, p.withIncoming id (p.handles id).probed s')) ∨
      mayWait ∧ (tcpHandle id).probe size true p = .error .blocked := by
  rw [h.probe_blocking]
  rcases hA.readn ha with ⟨s', hread, ha'⟩ | ⟨hwait, hread⟩
  · have hover := overlay_full p.garbage hdr
    rw [hlen] at hread hover
    rw [hread]
    dsimp only
    rw [hover]
    exact Or.inl ⟨s', ha', rfl⟩
  · rw [hlen] at hread
    rw [hread]
    exact Or.inr ⟨hwait, rfl⟩

/-- Closing the read side of a handle that is not deleted with it. -/
theorem Process.Live.close_reading {p : Process} (h : p.Live id)
    (hkeep : 0 < (p.handles id).counter ∨ (p.handles id).closedWr = false) :
    ∃ p', (tcpHandle id).close false true p = .ok p' ∧ p'.allocated = p.allocated ∧ (p'.handles id).deleted = false ∧
      (p'.handles id).closedRd = true ∧ (p'.handles id).probed = (p.handles id).probed ∧
      (p'.handles id).closedWr = (p.handles id).closedWr ∧ (p'.handles id).counter = (p.handles id).counter := by
  obtain ⟨hrest, fd, wire, answers, eos, deleted, hh, hdel⟩ := p.closeHandle_handles id false true
  have hdeleted : deleted = false := by
    cases deleted with
    | false => rfl
    | true =>
      rcases hdel rfl with e | ⟨hcount, hwr, -⟩
      · exact absurd (h.deleted.symm.trans e) Bool.false_ne_true
      · rcases hkeep with hpos | hopen
        · omega
        · exact absurd (hopen.symm.trans ((Bool.or_false _).symm.trans hwr)) Bool.false_ne_true
  refine ⟨_, h.close false true, hrest.1, ?_⟩
  rw [hh, Function.update_self]
  exact ⟨hdeleted, Bool.or_true _, rfl, Bool.or_false _, rfl⟩

/-- A TCP handle on which the bytes of a list of messages are to come brings these messages. -/
theorem tcp_hears_of (hA : Supplies closed A mayWait) (hG : Readable Good Done id) :
    Hears (tcpHandle id) (queue closed) (Streaming Good Done A closed id) fun ph =>
      Stuck (queue closed) ph ∨ mayWait where
  idle h := ⟨_, (hG.live h.1).base, h.2.1, hG.closedRd h.1⟩
  opened h := ⟨h.2.2.1, _, (hG.live h.1).base, h.2.1, hG.closedRd h.1⟩
  ended := by
    intro s p hdone
    obtain ⟨hid, hdel, hp, hrd⟩ := hG.done hdone
    refine ⟨(p.handles id).toCommBase, ?_, hp, hrd⟩
    change (p.deref id >>= _) = _
    rw [Process.deref_eq_ok.2 ⟨hid, hdel, rfl⟩]
    rfl
  probe := by
    rintro q p ⟨hopen, hp, hq, ha⟩ size
    cases q with
    | cons m q =>
      obtain ⟨hm, hlt⟩ := hq m (List.mem_cons_self ..)
      rw [encode_cons] at ha
      have hlt' : m.length < 256 ^ sizeofSizeT := Nat.lt_trans hlt (by decide)
      rcases (hG.live hopen).probe_header hA (Words.length_toBE _ _) ha size with ⟨s', ha', hcall⟩ | ⟨hwait, hcall⟩
      · left
        rw [Words.ofBE_toBE hlt'] at hcall
        refine ⟨m, q, _, rfl, hcall, ?_⟩
        rw [Process.setProbed_withIncoming]
        refine ⟨hG.withIncoming hopen _ _, ?_, hm, fun m' hm' => hq m' (List.mem_cons_of_mem _ hm'), ?_⟩
        · rw [Process.withIncoming_handles]
        · rw [Process.withIncoming_handles]
          exact ha'
      · exact Or.inr (Or.inr ⟨Or.inr hwait, hcall⟩)
    | nil =>
      right
      cases closed with
      | true =>
        have hhdr : encode true [] = List.replicate sizeofSizeT 0 ++ [] := rfl
        rw [hhdr] at ha
        rcases (hG.live hopen).probe_header hA List.length_replicate ha size with ⟨s', -, hcall⟩ | ⟨hwait, hcall⟩
        · left
          have hzero : Words.ofBE (List.replicate sizeofSizeT 0) = 0 := by decide
          rw [hzero] at hcall
          obtain ⟨p', hclose, hdone⟩ := hG.close (hG.withIncoming hopen (true, 0) s')
            (by rw [Process.withIncoming_handles])
          refine ⟨⟨rfl, rfl⟩, _, p', hcall, ?_, hdone⟩
          rw [Process.setProbed_withIncoming]
          exact hclose
        · exact Or.inr ⟨Or.inr hwait, hcall⟩
      | false =>
        refine Or.inr ⟨Or.inl ⟨[], rfl, fun h => ?_, fun m q' h => ?_⟩, ?_⟩
        · cases h.2
        · cases h
        · rw [(hG.live hopen).probe_blocking, hA.dry rfl ha (by decide)]
  receive := by
    rintro m q p ⟨hopen, -, hm, hq, ha⟩
    have hset : (tcpHandle id).setProbed (false, 0) p = p.withIncoming id (false, 0) (p.handles id).incoming := rfl
    rcases hA.readn ha with ⟨s', hread, ha'⟩ | ⟨hwait, hread⟩
    · refine Or.inl ⟨p.withIncoming id (false, 0) s', ?_, hG.withIncoming hopen _ _, ?_, hq, ?_⟩
      · rw [hset, ((hG.live hopen).withIncoming _ _).receive, Process.withIncoming_handles]
        dsimp only
        rw [hread]
        have hput := p.put_withIncoming id (false, 0) (p.handles id).incoming s'
        rw [Process.withIncoming_handles] at hput
        exact congrArg (fun w => Except.ok (Except.ok m.length, m, w)) hput
      · rw [Process.withIncoming_handles]
      · rw [Process.withIncoming_handles]
        exact ha'
    · refine Or.inr ⟨Or.inr hwait, ?_⟩
      rw [hset, ((hG.live hopen).withIncoming _ _).receive, Process.withIncoming_handles]
      dsimp only
      rw [hread]

end

section

variable (A : List SockArrival → Bytes → Prop) (closed : Bool) (id : Nat)

/-- A handle that somebody owns can be read. -/
theorem open_readable : Readable (fun p => p.Open id) (ReceivingOf A closed id (.ended [])) id where
  live h := h.live
  closedRd h := h.closedRd
  withIncoming h := h.withIncoming
  close := by
    intro p h hp
    obtain ⟨p', hclose, halloc, hdel, hrd, hprobed, -⟩ := h.live.close_reading (Or.inl h.owned)
    exact ⟨p', hclose, halloc ▸ h.live.allocated, hdel, hprobed.trans hp, hrd⟩
  done h := h

theorem receivingOf_streaming :
    ReceivingOf A closed id = Streaming (fun p => p.Open id) (ReceivingOf A closed id (.ended [])) A closed id := by
  funext ph
  cases ph <;> rfl

end

/-- A TCP handle on whose stream the bytes of a list of messages are to come brings these messages, or waits. -/
theorem receivingOf_hears {A : List SockArrival → Bytes → Prop} {closed : Bool} {mayWait : Prop}
    (hA : Supplies closed A mayWait) (id : Nat) :
    Hears (tcpHandle id) (queue closed) (ReceivingOf A closed id) fun ph => Stuck (queue closed) ph ∨ mayWait := by
  rw [receivingOf_streaming]
  exact tcp_hears_of hA (open_readable A closed id)

/-- A TCP handle whose stream holds the bytes of a list of messages brings these messages. -/
theorem tcp_reads_of {A : List SockArrival → Bytes → Prop} {closed : Bool} (hA : Supplies closed A False) (id : Nat) :
    Reads (tcpHandle id) (queue closed) (ReceivingOf A closed id) :=
  (receivingOf_hears hA id).reads fun h => h.resolve_right fun hwait => hwait

/-- A TCP handle on which the bytes of a list of messages arrive brings these messages. -/
theorem tcp_reads (closed : Bool) (id : Nat) : Reads (tcpHandle id) (queue closed) (Receiving closed id) := by
  have hsame : Receiving closed id = ReceivingOf (Arrives closed) closed id := by
    funext ph
    cases ph <;> rfl
  rw [hsame]
  exact tcp_reads_of (arrives_supplies closed) id

end Mtcl
