import Mtcl.HandleSHM
import Mtcl.Tcp.Stream

/-!
# The end of the stream

The size zero in a header stands for the end, and `send` puts the size of its message there whatever it is.  So the
encoding of a list of messages, followed or not by EOS, is injective on lists without an empty message
(`encode_injective`), and no further: `encode false [[]]` is `encode true []`.

`endOfStream_iff` says for which lists the receiving side sees what was sent.  On a shared-memory handle it needs
besides that the reader counts the chunks of each message as the writer does.
-/

namespace Mtcl

open Arrivals Sources Rounding

/-! ### What the receiving side is to see -/

section

variable {H W : Type} {vt : H → CommunicationHandle W} {id : H}

/-- The receiving side sees each of the messages, and the end if the sender has closed: the calls that a queue
of the messages allows are answered as the queue answers them, the read side is closed exactly when the end has
been answered, and behind the last message of a sender that has not closed a call waits. -/
def Sees (vt : H → CommunicationHandle W) (id : H) (closed : Bool) (ms : List Bytes) (s : HandleUser H × W) : Prop :=
  ∀ (size : Nat) (rs : List Request) (as : List (Option (Answer Bytes))) (q : List Bytes × Bool),
    Runs.specRun (asked closed) rs (ms, false) = some (as, q) →
    ∃ s', Runs.run (HandleUser.ask vt size) rs s = .ok (as, s') ∧
      (∃ b, (vt id).base s'.2 = .ok b ∧ b.closedRd = q.2) ∧
      (closed = false → q = ([], false) → ∀ r, HandleUser.ask vt size r s' = .error .blocked)

/-- A handle that brings the messages of a queue shows them. -/
theorem reads_sees {closed : Bool} {I : Phase (List Bytes) Bytes → W → Prop} (hr : Reads (vt id) (queue closed) I)
    {ms : List Bytes} {s : HandleUser H × W} (h : Owns I id (.idle ms) s) : Sees vt id closed ms s := by
  intro size rs as q hspec
  let R : HandleUser H × W → List Bytes × Bool → Prop := fun s q => ∃ ph, Owns I id ph s ∧ ph.queue = q
  have hstep : ∀ r s q b q', R s q → asked closed r q = some (b, q') →
      ∃ s', HandleUser.ask vt size r s = .ok (b, s') ∧ R s' q' := by
    rintro r ⟨u, w⟩ q b q' ⟨ph, howns, rfl⟩ hq
    obtain ⟨s', ph', hask, howns', hq'⟩ := ask_queue hr howns size hq
    exact ⟨s', hask, ph', howns', hq'⟩
  have hstart : R s (ms, false) := ⟨.idle ms, h, rfl⟩
  obtain ⟨⟨u, w⟩, hrun, ph, howns, rfl⟩ := Runs.run_simulates hstep hstart hspec
  refine ⟨(u, w), hrun, ?_, fun hc hq r => ?_⟩
  · cases ph with
    | idle q =>
      obtain ⟨b, hb, -, hrd⟩ := hr.idle howns.2.1
      exact ⟨b, hb, hrd⟩
    | opened m q =>
      obtain ⟨-, b, hb, -, hrd⟩ := hr.opened howns.2.1
      exact ⟨b, hb, hrd⟩
    | ended q =>
      obtain ⟨b, hb, -, hrd⟩ := hr.ended howns.2.1
      exact ⟨b, hb, hrd⟩
  · subst hc
    rcases ask_step hr howns size r with ⟨a, ph', s', -, hs, -⟩ | ⟨-, hask⟩
    · -- an open queue that is empty has no answer
      have hanswer := hs.queueAnswer
      rw [hq] at hanswer
      cases r <;> cases hanswer
    · exact hask

/-- A message that is received is not empty: the result zero is that of the end. -/
private theorem ask_message_ne_nil {size : Nat} {r : Request} {s s' : HandleUser H × W} {a : Option (Answer Bytes)}
    (h : HandleUser.ask vt size r s = .ok (a, s')) : a ≠ some (.message []) := by
  cases r with
  | probe =>
    obtain ⟨⟨r, n, u, w⟩, -, h⟩ := bind_eq_ok.1 h
    cases h
    rcases r with e | _ | k <;> exact nofun
  | receive cap =>
    obtain ⟨⟨r, bs, u, w⟩, -, h⟩ := bind_eq_ok.1 h
    cases h
    rcases r with e | _ | k
    · cases e <;> exact nofun
    · exact nofun
    · intro e
      dsimp only [receiveAnswer] at e
      split at e
      · rename_i hlen
        cases e
        cases hlen
      · cases e

private theorem specRun_receives (closed : Bool) (ms q : List Bytes) :
    Runs.specRun (asked closed) (ms.map fun m => .receive m.length) (ms ++ q, false) =
      some (ms.map fun m => some (.message m), (q, false)) := by
  induction ms with
  | nil => rfl
  | cons m ms ih =>
    have hstep : asked closed (.receive m.length) (m :: (ms ++ q), false) =
        some (some (.message m), (ms ++ q, false)) := by
      simp [asked, queueAnswer]
    rw [List.map_cons, Runs.specRun, List.cons_append, hstep]
    change (Runs.specRun (asked closed) _ (ms ++ q, false) >>= fun x => some (_ :: x.1, x.2)) = _
    rw [ih]
    rfl

/-- A list with an empty message is never seen as it was sent. -/
private theorem sees_ne_nil {closed : Bool} {ms : List Bytes} {s : HandleUser H × W} (h : Sees vt id closed ms s) :
    ∀ m ∈ ms, m ≠ [] := by
  rintro m hm rfl
  have hspec := specRun_receives closed ms []
  rw [List.append_nil] at hspec
  obtain ⟨s', hrun, -⟩ := h 0 _ _ _ hspec
  exact Runs.run_outputs ask_message_ne_nil hrun _ (List.mem_map_of_mem hm) rfl

end

/-! ### TCP -/

/-- The same encodings, when something may come behind EOS. -/
theorem encode_append_injective {closed closed' : Bool} {ms ms' : List Bytes} {x y : Bytes} (h : ∀ m ∈ ms, Sendable m)
    (h' : ∀ m ∈ ms', Sendable m) (hx : closed = false → x = []) (hy : closed' = false → y = [])
    (e : encode closed ms ++ x = encode closed' ms' ++ y) : closed = closed' ∧ ms = ms' := by
  have hsize : ∀ m : Bytes, Sendable m → Words.ofBE (Words.toBE sizeofSizeT m.length) = m.length := fun m hm =>
    Words.ofBE_toBE (Nat.lt_trans hm.2 (by decide))
  have hpos : ∀ m : Bytes, Sendable m → m.length ≠ 0 := fun m hm e => hm.1 (List.length_eq_zero_iff.1 e)
  -- EOS is no header of a message
  have hzero : ∀ (c c' : Bool) (m : Bytes) (q : List Bytes) (x y : Bytes), Sendable m → (c = false → x = []) →
      encode c [] ++ x ≠ encode c' (m :: q) ++ y := by
    intro c c' m q x y hm hx he
    rw [encode_cons, List.append_assoc] at he
    cases c with
    | false =>
      rw [hx rfl] at he
      have hlen := congrArg List.length he
      simp only [List.length_append, Words.length_toBE] at hlen
      exact absurd hlen.symm (Nat.ne_of_gt (Nat.add_pos_left (by decide) _))
    | true =>
      have htake : (encode true []).take sizeofSizeT = Words.toBE sizeofSizeT m.length := by
        have htake := congrArg (List.take sizeofSizeT) he
        rwa [List.take_left' (Words.length_toBE _ _)] at htake
      have hval := congrArg Words.ofBE htake
      rw [hsize m hm] at hval
      exact hpos m hm hval.symm
  induction ms generalizing ms' with
  | nil =>
    cases ms' with
    | nil =>
      refine ⟨?_, rfl⟩
      cases closed <;> cases closed'
      · rfl
      · rw [hx rfl] at e
        cases e
      · rw [hy rfl] at e
        cases e
      · rfl
    | cons m ms' => exact absurd e (hzero _ _ m ms' x y (h' m (List.mem_cons_self ..)) hx)
  | cons m ms ih =>
    have hm := h m (List.mem_cons_self ..)
    cases ms' with
    | nil => exact absurd e.symm (hzero _ _ m ms y x hm hy)
    | cons m' ms' =>
      have hm' := h' m' (List.mem_cons_self ..)
      simp only [encode_cons, List.append_assoc] at e
      obtain ⟨hhdr, hrest⟩ := List.append_inj e (by rw [Words.length_toBE, Words.length_toBE])
      have hlen : m.length = m'.length := by rw [← hsize m hm, hhdr, hsize m' hm']
      obtain ⟨rfl, htail⟩ := List.append_inj hrest hlen
      obtain ⟨hc, rfl⟩ := ih (fun x hx => h x (List.mem_cons_of_mem _ hx))
        (fun x hx => h' x (List.mem_cons_of_mem _ hx)) htail
      exact ⟨hc, rfl⟩

/-- The encoding of a list of messages, followed or not by EOS, tells the list and whether there is EOS. -/
theorem encode_injective {closed closed' : Bool} {ms ms' : List Bytes} (h : ∀ m ∈ ms, Sendable m)
    (h' : ∀ m ∈ ms', Sendable m) (e : encode closed ms = encode closed' ms') : closed = closed' ∧ ms = ms' :=
  encode_append_injective (x := []) (y := []) h h' (fun _ => rfl) (fun _ => rfl) (by rw [e])

/-- Over TCP every send of the messages is successful, and then the receiving side sees them, whatever pieces
the bytes arrive in. -/
def TcpSees (closed : Bool) (ms : List Bytes) : Prop :=
  ∀ (p : Process) (i : Nat) (v : HandleUser Nat), p.Writable i → v.realHandle = some i →
    ∃ p', HandleUser.sendAll tcpHandle closed ms (v, p) = .ok (ms.map fun m => .ok m.length, p') ∧
      ∀ (s : App) (x id : Nat), s.Reachable → s.proc.Open id → (s.proc.handles id).probed.1 = false →
        (s.vars x).realHandle = some id → (s.vars x).isReadable = true →
        Arrives closed (s.proc.handles id).incoming ((p'.handles i).wire.drop (p.handles i).wire.length) →
        Sees tcpHandle id closed ms (s.vars x, s.proc)

private theorem tcp_sendAll {p : Process} {i : Nat} {v : HandleUser Nat} (hw : p.Writable i)
    (hv : v.realHandle = some i) (closed : Bool) (ms : List Bytes) :
    ∃ p', HandleUser.sendAll tcpHandle closed ms (v, p) = .ok (ms.map fun m => .ok m.length, p') ∧
      (p'.handles i).wire = (p.handles i).wire ++ encode closed ms := by
  obtain ⟨v', p1, hsends, ⟨hv', hw1⟩, hwire⟩ := tcp_sends hw hv ms
  unfold HandleUser.sendAll
  rw [hsends, bind_ok]
  cases closed with
  | false => exact ⟨p1, rfl, by rw [hwire]; simp [encode]⟩
  | true =>
    obtain ⟨p2, hclose, hwire2⟩ := hw1.close hv'
    refine ⟨p2, ?_, ?_⟩
    · dsimp only
      rw [if_pos rfl, hclose]
      rfl
    · rw [hwire2, hwire, List.append_assoc]
      rfl

private theorem reachable_incoming (bs : Bytes) :
    ∃ s : App, s.Reachable ∧ s.proc.Open 0 ∧ (s.proc.handles 0).probed.1 = false ∧ (s.vars 0).realHandle = some 0 ∧
      (s.vars 0).isReadable = true ∧ (s.proc.handles 0).incoming = putBack bs [] ∧ s.proc.Writable 0 := by
  have h0 : App.Reachable {} := .start ⟨fun _ => 0, rfl, fun _ => rfl⟩
  have h1 := Runs.Reach.next (Op.connect 0 (some { fd := 3, incoming := putBack bs [] })) h0 rfl
  exact ⟨_, h1, ⟨⟨Nat.one_pos, rfl, Option.some_ne_none 3⟩, rfl, Int.one_pos⟩, rfl, rfl, rfl, rfl,
    ⟨⟨Nat.one_pos, rfl, Option.some_ne_none 3⟩, rfl, nofun⟩⟩

private theorem tcpSees_ne_nil {closed : Bool} {ms : List Bytes} (h : TcpSees closed ms) : ∀ m ∈ ms, m ≠ [] := by
  obtain ⟨t, -, -, -, hv, -, -, hw⟩ := reachable_incoming []
  obtain ⟨p', hsend, hsees⟩ := h t.proc 0 (t.vars 0) hw hv
  obtain ⟨s, hs, hopen, hp, hx, hread, hin, -⟩ :=
    reachable_incoming ((p'.handles 0).wire.drop (t.proc.handles 0).wire.length)
  have harr := arrives_putBack closed ((p'.handles 0).wire.drop (t.proc.handles 0).wire.length)
  rw [← hin] at harr
  exact sees_ne_nil (hsees s 0 0 hs hopen hp hx hread harr)

private theorem tcpSees_of_sendable {closed : Bool} {ms : List Bytes} (hms : ∀ m ∈ ms, Sendable m) :
    TcpSees closed ms := by
  intro p i v hw hv
  obtain ⟨p', hsend, hwire⟩ := tcp_sendAll hw hv closed ms
  refine ⟨p', hsend, ?_⟩
  intro s x id hs hopen hp hx hread harr
  rw [hwire, List.drop_left' rfl] at harr
  exact reads_sees (tcp_reads closed id) ⟨hx, ⟨hopen, hp, hms, harr⟩, fun _ => hread⟩

/-! ### Shared memory -/

namespace ShmBuffer

/-- The fills that the reader has not taken yet. -/
def pending (b : ShmBuffer) : Nat := (if b.seg.guard then 1 else 0) + b.writer.countP Option.isSome

private theorem awaitLoop_pending {b b' : ShmBuffer} {w : List (Option Fill)} (h : b.awaitLoop w = .ok b') :
    b'.seg.guard = true ∧ b'.writer.countP Option.isSome + 1 = w.countP Option.isSome := by
  induction w with
  | nil => cases h
  | cons x w ih =>
    cases x with
    | none =>
      obtain ⟨h1, h2⟩ := ih h
      exact ⟨h1, by rw [h2]; rfl⟩
    | some f =>
      cases h
      exact ⟨rfl, by simp⟩

private theorem await_pending {b b' : ShmBuffer} (h : b.await = .ok b') :
    b'.seg.guard = true ∧ b'.pending = b.pending := by
  unfold await at h
  by_cases hg : b.seg.guard = true
  · rw [if_pos hg] at h
    cases h
    exact ⟨hg, rfl⟩
  · rw [if_neg hg] at h
    obtain ⟨h1, h2⟩ := awaitLoop_pending h
    refine ⟨h1, ?_⟩
    rw [pending, pending, h1, if_pos rfl, if_neg hg, ← h2]
    omega

/-- Every turn of the loop takes one fill, and copies at most a chunk. -/
private theorem getLoop_pending {n sz : Nat} {got bs : Bytes} {b b' : ShmBuffer} (hg : b.seg.guard = true)
    (h : getLoop n sz got b = .ok (bs, b')) :
    b'.pending + n = b.pending ∧ bs.length ≤ got.length + n * shmSmallMsgSize := by
  induction n generalizing sz got b with
  | zero =>
    cases h
    exact ⟨rfl, Nat.le_add_right _ _⟩
  | succ n ih =>
    have hrelease : ({ b with seg := b.seg.release } : ShmBuffer).pending + 1 = b.pending := by
      have hfree : ({ b with seg := b.seg.release } : ShmBuffer).pending = b.writer.countP Option.isSome :=
        Nat.zero_add _
      rw [hfree, pending, hg, if_pos rfl]
      exact Nat.add_comm ..
    have hcopy : (got ++ b.seg.data.take (min sz shmSmallMsgSize)).length ≤ got.length + shmSmallMsgSize := by
      rw [List.length_append, List.length_take]
      omega
    unfold getLoop at h
    dsimp only at h
    by_cases hn : n = 0
    · rw [if_pos hn] at h
      cases h
      subst hn
      exact ⟨hrelease, by omega⟩
    · rw [if_neg hn] at h
      rcases ha : await { b with seg := b.seg.release } with st | b1
      · rw [ha] at h
        cases h
      · rw [ha] at h
        obtain ⟨hg1, hp1⟩ := await_pending ha
        obtain ⟨h1, h2⟩ := ih hg1 h
        rw [Nat.succ_mul]
        exact ⟨by omega, by omega⟩

/-- A `get` that returns a message has counted its chunks, and taken as many fills. -/
private theorem get_pending {b b' : ShmBuffer} {cap k : Nat} {bs : Bytes} (h : b.get cap = .ok (.ok (k + 1), bs, b'))
    (hlen : bs.length = k + 1) :
    ∃ n, nmsgs bs.length = .ok n ∧ ceilDiv bs.length shmSmallMsgSize ≤ n ∧ b'.pending + n = b.pending := by
  unfold get at h
  by_cases hc : (!b.shmp || cap == 0) = true
  · rw [if_pos hc] at h
    cases h
  · rw [if_neg hc] at h
    obtain ⟨b1, ha, h⟩ := bind_eq_ok.1 h
    obtain ⟨hg1, hp1⟩ := await_pending ha
    unfold takeMessage at h
    by_cases h0 : b1.seg.size = 0
    · rw [if_pos h0] at h
      cases h
    · rw [if_neg h0] at h
      obtain ⟨n, hn, h⟩ := bind_eq_ok.1 h
      obtain ⟨⟨got, b2⟩, hloop, h⟩ := bind_eq_ok.1 h
      simp only [pure_eq_ok, Except.ok.injEq, Prod.mk.injEq] at h
      obtain ⟨hsize, rfl, rfl⟩ := h
      obtain ⟨hp2, hgot⟩ := getLoop_pending hg1 hloop
      refine ⟨n, by rw [hlen, ← hsize]; exact hn, ?_, hp2.trans hp1⟩
      rw [ceilDiv_le_iff shmSmallMsgSize_pos]
      simpa using hgot

end ShmBuffer

/-- The number of chunks of some messages. -/
def chunks (ms : List Bytes) : Nat := (ms.map fun m => ceilDiv m.length shmSmallMsgSize).sum

theorem length_fillsOf (closed : Bool) {ms : List Bytes} (h : ∀ m ∈ ms, m ≠ []) :
    (fillsOf closed ms).length = chunks ms + if closed then 1 else 0 := by
  induction ms with
  | nil => cases closed <;> rfl
  | cons m ms ih =>
    rw [fillsOf_cons, List.length_append, ih fun x hx => h x (List.mem_cons_of_mem _ hx),
      ShmBuffer.fills_eq (h m (List.mem_cons_self ..)), length_putLoop]
    simp [chunks, Nat.add_assoc]

namespace HandleSHM

variable {size size' cap : Nat} {u u' : HandleUser Unit} {h h' : HandleSHM} {r : Ret}

/-- The application may read from the handle, and no header has been read. -/
private def Unprobed (s : HandleUser Unit × HandleSHM) : Prop := s.1.isReadable = true ∧ s.2.probed.1 = false

private theorem eq_of_deref (he : h.deref = .ok h') : h = h' := by
  unfold deref at he
  split at he
  · cases he
  · exact Except.ok.inj he

/-- A blocking `probe` takes no fill, and without a fill it fails with `EINVAL`. -/
private theorem probe_pending (he : shmHandle.probe size true h = .ok (r, size', h')) :
    h'.inBuf.pending = h.inBuf.pending ∧ (0 < h.inBuf.pending ∨ r = .error .EINVAL) := by
  obtain ⟨k, hk, he⟩ := bind_eq_ok.1 he
  obtain rfl := eq_of_deref hk
  obtain ⟨⟨r0, b⟩, hs, he⟩ := bind_eq_ok.1 he
  unfold ShmBuffer.getsize at hs
  by_cases hm : (!h.inBuf.shmp) = true
  · rw [if_pos rfl, if_pos hm] at hs
    cases hs
    cases he
    exact ⟨rfl, Or.inr rfl⟩
  · rw [if_pos rfl, if_neg hm] at hs
    obtain ⟨b1, ha, hs⟩ := bind_eq_ok.1 hs
    obtain ⟨hg, hp⟩ := ShmBuffer.await_pending ha
    cases hs
    cases he
    refine ⟨hp, Or.inl ?_⟩
    rw [← hp, ShmBuffer.pending, hg, if_pos rfl]
    omega

private theorem receiveProbed_chunks {k : Nat} {m : Bytes} (hread : u.isReadable = true)
    (he : u.receiveProbed (fun _ => shmHandle) cap h = .ok (.ok (k + 1), m, u', h')) (hlen : m.length = k + 1) :
    Unprobed (u', h') ∧ ∃ n, nmsgs m.length = .ok n ∧ ceilDiv m.length shmSmallMsgSize ≤ n ∧
      h'.inBuf.pending + n = h.inBuf.pending := by
  obtain ⟨rfl, -, b, -, -, hcase⟩ := HandleUser.receiveProbed_cases he
  rcases hcase with ⟨-, hr, -⟩ | ⟨-, hrecv⟩
  · cases hr
  · obtain ⟨j, hj, hrecv⟩ := bind_eq_ok.1 hrecv
    obtain rfl := eq_of_deref hj
    obtain ⟨⟨r0, bs0, b0⟩, hget, hrecv⟩ := bind_eq_ok.1 hrecv
    cases hrecv
    exact ⟨⟨hread, rfl⟩, ShmBuffer.get_pending hget hlen⟩

/-- A message that is received has taken as many fills as the reader counts chunks in it. -/
private theorem ask_chunks {m : Bytes} {s s' : HandleUser Unit × HandleSHM}
    (he : HandleUser.ask (fun _ => shmHandle) size (.receive cap) s = .ok (some (.message m), s')) :
    Unprobed s' ∧ ∃ n, nmsgs m.length = .ok n ∧ ceilDiv m.length shmSmallMsgSize ≤ n ∧
      s'.2.inBuf.pending + n = s.2.inBuf.pending := by
  obtain ⟨u, h⟩ := s
  obtain ⟨⟨r, bs, u', h'⟩, hrecv, he⟩ := bind_eq_ok.1 he
  simp only [pure_eq_ok, Except.ok.injEq, Prod.mk.injEq] at he
  obtain ⟨ha, rfl⟩ := he
  -- the result is the size of the message
  obtain ⟨k, rfl, rfl, hlen⟩ : ∃ k, r = .ok (k + 1) ∧ bs = m ∧ bs.length = k + 1 := by
    rcases r with e | _ | k
    · cases e <;> cases ha
    · cases ha
    · dsimp only [receiveAnswer] at ha
      split at ha
      · cases ha
        exact ⟨k, rfl, rfl, ‹_›⟩
      · cases ha
  obtain ⟨id, b, hu, hb, hcase⟩ := HandleUser.receive_cases hrecv
  rcases hcase with ⟨-, -, hr, -⟩ | ⟨-, hread, -, hrest⟩ | ⟨hp, r0, size0, u0, w0, hprobe, hrest⟩
  · cases hr
  · exact receiveProbed_chunks (u := { u with newConnection := false }) hread hrest hlen
  · rcases hrest with ⟨hr, rfl, -⟩ | ⟨⟨j, rfl⟩, hrest⟩
    · exact absurd rfl (hr k)
    · obtain ⟨id', b', hu', -, hb', hout⟩ := HandleUser.probe_cases hprobe
      rcases hout with ⟨-, -, hknown⟩ | ⟨-, -, -, hread, r1, w1, h1, hout⟩
      · -- a size that was not known is not answered without a probe
        rcases hknown with ⟨hp', -⟩ | ⟨-, -, -, hr⟩
        · obtain rfl : b = b' := Except.ok.inj (hb.symm.trans hb')
          rw [hp] at hp'
          cases hp'
        · cases hr
      · have hp1 := (probe_pending h1).1
        cases hout with
        | header hsize =>
          obtain ⟨hun, n, hn, hle, hpend⟩ := receiveProbed_chunks (hread j rfl) hrest hlen
          exact ⟨hun, n, hn, hle, hpend.trans hp1⟩

private theorem ask_finished {s s' : HandleUser Unit × HandleSHM} (hs : Unprobed s) (hrd : s.2.closedRd = false)
    (he : HandleUser.ask (fun _ => shmHandle) size .probe s = .ok (some .finished, s')) : 0 < s.2.inBuf.pending := by
  obtain ⟨u, h⟩ := s
  obtain ⟨⟨r, size', u', h'⟩, hprobe, he⟩ := bind_eq_ok.1 he
  simp only [pure_eq_ok, Except.ok.injEq, Prod.mk.injEq] at he
  obtain ⟨ha, rfl⟩ := he
  obtain ⟨-, b, -, -, hb, hcase⟩ := HandleUser.probe_cases hprobe
  obtain ⟨k, hk, hb⟩ := bind_eq_ok.1 hb
  obtain rfl := eq_of_deref hk
  cases hb
  rcases hcase with ⟨-, -, hknown⟩ | ⟨-, -, -, -, r1, h1, hp, hout⟩
  · rcases hknown with ⟨hp, -⟩ | ⟨-, hclosed, -⟩
    · rw [hs.2] at hp
      cases hp
    · rcases hclosed with hread | hclosed
      · rw [hs.1] at hread
        cases hread
      · rw [hrd] at hclosed
        cases hclosed
  · rcases (probe_pending hp).2 with hpos | rfl
    · exact hpos
    · -- the failure is reported as such
      cases hout with
      | closed hr _ => rcases hr with hr | hr <;> cases hr
      | failed _ => cases ha

/-- Messages that are received have taken at least the fills that were made for them, and no more only when the
reader has counted the chunks of each as the writer does. -/
private theorem asks_chunks {ms : List Bytes} {s s' : HandleUser Unit × HandleSHM}
    (hrun : Runs.run (HandleUser.ask (fun _ => shmHandle) size) (ms.map fun m => .receive m.length) s =
      .ok (ms.map fun m => some (.message m), s')) (hs : Unprobed s) :
    Unprobed s' ∧ s'.2.inBuf.pending + chunks ms ≤ s.2.inBuf.pending ∧
      (s.2.inBuf.pending ≤ s'.2.inBuf.pending + chunks ms →
        ∀ m ∈ ms, nmsgs m.length = .ok (ceilDiv m.length shmSmallMsgSize)) := by
  induction ms generalizing s with
  | nil =>
    cases hrun
    exact ⟨hs, Nat.le_refl _, fun _ => nofun⟩
  | cons m ms ih =>
    obtain ⟨a, s1, as, hask, hrest, e⟩ := Runs.run_cons_eq_ok hrun
    obtain ⟨rfl, rfl⟩ := List.cons.inj e
    obtain ⟨hs1, n, hn, hle, hpend⟩ := ask_chunks hask
    obtain ⟨hs', h1, h2⟩ := ih hrest hs1
    have hsum : chunks (m :: ms) = ceilDiv m.length shmSmallMsgSize + chunks ms := by simp [chunks]
    refine ⟨hs', by omega, fun hge x hx => ?_⟩
    have hexact : n = ceilDiv m.length shmSmallMsgSize := by omega
    rcases List.mem_cons.1 hx with rfl | hx
    · rw [hn, hexact]
    · exact h2 (by omega) x hx

/-- `HandleUser::close` puts the fill of EOS into the buffer. -/
theorem Writable.close (hw : h.Writable) (hu : u.realHandle = some ()) :
    ∃ h', u.close (fun _ => shmHandle) h = .ok h' ∧ h'.out.sent = h.out.sent ++ fills [] := by
  have hput : h.out.put [] = (.ok 0, { h.out with sent := h.out.sent ++ fills [] }) := by
    rw [ShmBuffer.put, if_neg]
    · rfl
    · rw [hw.mapped]
      decide
  let k : HandleSHM := { h with out := { h.out with sent := h.out.sent ++ fills [] }, closedWr := true }
  have hmark : h.close true false = (k.notifyClose true h.closedRd).deleteUnused := by
    unfold HandleSHM.close sendEOS
    rw [hw.closedWr, hput]
    rfl
  have hsent : ∀ rd, (k.notifyClose true rd).deleteUnused.out.sent = h.out.sent ++ fills [] := by
    intro rd
    unfold deleteUnused
    cases rd <;> split <;> simp [k, notifyClose, ShmBuffer.close, hw.mapped]
  refine ⟨_, ?_, (congrArg (fun x => x.out.sent) hmark).trans (hsent _)⟩
  unfold HandleUser.close
  rw [hu]
  change (h.deref >>= fun h => .ok (h.close true false)) = _
  rw [deref, hw.deleted]
  rfl

end HandleSHM

/-- Over shared memory every send of the messages is successful, and then the receiving side sees them, however
the two sides interleave. -/
def ShmSees (closed : Bool) (ms : List Bytes) : Prop :=
  ∀ (h : HandleSHM) (v : HandleUser Unit), h.Writable → v.realHandle = some () →
    ∃ h', HandleUser.sendAll (fun _ => shmHandle) closed ms (v, h) = .ok (ms.map fun m => .ok m.length, h') ∧
      ∀ (k : HandleSHM) (u : HandleUser Unit), k.Open → k.probed.1 = false → k.inBuf.seg.guard = false →
        u.realHandle = some () → u.isReadable = true →
        Writes closed k.inBuf.writer (h'.out.sent.drop h.out.sent.length) →
        Sees (fun _ => shmHandle) () closed ms (u, k)

private theorem shm_sendAll {h : HandleSHM} {v : HandleUser Unit} (hw : h.Writable) (hv : v.realHandle = some ())
    (closed : Bool) (ms : List Bytes) :
    ∃ h', HandleUser.sendAll (fun _ => shmHandle) closed ms (v, h) = .ok (ms.map fun m => .ok m.length, h') ∧
      h'.out.sent = h.out.sent ++ fillsOf closed ms := by
  let J : HandleUser Unit × HandleSHM → Prop := fun s => s.1.realHandle = some () ∧ s.2.Writable
  have hstep : ∀ {u h}, J (u, h) → ∀ m, ∃ u' h', u.send (fun _ => shmHandle) m h = .ok (.ok m.length, u', h') ∧
      J (u', h') ∧ h'.out.sent = h.out.sent ++ fills m := by
    rintro u h ⟨hu, hw⟩ m
    exact ⟨_, _, hw.send hu m, ⟨hu, hw.deleted, hw.closedWr, hw.mapped⟩, rfl⟩
  obtain ⟨v', h1, hsends, ⟨hv', hw1⟩, hsent⟩ := run_sends (J := J) hstep ⟨hv, hw⟩ ms
  unfold HandleUser.sendAll
  rw [hsends, bind_ok]
  cases closed with
  | false => exact ⟨h1, rfl, by rw [hsent]; simp [fillsOf]⟩
  | true =>
    obtain ⟨h2, hclose, hsent2⟩ := hw1.close hv'
    refine ⟨h2, ?_, ?_⟩
    · dsimp only
      rw [if_pos rfl, hclose]
      rfl
    · rw [hsent2, hsent, List.append_assoc]
      rfl

/-- A fresh pair of buffers; the peer is about to make the given fills. -/
private def freshShm (fs : List Fill) : HandleSHM where
  counter := 1
  inBuf := { seg := emptySegment, writer := fs.map some }
  out := { seg := emptySegment }

private theorem pending_freshShm (fs : List Fill) : (freshShm fs).inBuf.pending = fs.length := by
  have hcount : (fs.map some).countP Option.isSome = fs.length := by simp [List.countP_map, Function.comp_def]
  exact (Nat.zero_add _).trans hcount

private theorem shmSees_countable {closed : Bool} {ms : List Bytes} (h : ShmSees closed ms) :
    ∀ m ∈ ms, Countable m := by
  obtain ⟨h1, hsend, hsees⟩ := h (freshShm []) ⟨some (), true, false⟩ ⟨rfl, rfl, rfl⟩ rfl
  obtain ⟨h2, hsend', hsent⟩ := shm_sendAll (h := freshShm []) (v := ⟨some (), true, false⟩)
    ⟨rfl, rfl, rfl⟩ rfl closed ms
  obtain rfl : h1 = h2 := by
    have e := Except.ok.inj (hsend.symm.trans hsend')
    exact (Prod.mk.inj e).2
  -- the receiving side when the peer is never early
  let fs := fillsOf closed ms
  have hw : Writes closed (freshShm fs).inBuf.writer (h1.out.sent.drop (freshShm []).out.sent.length) := by
    rw [hsent, List.drop_left' rfl]
    exact ⟨[], brings_map_some _, fun _ => nofun⟩
  have hsee := hsees (freshShm fs) ⟨some (), true, false⟩ ⟨rfl, rfl, Int.one_pos, rfl⟩ rfl rfl rfl rfl hw
  have hne := sees_ne_nil hsee
  have hspec := specRun_receives closed ms []
  rw [List.append_nil] at hspec
  obtain ⟨s', hrun, ⟨b, hb, hrd⟩, -⟩ := hsee 0 _ _ _ hspec
  obtain ⟨hun, -, hexact⟩ := HandleSHM.asks_chunks hrun ⟨rfl, rfl⟩
  have hlast : (if closed then 1 else 0) ≤ s'.2.inBuf.pending := by
    cases closed with
    | false => exact Nat.zero_le _
    | true =>
      -- the probe behind the last message is answered too
      have hspec' : Runs.specRun (asked true) ((ms.map fun m => .receive m.length) ++ [.probe]) (ms, false) =
          some ((ms.map fun m => some (.message m)) ++ [some .finished], ([], true)) := by
        rw [Runs.specRun_append, hspec]
        rfl
      obtain ⟨s2, hrun2, -⟩ := hsee 0 _ _ _ hspec'
      obtain ⟨a, hask, e⟩ := Runs.run_concat_eq_ok hrun hrun2
      obtain rfl := List.singleton_inj.1 (List.append_cancel_left e)
      have hrd' : s'.2.closedRd = false := by
        obtain ⟨k, hk, hb⟩ := bind_eq_ok.1 hb
        obtain rfl := HandleSHM.eq_of_deref hk
        cases hb
        exact hrd
      exact HandleSHM.ask_finished hun hrd' hask
  have hcount := hexact (by
    rw [pending_freshShm, length_fillsOf closed hne]
    omega)
  intro m hm
  exact ⟨hne m hm, (nmsgs_eq_iff (List.length_pos_iff.2 (hne m hm))).1 (hcount m hm)⟩

private theorem shmSees_of_countable {closed : Bool} {ms : List Bytes} (hms : ∀ m ∈ ms, Countable m) :
    ShmSees closed ms := by
  intro h v hw hv
  obtain ⟨h', hsend, hsent⟩ := shm_sendAll hw hv closed ms
  refine ⟨h', hsend, ?_⟩
  intro k u hopen hp hg hu hread hwrites
  rw [hsent, List.drop_left' rfl] at hwrites
  have howns : Owns (ShmReceiving closed) () (.idle ms) (u, k) := ⟨hu, ⟨hopen, hp, hg, hms, hwrites⟩, fun _ => hread⟩
  exact @reads_sees _ _ (fun _ => shmHandle) () _ _ (shm_reads closed) _ _ howns

/-! ### The end -/

/-- The receiving side sees what was sent, and the end only if the sender has closed, exactly when no message is
empty and, over shared memory, the chunks of each are counted right. -/
theorem endOfStream_iff (closed : Bool) {ms : List Bytes} (hms : ∀ m ∈ ms, m.length < 2 ^ 63) :
    (TcpSees closed ms ↔ ∀ m ∈ ms, m ≠ []) ∧ (ShmSees closed ms ↔ ∀ m ∈ ms, m ≠ [] ∧ ChunksExact m.length) :=
  ⟨⟨tcpSees_ne_nil, fun h => tcpSees_of_sendable fun m hm => ⟨h m hm, hms m hm⟩⟩,
    ⟨shmSees_countable, shmSees_of_countable⟩⟩

/-- Three messages, of which the second has two chunks over shared memory, and the end. -/
theorem endOfStream_iff_run :
    let ms : List Bytes := [[7], List.replicate (shmSmallMsgSize + 1) 8, [9, 9]]
    TcpSees false ms ∧ TcpSees true ms ∧ ShmSees true ms := by
  have hlen : (List.replicate (shmSmallMsgSize + 1) (8 : UInt8)).length = shmSmallMsgSize + 1 := List.length_replicate
  generalize List.replicate (shmSmallMsgSize + 1) (8 : UInt8) = big at hlen
  have hne : big ≠ [] := by
    rintro rfl
    cases hlen
  have hall : ∀ m ∈ [[7], big, [9, 9]], m.length < 2 ^ 63 ∧ m ≠ [] ∧ ChunksExact m.length := by
    intro m hm
    rcases List.mem_cons.1 hm with rfl | hm
    · decide
    · rcases List.mem_cons.1 hm with rfl | hm
      · rw [hlen]
        exact ⟨by decide, hne, by decide⟩
      · rw [List.mem_singleton.1 hm]
        decide
  have hms : ∀ m ∈ [[7], big, [9, 9]], m.length < 2 ^ 63 := fun m hm => (hall m hm).1
  have hnonempty : ∀ m ∈ [[7], big, [9, 9]], m ≠ [] := fun m hm => (hall m hm).2.1
  exact ⟨(endOfStream_iff false hms).1.2 hnonempty, (endOfStream_iff true hms).1.2 hnonempty,
    (endOfStream_iff true hms).2.2 fun m hm => (hall m hm).2⟩

/-- A sender that sends one empty message and does not close: the receiving side is told the end, and closes its
read side. -/
theorem empty_ends : ¬ TcpSees false [[]] ∧ ¬ ShmSees false [[]] ∧ encode false [[]] = encode true [] ∧
    ∃ (s : App) (p' : Process) (u' : HandleUser Nat) (q' : Process), s.Reachable ∧
      HandleUser.sendAll tcpHandle false [[]] (s.vars 0, s.proc) = .ok ([.ok 0], p') ∧
      (s.proc.handles 0).incoming = putBack ((p'.handles 0).wire.drop (s.proc.handles 0).wire.length) [] ∧
      HandleUser.ask tcpHandle 0 .probe (s.vars 0, s.proc) = .ok (some .finished, (u', q')) ∧
      (q'.handles 0).closedRd = true := by
  refine ⟨fun h => tcpSees_ne_nil h [] (List.mem_singleton_self _) rfl,
    fun h => (shmSees_countable h [] (List.mem_singleton_self _)).1 rfl, by decide, ?_⟩
  obtain ⟨s, hs, hopen, hp, hx, hread, hin, hw⟩ := reachable_incoming (encode true [])
  obtain ⟨p', hsend, hwire⟩ := tcp_sendAll hw hx false [[]]
  have hsees : Sees tcpHandle 0 true [] (s.vars 0, s.proc) := by
    have harr := arrives_putBack true (encode true [])
    rw [← hin] at harr
    exact reads_sees (tcp_reads true 0) ⟨hx, ⟨hopen, hp, nofun, harr⟩, fun _ => hread⟩
  obtain ⟨⟨u', q'⟩, hrun, ⟨b, hb, hrd⟩, -⟩ := hsees 0 [.probe] [some .finished] ([], true) rfl
  obtain ⟨a, t, as, hask, hnil, e⟩ := Runs.run_cons_eq_ok hrun
  cases hnil
  cases e
  refine ⟨s, p', u', q', hs, hsend, ?_, hask, ?_⟩
  · rw [hwire, List.drop_left' rfl, hin]
    rfl
  · obtain ⟨k, hk, hb⟩ := bind_eq_ok.1 hb
    obtain ⟨-, -, rfl⟩ := Process.deref_eq_ok.1 hk
    cases hb
    exact hrd

end Mtcl
