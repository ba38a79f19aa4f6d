import Mtcl.Tcp.Stream

/-!
# A connection is a message queue

One side sends messages and closes; the other side probes and receives with any capacities, and may give the handle back
with `yield` and take it from the ready queue again.  `tcp_messageQueue` says that what the receiving side sees is a
queue of the messages sent, for every segmentation of the stream: a probe answers the size of the oldest message, a
receive takes it or, without room, leaves it, and behind the last message the end is answered for good.
-/

namespace Mtcl

open Arrivals Sources

/-- What an application does with a handle it reads from: a blocking call, or giving the handle back and taking
it from the ready queue again. -/
inductive QueueOp
  | ask (r : Request)
  | retake (destroyFirst : Bool)
  deriving DecidableEq, Repr

/-- The descriptor of the handle, when `select` finds it ready. -/
def readyFd (p : Process) (id : Nat) : Finset Nat :=
  match (p.handles id).fd with
  | some fd => if readable (p.handles id).incoming then {fd} else ∅
  | none => ∅

/-- `yield`, a pass of `update` in the I/O thread, and `getNext`.  The object that has yielded is destroyed
before the pass or after it. -/
def retake (destroyFirst : Bool) (s : HandleUser Nat × Process) : Except Stop (HandleUser Nat × Process) := do
  let (u, p) ← s.1.yield tcpHandle s.2
  let p ← (if destroyFirst then u.destroy tcpHandle p else .ok p)
  let p ← p.update ((u.realHandle.map (readyFd p)).getD ∅) none
  let (v, p) := p.getNext
  let p ← (if destroyFirst then .ok p else u.destroy tcpHandle p)
  return (v, p)

/-- One operation; `retake` has no answer. -/
def queueStep (size : Nat) : QueueOp → HandleUser Nat × Process →
    Except Stop (Option (Answer Bytes) × (HandleUser Nat × Process))
  | .ask r, s => HandleUser.ask tcpHandle size r s
  | .retake destroyFirst, s => (retake destroyFirst s).map fun s => (none, s)

/-- What a queue of messages answers; once the end has been answered the handle is not readable, and cannot be
given back. -/
def queueSpec : QueueOp → List Bytes × Bool → Option (Option (Answer Bytes) × (List Bytes × Bool))
  | .ask r, q => asked true r q
  | .retake _, (q, false) => some (none, (q, false))
  | .retake _, (_, true) => none

/-! ### Taking a handle back -/

namespace Process

private theorem updateLoop_none {ready : Finset Nat} {accepted : Option Socket} {n idx : Nat} {p : Process}
    (h : ∀ j ∈ ready, j < idx) : updateLoop ready accepted n idx p = .ok p := by
  induction n generalizing idx with
  | zero => rfl
  | succ n ih =>
    have hidx : idx ∉ ready := fun hm => Nat.lt_irrefl idx (h idx hm)
    unfold updateLoop
    rw [if_neg hidx, ih fun j hj => Nat.lt_succ_of_lt (h j hj)]
    exact ite_self _

/-- When only one descriptor is ready, `update` deals with it and with nothing else. -/
private theorem updateLoop_single {fd : Nat} {accepted : Option Socket} {n idx : Nat} {p : Process} (hle : idx ≤ fd)
    (hn : fd < idx + n) (hmax : (fd : Int) ≤ p.conn.fdmax) (hsck : p.conn.listenSck ≠ some fd) :
    updateLoop {fd} accepted n idx p = p.updateReady fd := by
  induction n generalizing idx with
  | zero => omega
  | succ n ih =>
    have hidx : (idx : Int) ≤ p.conn.fdmax := by omega
    unfold updateLoop
    rw [if_pos hidx]
    by_cases heq : idx = fd
    · subst heq
      have hnone : ∀ q, updateLoop {idx} accepted n (idx + 1) q = .ok q := fun q =>
        updateLoop_none fun j hj => by
          rw [Finset.mem_singleton.1 hj]
          exact Nat.lt_succ_self idx
      rw [if_pos (Finset.mem_singleton_self idx), if_neg fun e => hsck e.symm]
      simp only [hnone]
      cases p.updateReady idx <;> rfl
    · rw [if_neg (mt Finset.mem_singleton.1 heq)]
      exact ih (by omega) (by omega)

private theorem update_single {fd : Nat} {accepted : Option Socket} {p : Process} (hi : p.Inv) (hset : fd ∈ p.conn.set)
    (hsck : p.conn.listenSck ≠ some fd) : p.update {fd} accepted = p.updateReady fd := by
  have hmax : (fd : Int) ≤ p.conn.fdmax := by
    rcases hi.1.max with ⟨he, -⟩ | ⟨m, -, he, hle⟩
    · rw [he] at hset
      cases hset
    · have := hle fd hset
      omega
  have hne : p.conn.fdmax ≠ -1 := by omega
  have hinter : p.conn.set ∩ {fd} = {fd} :=
    Finset.inter_eq_right.2 (Finset.singleton_subset_iff.2 hset)
  unfold update
  rw [if_neg hne, hinter]
  exact updateLoop_single (Nat.zero_le _) (by omega) hmax hsck

/-- A process in which the handle is the application's to give back. -/
structure Managed (p : Process) (id : Nat) : Prop where
  inv : p.Inv
  listenInv : p.ListenInv
  handleReady : p.handleReady = []
  isOpen : p.Open id

/-- The handle after the decrement of its counter by `~HandleUser`. -/
private theorem destroy_unreadable {p : Process} {id : Nat} (h : p.Live id) (hrd : (p.handles id).closedRd = false)
    {u : HandleUser Nat} (hu : u.realHandle = some id) (hread : u.isReadable = false) :
    u.destroy tcpHandle p = .ok (p.put id { p.handles id with counter := (p.handles id).counter - 1 }) := by
  have hkeep : p.decrement id = p.put id { p.handles id with counter := (p.handles id).counter - 1 } := by
    unfold decrement deleteUnused
    dsimp only
    rw [if_neg]
    rintro ⟨-, -, h3⟩
    rw [put_handles_self] at h3
    exact absurd (hrd.symm.trans h3) Bool.false_ne_true
  unfold HandleUser.destroy
  rw [hread, if_neg Bool.false_ne_true, bind_ok, hu]
  change (p.deref id >>= fun _ => .ok (p.decrement id)) = _
  rw [h.deref, bind_ok, hkeep]

private theorem addinQ_ready {p : Process} {id : Nat} (h : p.Live id) :
    p.addinQ false id = .ok { p.put id { p.handles id with counter := (p.handles id).counter + 1 } with
      handleReady := p.handleReady ++ [⟨some id, true, false⟩] } := by
  have hinc : (tcpHandle id).incrementReferenceCounter p =
      .ok (p.put id { p.handles id with counter := (p.handles id).counter + 1 }) := by
    change (p.deref id >>= _) = _
    rw [h.deref]
    rfl
  unfold addinQ HandleUser.mk'
  rw [if_neg Bool.false_ne_true, bind_ok]
  dsimp only
  rw [hinc]
  rfl

/-- A ready descriptor with an entry is taken off the polled set, and its handle put on the queue. -/
private theorem updateReady_entry {p : Process} {id fd : Nat} (h : p.Live id)
    (he : p.conn.connections.find? fd = some id) :
    p.updateReady fd = .ok { p.put id { p.handles id with counter := (p.handles id).counter + 1 } with
      conn := p.conn.fdClr fd
      log := .pushed id :: p.log
      handleReady := p.handleReady ++ [⟨some id, true, false⟩] } := by
  have hlive : Live { p with conn := p.conn.fdClr fd, log := .pushed id :: p.log } id := ⟨h.allocated, h.deleted, h.fd⟩
  have he' : (p.conn.fdClr fd).connections.find? fd = some id := he
  unfold updateReady
  dsimp only
  rw [he']
  dsimp only
  rw [addinQ_ready hlive]
  rfl

/-- `yield` puts the descriptor into the polled set, and changes nothing of the handle. -/
private theorem yield_open {p : Process} {id fd : Nat} (h : p.Live id) (hrd : (p.handles id).closedRd = false)
    (hfd : (p.handles id).fd = some fd) {u : HandleUser Nat} (hu : u.realHandle = some id) :
    u.yield tcpHandle p = .ok ({ u with isReadable := false, newConnection := false },
      { p with conn := p.conn.fdSet fd, log := .polled id :: p.log }) := by
  have hy : (tcpHandle id).yield p = .ok { p with conn := p.conn.fdSet fd, log := .polled id :: p.log } := by
    change (p.deref id >>= fun h => .ok (if h.closedRd then p else p.notifyYield id)) = _
    rw [h.deref, bind_ok, hrd, if_neg Bool.false_ne_true]
    unfold notifyYield
    rw [hfd, hrd]
    rfl
  unfold HandleUser.yield
  dsimp only
  rw [hu]
  dsimp only
  rw [hy]
  rfl

private theorem retake_evolves {destroyFirst : Bool} {s s' : HandleUser Nat × Process}
    (h : Mtcl.retake destroyFirst s = .ok s') : s.2.Evolves s'.2 := by
  have hk := fun id => s.2.tcpHandle_evolves id
  have hdestroy : ∀ {b : Bool} {u : HandleUser Nat} {p p' : Process}, s.2.Evolves p →
      (if b then u.destroy tcpHandle p else .ok p) = Except.ok p' → s.2.Evolves p' := by
    intro b u p p' hp he
    cases b with
    | true => exact HandleUser.destroy_keeps hk hp he
    | false =>
      cases he
      exact hp
  unfold Mtcl.retake at h
  obtain ⟨⟨u, p1⟩, h1, h⟩ := bind_eq_ok.1 h
  have he1 : s.2.Evolves p1 := HandleUser.yield_keeps hk .refl h1
  obtain ⟨p2, h2, h⟩ := bind_eq_ok.1 h
  have he2 := hdestroy he1 h2
  obtain ⟨p3, h3, h⟩ := bind_eq_ok.1 h
  have he3 := he2.trans (update_evolves h3)
  have he4 : s.2.Evolves p3.getNext.2 := by
    refine he3.tail (.same ?_)
    unfold getNext
    split
    · exact .refl _
    · exact ⟨rfl, rfl, rfl, rfl, rfl, fun _ => .refl _⟩
  obtain ⟨p5, h5, h⟩ := bind_eq_ok.1 h
  cases h
  cases destroyFirst with
  | true =>
    cases h5
    exact he4
  | false => exact hdestroy (b := true) he4 h5

/-- A pass of `update` over a handle that is polled and has something to read, and the `getNext` after it. -/
private theorem update_entry {p : Process} {id fd : Nat} (hi : p.Inv) (hl : p.ListenInv) (h : p.Live id)
    (hrd : (p.handles id).closedRd = false) (hfd : (p.handles id).fd = some fd) (hset : fd ∈ p.conn.set)
    (hread : readable (p.handles id).incoming = true) (hq : p.handleReady = []) :
    ∃ q, p.update (readyFd p id) none = .ok q ∧ q.getNext.1 = ⟨some id, true, false⟩ ∧
      q.getNext.2.handleReady = [] ∧ q.getNext.2.allocated = p.allocated ∧
      q.getNext.2.handles id = { p.handles id with counter := (p.handles id).counter + 1 } := by
  have hready : readyFd p id = {fd} := by
    unfold readyFd
    rw [hfd, hread]
    rfl
  have hsck : p.conn.listenSck ≠ some fd := fun e => (hl fd e).2 id h.allocated hfd
  rw [hready, update_single hi hset hsck, updateReady_entry h (hi.has_entry h.allocated hfd hrd), hq]
  exact ⟨_, rfl, rfl, rfl, rfl, put_handles_self p id _⟩

/-- An open handle with something to read comes back as a fresh `HandleUser`, and is as it was. -/
theorem Managed.retake {p : Process} {id : Nat} (h : p.Managed id) {u : HandleUser Nat} (hu : u.realHandle = some id)
    (hread : readable (p.handles id).incoming = true) (destroyFirst : Bool) :
    ∃ p', Mtcl.retake destroyFirst (u, p) = .ok (⟨some id, true, false⟩, p') ∧ p'.Managed id ∧
      p'.handles id = p.handles id := by
  suffices hrun : ∃ p', Mtcl.retake destroyFirst (u, p) = .ok (⟨some id, true, false⟩, p') ∧ p'.handleReady = [] ∧
      p'.allocated = p.allocated ∧ p'.handles id = p.handles id by
    obtain ⟨p', hrun, hq, ha, hh⟩ := hrun
    have hev := retake_evolves hrun
    refine ⟨p', hrun, ⟨inv_evolves h.inv hev, listenInv_evolves h.inv h.listenInv hev, hq, ⟨⟨?_, ?_, ?_⟩, ?_, ?_⟩⟩, hh⟩
    · rw [ha]
      exact h.isOpen.live.allocated
    · rw [hh]
      exact h.isOpen.live.deleted
    · rw [hh]
      exact h.isOpen.live.fd
    · rw [hh]
      exact h.isOpen.closedRd
    · rw [hh]
      exact h.isOpen.owned
  obtain ⟨r, isReadable, newConnection⟩ := u
  obtain rfl : r = some id := hu
  have hlive := h.isOpen.live
  obtain ⟨fd, hfd⟩ := Option.ne_none_iff_exists'.1 hlive.fd
  have hid := hlive.allocated
  have hrd := h.isOpen.closedRd
  -- the process after the yield
  have hyield := yield_open hlive hrd hfd (u := ⟨some id, isReadable, newConnection⟩) rfl
  have hev1 : p.Evolves { p with conn := p.conn.fdSet fd, log := .polled id :: p.log } :=
    HandleUser.yield_keeps (fun i => p.tcpHandle_evolves i) .refl hyield
  have hi1 := inv_evolves h.inv hev1
  have hl1 := listenInv_evolves h.inv h.listenInv hev1
  have hset : fd ∈ (p.conn.fdSet fd).set := Finset.mem_insert_self ..
  generalize hp1 : ({ p with conn := p.conn.fdSet fd, log := .polled id :: p.log } : Process) =
    p1 at hyield hev1 hi1 hl1
  have hh1 : p1.handles = p.handles := by rw [← hp1]
  have ha1 : p1.allocated = p.allocated := by rw [← hp1]
  have hq1 : p1.handleReady = [] := by
    rw [← hp1]
    exact h.handleReady
  have hset1 : fd ∈ p1.conn.set := by rw [← hp1]; exact hset
  have hlive1 : p1.Live id := ⟨ha1.symm ▸ hid, by rw [hh1]; exact hlive.deleted, by rw [hh1]; exact hlive.fd⟩
  have hrd1 : (p1.handles id).closedRd = false := by rw [hh1]; exact hrd
  unfold Mtcl.retake
  dsimp only
  rw [hyield, bind_ok]
  cases destroyFirst with
  | true =>
    have hdestroy := destroy_unreadable hlive1 hrd1 (u := ⟨some id, false, false⟩) rfl rfl
    have hev2 : p1.Evolves _ := HandleUser.destroy_keeps (fun i => p1.tcpHandle_evolves i) .refl hdestroy
    have hlive2 := hlive1.put (k := { p1.handles id with counter := (p1.handles id).counter - 1 }) rfl rfl
    have hfd2 : ((p1.put id { p1.handles id with counter := (p1.handles id).counter - 1 }).handles id).fd =
      some fd := by
      rw [put_handles_self, hh1]
      exact hfd
    obtain ⟨q, hupd, hnext, hqq, haq, hhq⟩ :=
      update_entry (inv_evolves hi1 hev2) (listenInv_evolves hi1 hl1 hev2) hlive2
      (by rw [put_handles_self]; exact hrd1) hfd2 hset1 (by rw [put_handles_self, hh1]; exact hread) hq1
    refine ⟨q.getNext.2, ?_, hqq, haq.trans ha1, ?_⟩
    · rw [if_pos rfl, hdestroy, bind_ok]
      change (update _ (readyFd _ id) none >>= _) = _
      rw [hupd, bind_ok, if_pos rfl, bind_ok, ← hnext]
      rfl
    · rw [hhq, put_handles_self, hh1]
      simp
  | false =>
    obtain ⟨q, hupd, hnext, hqq, haq, hhq⟩ := update_entry hi1 hl1 hlive1 hrd1 (hh1 ▸ hfd) hset1
      (by rw [hh1]; exact hread) hq1
    have hlive2 : q.getNext.2.Live id := by
      refine ⟨haq.symm ▸ hlive1.allocated, ?_, ?_⟩
      · rw [hhq]
        exact hlive1.deleted
      · rw [hhq]
        exact hlive1.fd
    have hdestroy := destroy_unreadable hlive2 (by rw [hhq]; exact hrd1) (u := ⟨some id, false, false⟩) rfl rfl
    refine ⟨q.getNext.2.put id { q.getNext.2.handles id with counter := (q.getNext.2.handles id).counter - 1 }, ?_,
      hqq, haq.trans ha1, ?_⟩
    · rw [if_neg Bool.false_ne_true, bind_ok]
      change (update _ (readyFd _ id) none >>= _) = _
      rw [hupd, bind_ok, if_neg Bool.false_ne_true, hdestroy, bind_ok, ← hnext]
      rfl
    · rw [put_handles_self, hhq, hh1]
      simp

end Process

/-! ### The queue -/

/-- What the virtual functions keep of the process around a handle. -/
private def Quiet (p : Process) : Prop := p.Inv ∧ p.ListenInv ∧ p.handleReady = []

private theorem tcpHandle_quiet (id : Nat) : (tcpHandle id).Keeps Quiet :=
  Process.tcpHandle_keeps fun hq h =>
    have honly := Process.only_handleStep h
    ⟨Process.inv_evolves hq.1 honly.evolves, Process.listenInv_evolves hq.1 hq.2.1 honly.evolves,
      honly.handleReady.trans hq.2.2⟩

private theorem encode_closed_ne_nil (q : List Bytes) : encode true q ≠ [] := by
  intro h
  have hlen := congrArg List.length h
  simp [encode] at hlen

private theorem receiving_readable {id : Nat} {ph : Phase (List Bytes) Bytes} {p : Process}
    (h : Receiving true id ph p) (hph : ph.queue.2 = false) :
    p.Open id ∧ readable (p.handles id).incoming = true := by
  cases ph with
  | idle q =>
    obtain ⟨hopen, -, -, ha⟩ := h
    refine ⟨hopen, ha.1.readable fun e => ?_⟩
    exact encode_closed_ne_nil q (List.map_eq_nil_iff.1 e)
  | opened m q =>
    obtain ⟨hopen, -, hm, -, ha⟩ := h
    refine ⟨hopen, ha.1.readable fun e => ?_⟩
    exact hm (List.append_eq_nil_iff.1 (List.map_eq_nil_iff.1 e)).1
  | ended q => cases hph

private theorem receiving_congr {id : Nat} {ph : Phase (List Bytes) Bytes} {p p' : Process}
    (h : Receiving true id ph p) (hph : ph.queue.2 = false) (hopen : p'.Open id)
    (hh : p'.handles id = p.handles id) : Receiving true id ph p' := by
  cases ph with
  | idle q =>
    refine ⟨hopen, ?_⟩
    rw [hh]
    exact h.2
  | opened m q =>
    refine ⟨hopen, ?_⟩
    rw [hh]
    exact h.2
  | ended q => cases hph

/-- The application owns the handle at some phase of the queue. -/
private def AtQueue (id : Nat) (s : HandleUser Nat × Process) (q : List Bytes × Bool) : Prop :=
  ∃ ph, Owns (Receiving true id) id ph s ∧ ph.queue = q ∧ Quiet s.2

/-- Every operation that the queue allows returns what the queue answers. -/
private theorem queueStep_simulates (id size : Nat) (o : QueueOp) (s : HandleUser Nat × Process) (q : List Bytes × Bool)
    (b : Option (Answer Bytes)) (q' : List Bytes × Bool) (h : AtQueue id s q) (hspec : queueSpec o q = some (b, q')) :
    ∃ s', queueStep size o s = .ok (b, s') ∧ AtQueue id s' q' := by
  obtain ⟨ph, howns, rfl, hquiet⟩ := h
  obtain ⟨u, p⟩ := s
  cases o with
  | ask r =>
    obtain ⟨s', ph', hask, howns', hq'⟩ := ask_queue (tcp_reads true id) howns size hspec
    exact ⟨s', hask, ph', howns', hq', ask_keeps tcpHandle_quiet hquiet hask⟩
  | retake destroyFirst =>
    obtain ⟨hend, rfl, rfl⟩ : ph.queue.2 = false ∧ b = none ∧ q' = ph.queue := by
      rcases hq : ph.queue with ⟨q, e⟩
      rw [hq] at hspec
      cases e with
      | true => cases hspec
      | false =>
        cases hspec
        exact ⟨rfl, rfl, rfl⟩
    obtain ⟨hopen, hread⟩ := receiving_readable howns.2.1 hend
    have hmanaged : p.Managed id := ⟨hquiet.1, hquiet.2.1, hquiet.2.2, hopen⟩
    obtain ⟨p', hret, hmanaged', hh⟩ := hmanaged.retake howns.1 hread destroyFirst
    refine ⟨(⟨some id, true, false⟩, p'), ?_, ph, ⟨rfl, ?_, fun _ => rfl⟩, rfl, hmanaged'.inv, hmanaged'.listenInv,
      hmanaged'.handleReady⟩
    · rw [queueStep, hret]
      rfl
    · exact receiving_congr howns.2.1 hend hmanaged'.isOpen hh

/-- The messages of one side, each sent with success and followed by `close`, put `encode true ms` on the
stream; and when these bytes arrive, in whatever pieces, at a handle of any reachable state of the other side,
every sequence of probes, receives and returns of the handle that a queue of the messages allows is answered as
the queue answers it. -/
theorem tcp_messageQueue {p : Process} {i : Nat} {v : HandleUser Nat} (hw : p.Writable i) (hv : v.realHandle = some i)
    {ms : List Bytes} (hms : ∀ m ∈ ms, Sendable m) :
    (∃ v' p1 p2, HandleUser.sends tcpHandle ms (v, p) = .ok (ms.map fun m => .ok m.length, (v', p1)) ∧
      v'.close tcpHandle p1 = .ok p2 ∧ (p2.handles i).wire = (p.handles i).wire ++ encode true ms) ∧
    ∀ {s : App} {x id : Nat}, s.Reachable → s.proc.handleReady = [] → s.proc.Open id →
      (s.proc.handles id).probed.1 = false → (s.vars x).realHandle = some id → (s.vars x).isReadable = true →
      Delivers (s.proc.handles id).incoming (loose (encode true ms)) →
      ∀ (size : Nat) (ops : List QueueOp) (answers : List (Option (Answer Bytes))) (q : List Bytes × Bool),
        Runs.specRun queueSpec ops (ms, false) = some (answers, q) →
        ∃ s', Runs.run (queueStep size) ops (s.vars x, s.proc) = .ok (answers, s') := by
  refine ⟨?_, ?_⟩
  · obtain ⟨v', p1, hsends, ⟨hv', hw1⟩, hwire1⟩ := tcp_sends hw hv ms
    obtain ⟨p2, hclose, hwire2⟩ := hw1.close hv'
    refine ⟨v', p1, p2, hsends, hclose, ?_⟩
    rw [hwire2, hwire1, List.append_assoc]
    rfl
  · intro s x id hs hq hopen hp hx hread hd size ops answers q hspec
    have hstart : AtQueue id (s.vars x, s.proc) (ms, false) :=
      ⟨.idle ms, ⟨hx, ⟨hopen, hp, hms, hd, nofun⟩, fun _ => hread⟩, rfl, hs.inv, hs.listenInv, hq⟩
    obtain ⟨s', hrun, -⟩ := Runs.run_simulates (queueStep_simulates id size) hstart hspec
    exact ⟨s', hrun⟩

theorem tcp_messageQueue_run : ∃ (s : App) (s' : HandleUser Nat × Process),
    Runs.run (queueStep 0) [.ask .probe, .retake true, .ask (.receive 0), .ask (.receive 5), .ask .probe]
        (s.vars 0, s.proc) =
      .ok ([some (.size 1), none, some .noRoom, some (.message [7]), some .finished], s') := by
  have h0 : App.Reachable {} := .start ⟨fun _ => 0, rfl, fun _ => rfl⟩
  let incoming : List SockArrival := [.piece 0 [0, 0, 0, 0], .quiet, .piece 0 [0, 1, 7, 0], .piece 0 [0, 0, 0, 0, 0, 0]]
  have h1 := Runs.Reach.next (Op.connect 0 (some { fd := 3, incoming := incoming })) h0 rfl
  have hms : ∀ m ∈ [[(7 : UInt8)]], Sendable m := by
    intro m hm
    rw [List.mem_singleton.1 hm]
    exact ⟨List.cons_ne_nil _ _, by decide⟩
  obtain ⟨s, hs, hopen, hwr, hmoves, hprobed, hq, hx, hread, hin⟩ : ∃ s : App, s.Reachable ∧ s.proc.Open 0 ∧
      (s.proc.handles 0).closedWr = false ∧ Moves (s.proc.handles 0).answers ∧ (s.proc.handles 0).probed.1 = false ∧
      s.proc.handleReady = [] ∧ (s.vars 0).realHandle = some 0 ∧ (s.vars 0).isReadable = true ∧
      (s.proc.handles 0).incoming = incoming :=
    ⟨_, h1, ⟨⟨Nat.one_pos, rfl, Option.some_ne_none 3⟩, rfl, Int.one_pos⟩, rfl, nofun, rfl, rfl, rfl, rfl, rfl⟩
  have hd : Delivers (s.proc.handles 0).incoming (loose (encode true [[7]])) := by
    rw [hin]
    exact delivers_lead incoming
  obtain ⟨s', hrun⟩ := (tcp_messageQueue ⟨hopen.live, hwr, hmoves⟩ hx hms).2 hs hq hopen hprobed hx hread hd 0
    [.ask .probe, .retake true, .ask (.receive 0), .ask (.receive 5), .ask .probe] _ _ rfl
  exact ⟨s, s', hrun⟩

end Mtcl
