import Mtcl.Collective.Broadcast
import Mtcl.Collective.FanIn
import Mtcl.Collective.FanOut
import Mtcl.HandleMQTT
import Mtcl.HandleSHM

/-!
# The results of `send` on a collective

A `send` on a generic collective calls `send` of some participants, one after the other and up to the first that
fails (`Sends`).  Its result is faithful when it is the size of the message if all of them succeeded, and
negative exactly if one of them failed.

`sends_faithful_iff` says that the results of a fan-in and of a broadcast are faithful at every size, and those
of a fan-out, where the result is held in an `int`, when the participant fails or the message has fewer than
2^31 bytes.
-/

namespace Mtcl

variable {H W : Type}

/-- The calls of `send` for one message, in order, up to the first that fails, with their results. -/
inductive Sends (vt : H → CommunicationHandle W) (m : Bytes) : List H → W → List Ret → W → Prop
  | done {w : W} : Sends vt m [] w [] w
  | failed {h : H} {hs : List H} {w w' : W} {e : Errno} (hsend : (vt h).send m w = .ok (.error e, w')) :
      Sends vt m (h :: hs) w [.error e] w'
  | next {h : H} {hs : List H} {w w1 w' : W} {n : Nat} {rs : List Ret} (hsend : (vt h).send m w = .ok (.ok n, w1))
      (hrest : Sends vt m hs w1 rs w') : Sends vt m (h :: hs) w (.ok n :: rs) w'

/-- The result is the size of the message if all calls were successful, and it is negative exactly if one of
them failed. -/
def Faithful (m : Bytes) (rs : List Ret) (r : Ret) : Prop :=
  ((∀ x ∈ rs, ∃ n, x = .ok n) → r = .ok m.length) ∧ ((∃ e, r = .error e) ↔ ∃ e, .error e ∈ rs)

/-- A `send` that is successful returns the size of the message. -/
def ReturnsSize (h : CommunicationHandle W) : Prop := ∀ {m w n w'}, h.send m w = .ok (.ok n, w') → n = m.length

/-! ### The transports -/

theorem tcp_returnsSize (id : Nat) : ReturnsSize (tcpHandle id) := by
  intro m p n p' h
  obtain ⟨k, -, h⟩ := bind_eq_ok.1 h
  have hsend : (k.send m).1 = .ok n := (Prod.mk.inj (Except.ok.inj h)).1
  unfold HandleTCP.send at hsend
  split at hsend
  · cases hsend
  · dsimp only at hsend
    split at hsend
    · cases hsend
    · exact (Except.ok.inj hsend).symm

theorem shm_returnsSize : ReturnsSize shmHandle := by
  intro m h n h' hs
  obtain ⟨k, -, hs⟩ := bind_eq_ok.1 hs
  have hsend : (k.send m).1 = .ok n := (Prod.mk.inj (Except.ok.inj hs)).1
  unfold HandleSHM.send ShmBuffer.put at hsend
  split at hsend
  · cases hsend
  · exact (Except.ok.inj hsend).symm

theorem mqtt_returnsSize (garbage : Nat → UInt8) : ReturnsSize (mqttHandle garbage) := by
  intro m _ n h' hs
  obtain ⟨k, -, hs⟩ := bind_eq_ok.1 hs
  have hsend : (k.send m).1 = .ok n := (Prod.mk.inj (Except.ok.inj hs)).1
  exact (Except.ok.inj hsend).symm

/-! ### The loops -/

section

variable {vt : H → CommunicationHandle W} {m : Bytes} {hs : List H} {w w' : W} {rs : List Ret} {r : Ret}

theorem Faithful.done : Faithful m [] (.ok m.length) := ⟨fun _ => rfl, iff_of_false nofun nofun⟩

/-- A failure is reported as one, whatever `errno` is then. -/
theorem Faithful.failed (e e' : Errno) : Faithful m [.error e] (.error e') := by
  refine ⟨fun h => ?_, iff_of_true ⟨e', rfl⟩ ⟨e, List.mem_singleton_self _⟩⟩
  obtain ⟨n, hn⟩ := h _ (List.mem_singleton_self _)
  cases hn

/-- A success in front changes nothing. -/
theorem Faithful.next (n : Nat) (h : Faithful m rs r) : Faithful m (.ok n :: rs) r := by
  refine ⟨fun hall => h.1 fun x hx => hall x (List.mem_cons_of_mem _ hx), h.2.trans ⟨?_, ?_⟩⟩
  · rintro ⟨e, he⟩
    exact ⟨e, List.mem_cons_of_mem _ he⟩
  · rintro ⟨e, he⟩
    rcases List.mem_cons.1 he with he | he
    · cases he
    · exact ⟨e, he⟩

theorem FanInGeneric.sendLoop_faithful (h : Sends vt m hs w rs w') :
    ∃ r, sendLoop vt m hs w = .ok (r, w') ∧ Faithful m rs r := by
  induction h with
  | done => exact ⟨_, rfl, .done⟩
  | @failed h hs w w' e hsend =>
    refine ⟨.error e, ?_, .failed e e⟩
    rw [sendLoop, hsend]
    rfl
  | next hsend hrest ih =>
    obtain ⟨r, hloop, hr⟩ := ih
    refine ⟨r, ?_, hr.next _⟩
    rw [sendLoop, hsend]
    exact hloop

theorem FanInGeneric.sends_of_loop (h : sendLoop vt m hs w = .ok (r, w')) : ∃ rs, Sends vt m hs w rs w' := by
  induction hs generalizing w with
  | nil =>
    cases h
    exact ⟨[], .done⟩
  | cons j hs ih =>
    obtain ⟨⟨r1, w1⟩, h1, h⟩ := bind_eq_ok.1 h
    cases r1 with
    | error e =>
      cases h
      exact ⟨_, .failed h1⟩
    | ok n =>
      obtain ⟨rs, hrs⟩ := ih h
      exact ⟨_, .next h1 hrs⟩

/-- The loop of a broadcast is that of a fan-in, but for `errno`. -/
theorem BroadcastGeneric.sendLoop_eq (m : Bytes) (hs : List H) (w : W) :
    sendLoop vt m hs w =
      (FanInGeneric.sendLoop vt m hs w).map fun x => (x.1.mapError fun _ => .ECONNRESET, x.2) := by
  induction hs generalizing w with
  | nil => rfl
  | cons h hs ih =>
    rw [sendLoop, FanInGeneric.sendLoop]
    rcases (vt h).send m w with st | ⟨e | n, w1⟩
    · rfl
    · rfl
    · exact ih w1

private theorem Faithful.mapError (f : Errno → Errno) (h : Faithful m rs r) : Faithful m rs (r.mapError f) := by
  cases r with
  | error e =>
    refine ⟨fun hall => ?_, iff_of_true ⟨_, rfl⟩ (h.2.1 ⟨e, rfl⟩)⟩
    cases h.1 hall
  | ok n => exact h

/-- The result of one call, held in an `int`. -/
theorem FanOutGeneric.intRes_faithful_iff (errno : Errno) {h : H} (hvt : ReturnsSize (vt h))
    (hs : Sends vt m [h] w rs w') : ∃ r0, (vt h).send m w = .ok (r0, w') ∧
      (Faithful m rs (intRes errno r0) ↔ (∃ e, .error e ∈ rs) ∨ m.length < 2 ^ 31) := by
  cases hs with
  | @failed _ _ _ _ e hsend =>
    exact ⟨_, hsend, iff_of_true (.failed e e) (Or.inl ⟨e, List.mem_singleton_self _⟩)⟩
  | @next _ _ _ w1 _ n _ hsend hrest =>
    cases hrest
    have hn := hvt hsend
    refine ⟨_, hsend, ?_⟩
    rw [or_iff_right (by rintro ⟨e, he⟩; cases List.mem_singleton.1 he), ← hn]
    have hall : ∀ x ∈ [(.ok n : Ret)], ∃ k, x = .ok k := fun x hx => ⟨n, List.mem_singleton.1 hx⟩
    constructor
    · intro hf
      have hr := hf.1 hall
      rw [← hn] at hr
      unfold intRes at hr
      dsimp only at hr
      split at hr
      · have := Except.ok.inj hr
        omega
      · cases hr
    · intro hlt
      have hr : intRes errno (.ok n) = .ok m.length := by
        unfold intRes
        dsimp only
        rw [if_pos (by omega), Nat.mod_eq_of_lt (by omega), hn]
      rw [hr]
      exact Faithful.done.next n

end

/-! ### The calls of an application -/

/-- The call does the sends to the given participants, returns if they do, and its result is as `P` says. -/
def Reports {α : Type} (vt : H → CommunicationHandle W) (m : Bytes) (hs : List H) (w : W) (world : α → W)
    (P : List Ret → Ret → Prop) (call : Except Stop (Ret × α)) : Prop :=
  (∀ rs w', Sends vt m hs w rs w' → ∃ r a, call = .ok (r, a) ∧ world a = w' ∧ P rs r) ∧
    ∀ x, call = .ok x → ∃ rs, Sends vt m hs w rs (world x.2)

/-- The context may be sent to. -/
structure CollectiveContext.MaySend {C : Type} (c : CollectiveContext C) : Prop where
  deleted : c.deleted = false
  closedWr : c.closedWr = false
  canSend : c.canSend = true

/-- `HandleUser::send` on a context is `send` of the implementation. -/
theorem CollectiveContext.MaySend.send {C : Type} {impl : CollectiveImpl C W} {c : CollectiveContext C} (hc : c.MaySend)
    {u : HandleUser Unit} (hu : u.realHandle = some ()) (m : Bytes) (w : W) :
    u.send (fun _ => contextHandle impl) m (c, w) =
      (impl.send m c.coll w).map fun x =>
        (x.1, { u with newConnection := false }, ({ c with coll := x.2.1 }, x.2.2)) := by
  unfold HandleUser.send
  dsimp only
  rw [hu]
  show ((c.deref >>= fun c => .ok c.toCommBase) >>= fun b => _) = _
  rw [CollectiveContext.deref_of hc.deleted]
  show (if c.closedWr = true then _ else c.deref >>= _ >>= _) = _
  rw [if_neg (by simp [hc.closedWr]), CollectiveContext.deref_of hc.deleted]
  show ((c.send impl w m >>= _) >>= _) = _
  rw [CollectiveContext.send, if_neg (by simp [hc.canSend])]
  cases impl.send m c.coll w <;> rfl

section

variable {vt : H → CommunicationHandle W} {m : Bytes} {w : W}

private theorem fanIn_reports {u : HandleUser Unit} (hu : u.realHandle = some ())
    {c : CollectiveContext (FanInGeneric H)} (hc : c.MaySend) (fuel : Nat) (errno : Errno) :
    Reports vt m c.coll.participants w (fun a => a.2.2) (Faithful m)
      (u.send (fun _ => contextHandle (fanInGeneric vt fuel errno)) m (c, w)) := by
  rw [hc.send hu]
  show Reports vt m c.coll.participants w _ _ ((FanInGeneric.sendLoop vt m c.coll.participants w >>= fun x => _).map _)
  constructor
  · intro rs w' hs
    obtain ⟨r, hloop, hr⟩ := FanInGeneric.sendLoop_faithful hs
    rw [hloop]
    exact ⟨r, _, rfl, rfl, hr⟩
  · intro x hx
    obtain ⟨y, hy, rfl⟩ := map_eq_ok hx
    obtain ⟨⟨r, w'⟩, hloop, hy⟩ := bind_eq_ok.1 hy
    cases hy
    exact FanInGeneric.sends_of_loop hloop

private theorem broadcast_reports {u : HandleUser Unit} (hu : u.realHandle = some ())
    {c : CollectiveContext (BroadcastGeneric H)} (hd : c.deleted = false) (hroot : c.coll.root = true)
    (recvsize : Nat) : Reports vt m c.coll.participants w (fun a => a.2.2) (Faithful m)
      (u.sendrecv (BroadcastGeneric.sendrecv vt m recvsize) (c, w)) := by
  have hcall : u.sendrecv (BroadcastGeneric.sendrecv vt m recvsize) (c, w) =
      (BroadcastGeneric.sendLoop vt m c.coll.participants w).map fun x =>
        (x.1, [], ({ c with probed := (false, 0) }, x.2)) := by
    unfold HandleUser.sendrecv
    rw [hu]
    show (c.deref >>= fun c => _) = _
    rw [CollectiveContext.deref_of hd, bind_ok, CollectiveContext.sendrecv, BroadcastGeneric.sendrecv, if_pos hroot,
      BroadcastGeneric.send]
    cases BroadcastGeneric.sendLoop vt m c.coll.participants w <;> rfl
  rw [hcall, BroadcastGeneric.sendLoop_eq]
  constructor
  · intro rs w' hs
    obtain ⟨r, hloop, hr⟩ := FanInGeneric.sendLoop_faithful hs
    rw [hloop]
    exact ⟨_, _, rfl, rfl, hr.mapError _⟩
  · intro x hx
    obtain ⟨y, hy, rfl⟩ := map_eq_ok hx
    obtain ⟨⟨r, w'⟩, hloop, rfl⟩ := map_eq_ok hy
    exact FanInGeneric.sends_of_loop hloop

private theorem fanOut_reports (hvt : ∀ h, ReturnsSize (vt h)) {u : HandleUser Unit} (hu : u.realHandle = some ())
    {c : CollectiveContext (FanOutGeneric H)} (hc : c.MaySend) {h : H}
    (hturn : c.coll.participants[c.coll.current]? = some h) (errno : Errno) :
    Reports vt m [h] w (fun a => a.2.2) (fun rs r => Faithful m rs r ↔ (∃ e, .error e ∈ rs) ∨ m.length < 2 ^ 31)
      (u.send (fun _ => contextHandle (fanOutGeneric vt errno)) m (c, w)) := by
  have hsend : (fanOutGeneric vt errno).send m c.coll w = ((vt h).send m w).map fun x =>
      (FanOutGeneric.intRes errno x.1,
        { c.coll with current := (c.coll.current + 1) % c.coll.participants.length }, x.2) := by
    show FanOutGeneric.send vt errno m c.coll w = _
    unfold FanOutGeneric.send
    rw [hturn]
    dsimp only
    cases (vt h).send m w <;> rfl
  rw [hc.send hu, hsend]
  constructor
  · intro rs w' hs
    obtain ⟨r0, hone, hr⟩ := FanOutGeneric.intRes_faithful_iff errno (hvt h) hs
    rw [hone]
    exact ⟨_, _, rfl, rfl, hr⟩
  · intro x hx
    obtain ⟨y, hy, rfl⟩ := map_eq_ok hx
    obtain ⟨⟨r, w'⟩, hone, rfl⟩ := map_eq_ok hy
    cases r with
    | error e => exact ⟨_, .failed hone⟩
    | ok n => exact ⟨_, .next hone .done⟩

end

/-- The results of a fan-in, and of a broadcast through `sendrecv`, are faithful for messages of every size;
that of a fan-out is faithful exactly if the participant whose turn it is fails or the message has fewer than
2^31 bytes.  Each call returns if the sends do that it makes. -/
theorem sends_faithful_iff {vt : H → CommunicationHandle W} (hvt : ∀ h, ReturnsSize (vt h)) {u : HandleUser Unit}
    (hu : u.realHandle = some ()) (m : Bytes) (errno : Errno) (w : W) :
    (∀ c : CollectiveContext (FanInGeneric H), c.MaySend → ∀ fuel,
      Reports vt m c.coll.participants w (fun a => a.2.2) (Faithful m)
        (u.send (fun _ => contextHandle (fanInGeneric vt fuel errno)) m (c, w))) ∧
    (∀ c : CollectiveContext (BroadcastGeneric H), c.deleted = false → c.coll.root = true → ∀ recvsize,
      Reports vt m c.coll.participants w (fun a => a.2.2) (Faithful m)
        (u.sendrecv (BroadcastGeneric.sendrecv vt m recvsize) (c, w))) ∧
    ∀ c : CollectiveContext (FanOutGeneric H), c.MaySend → ∀ h, c.coll.participants[c.coll.current]? = some h →
      Reports vt m [h] w (fun a => a.2.2) (fun rs r => Faithful m rs r ↔ (∃ e, .error e ∈ rs) ∨ m.length < 2 ^ 31)
        (u.send (fun _ => contextHandle (fanOutGeneric vt errno)) m (c, w)) :=
  ⟨fun _ hc fuel => fanIn_reports hu hc fuel errno, fun _ hd hroot recvsize => broadcast_reports hu hd hroot recvsize,
    fun _ hc _ hturn => fanOut_reports hvt hu hc hturn errno⟩

/-- The root of a fan-out with one worker. -/
private def oneWorker : CollectiveContext (FanOutGeneric Nat) := .mk' true false { participants := [0], root := true }

/-- A process with one TCP handle, from which the kernel takes everything. -/
private def oneHandle : Process := { handles := fun _ => { fd := some 3 }, allocated := 1 }

private theorem oneHandle_sends (m : Bytes) : ∃ p', Sends tcpHandle m [0] oneHandle [.ok m.length] p' := by
  have hw : oneHandle.Writable 0 := ⟨⟨Nat.one_pos, rfl, Option.some_ne_none 3⟩, rfl, nofun⟩
  obtain ⟨p', hsend, -⟩ := hw.handle_send m
  exact ⟨p', .next hsend .done⟩

theorem sends_faithful_run :
    ∃ a, teamUser.send (fun _ => contextHandle (fanOutGeneric tcpHandle .EINVAL)) [7, 7]
    (oneWorker, oneHandle) = .ok (.ok 2, a) := by
  obtain ⟨p', hs⟩ := oneHandle_sends [7, 7]
  obtain ⟨-, -, hout⟩ := sends_faithful_iff tcp_returnsSize (u := teamUser) rfl [7, 7] .EINVAL oneHandle
  obtain ⟨r, a, hcall, -, hr⟩ := (hout oneWorker ⟨rfl, rfl, rfl⟩ 0 rfl).1 _ _ hs
  have hfaithful := hr.2 (Or.inr (by decide))
  have hok : r = .ok 2 := hfaithful.1 fun x hx => ⟨2, List.mem_singleton.1 hx⟩
  rw [hok] at hcall
  exact ⟨a, hcall⟩

private theorem oneWorker_negative {m : Bytes} (hlen : m.length = 2 ^ 31) :
    ∃ p' a, Sends tcpHandle m [0] oneHandle [.ok (2 ^ 31)] p' ∧
      teamUser.send (fun _ => contextHandle (fanOutGeneric tcpHandle .EINVAL)) m (oneWorker, oneHandle) =
        .ok (.error .EINVAL, a) ∧
      ¬Faithful m [.ok (2 ^ 31)] (.error .EINVAL) := by
  have hw : oneHandle.Writable 0 := ⟨⟨Nat.one_pos, rfl, Option.some_ne_none 3⟩, rfl, nofun⟩
  obtain ⟨p', hsend, -⟩ := hw.handle_send m
  have hs : Sends tcpHandle m [0] oneHandle [.ok m.length] p' := .next hsend .done
  have hmay : oneWorker.MaySend := ⟨rfl, rfl, rfl⟩
  have hcall : teamUser.send (fun _ => contextHandle (fanOutGeneric tcpHandle .EINVAL)) m (oneWorker, oneHandle) = _ :=
    hmay.send rfl m oneHandle
  have himpl : (fanOutGeneric tcpHandle .EINVAL).send m oneWorker.coll oneHandle =
      .ok (FanOutGeneric.intRes .EINVAL (.ok m.length), { oneWorker.coll with current := 0 }, p') := by
    show (tcpHandle 0).send m oneHandle >>= _ = _
    rw [hsend]
    rfl
  rw [himpl, hlen] at hcall
  rw [hlen] at hs
  refine ⟨p', _, hs, hcall, ?_⟩
  intro hf
  obtain ⟨e, he⟩ := hf.2.1 ⟨_, rfl⟩
  cases List.mem_singleton.1 he

/-- A message of 2^31 bytes that goes out whole. -/
theorem fanOut_looks_failed :
    ∃ p' a, Sends tcpHandle (List.replicate (2 ^ 31) 7) [0] oneHandle [.ok (2 ^ 31)] p' ∧
      teamUser.send (fun _ => contextHandle (fanOutGeneric tcpHandle .EINVAL)) (List.replicate (2 ^ 31) 7)
        (oneWorker, oneHandle) = .ok (.error .EINVAL, a) ∧
      ¬Faithful (List.replicate (2 ^ 31) 7) [.ok (2 ^ 31)] (.error .EINVAL) :=
  oneWorker_negative List.length_replicate

end Mtcl
