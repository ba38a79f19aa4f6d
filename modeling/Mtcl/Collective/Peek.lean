import Mtcl.Collective.Context
import Mtcl.HandleMQTT
import Mtcl.HandleSHM

/-!
# Looking for something to read

`peek` of the handles of three transports, and the polling of the contexts by the I/O thread, which asks it of
every participant.  A participant looks right (`Agrees`) when `peek` says what a `probe` that does not wait
would find, and when it is not noticed by the calls that come later, however often it is called.

TCP takes the result of `recv` for a truth value, shared memory finds nothing at all, and MQTT asks `probe`,
which takes the header away.  `polls_right_iff` says in which states of its participants a context is polled
right.
-/

namespace Mtcl

open Arrivals

/-! ### The functions -/

/-- `HandleTCP::peek`: the result of `recv` with `MSG_PEEK` as a `bool`.  Only an error is taken off the socket. -/
def HandleTCP.peek (h : HandleTCP) : Bool × HandleTCP :=
  match h.fd with
  | none => (true, h)
  | some _ =>
    match poll sizeofSizeT h.incoming with
    | (none, s) => (true, { h with incoming := s })
    | (some (.items _), _) => (true, h)
    | (some .eof, _) => (false, h)
    | (some (.error _), s) => (true, { h with incoming := s })

/-- `HandleSHM::peek`. -/
def HandleSHM.peek (_ : HandleSHM) : Bool := false

/-- `HandleMQTT::peek`. -/
def HandleMQTT.peek (garbage : Nat → UInt8) (h : HandleMQTT) : Except Stop (Bool × HandleMQTT) := do
  let (r, _, h) ← h.probe garbage 0 false
  match r with
  | .ok (_ + 1) => return (true, h)
  | _ => return (false, h)

/-- A participant of a collective, over one of three transports. -/
inductive Participant
  | tcp (h : HandleTCP)
  | shm (h : HandleSHM)
  | mqtt (h : HandleMQTT)

namespace Participant

variable (garbage : Nat → UInt8)

/-- `Handle::peek`. -/
def peek : Participant → Except Stop (Bool × Participant)
  | tcp h => .ok (h.peek.1, tcp h.peek.2)
  | shm h => .ok (h.peek, shm h)
  | mqtt h => do
    let (b, h) ← h.peek garbage
    return (b, mqtt h)

/-- `Handle::probe`. -/
def probe (size : Nat) (blocking : Bool) : Participant → Except Stop (Ret × Nat × Participant)
  | tcp h => do
    let (r, size, h) ← h.probe garbage size blocking
    return (r, size, tcp h)
  | shm h => do
    let (r, size, h) ← h.probe size blocking
    return (r, size, shm h)
  | mqtt h => do
    let (r, size, h) ← h.probe garbage size blocking
    return (r, size, mqtt h)

/-- `Handle::receive`. -/
def receive (size : Nat) : Participant → Except Stop (Ret × Bytes × Participant)
  | tcp h => do
    let (r, bs, h) ← h.receive size
    return (r, bs, tcp h)
  | shm h => do
    let (r, bs, h) ← h.receive size
    return (r, bs, shm h)
  | mqtt h => do
    let (r, bs, h) ← h.receive size
    return (r, bs, mqtt h)

end Participant

/-- `CollectiveImpl::peek`: the participants up to the first one that has something. -/
def peekAny (garbage : Nat → UInt8) : List Participant → Except Stop (Bool × List Participant)
  | [] => .ok (false, [])
  | p :: ps => do
    let (b, p) ← p.peek garbage
    if b then return (true, p :: ps)
    else do
      let (b, ps) ← peekAny garbage ps
      return (b, p :: ps)

/-- `Manager::poll`. -/
def Manager.poll (garbage : Nat → UInt8) (c : CollectiveContext (List Participant)) :
    Except Stop (Bool × CollectiveContext (List Participant)) :=
  if c.probed.1 then .ok (true, c)
  else do
    let (b, ps) ← peekAny garbage c.coll
    return (b, { c with coll := ps })

/-- What `getReadyBackend` does with a context, and whether it puts it on the ready queue. -/
def Manager.getReady (garbage : Nat → UInt8) (c : CollectiveContext (List Participant)) :
    Except Stop (Bool × CollectiveContext (List Participant)) :=
  if c.toManage then do
    let (res, c) ← Manager.poll garbage c
    if res then return (true, { c with toManage := false }) else return (false, c)
  else .ok (false, c)

/-! ### What polling is for -/

/-- A call of a reader. -/
inductive Reading
  | probe (blocking : Bool)
  | receive (size : Nat)

namespace Participant

variable (garbage : Nat → UInt8)

/-- A `probe` that does not wait reports a message or the end of the stream. -/
def Reports (p : Participant) : Prop := ∃ n size p', p.probe garbage 0 false = .ok (.ok n, size, p')

/-- What some calls of a reader return: the results, the sizes that `probe` finds and the bytes that `receive`
brings. -/
def answers : List Reading → Participant → Except Stop (List (Ret × Nat × Bytes))
  | [], _ => .ok []
  | .probe blocking :: cs, p => do
    let (r, size, p) ← p.probe garbage 0 blocking
    let as ← answers cs p
    return (r, size, []) :: as
  | .receive n :: cs, p => do
    let (r, bs, p) ← p.receive n
    let as ← answers cs p
    return (r, n, bs) :: as

/-- `peek`, called a number of times. -/
def peeks : Nat → Participant → Except Stop Participant
  | 0, p => .ok p
  | n + 1, p => do
    let (_, p) ← p.peek garbage
    peeks n p

/-- `peek` says what a `probe` would, and nobody notices it. -/
structure Agrees (p : Participant) : Prop where
  tells : ∃ b p', p.peek garbage = .ok (b, p') ∧ (b = true ↔ p.Reports garbage)
  unseen : ∀ n, ∃ p', p.peeks garbage n = .ok p' ∧ ∀ cs, p'.answers garbage cs = p.answers garbage cs

/-- Bytes wait at the socket; or the slot is empty; or the client has no message, and no header is waiting. -/
def Fits : Participant → Prop
  | tcp h => h.fd ≠ none ∧ present h.incoming ≠ []
  | shm h => h.inBuf.shmp = false ∨ h.inBuf.seg.guard = false ∧ ∀ f w, h.inBuf.writer ≠ some f :: w
  | mqtt h => h.isProbed = false ∧ h.client = []

end Participant

/-- A yielded context is polled right: all its participants look right, and it is put on the ready queue only
when one of them has something to read, or its own header has been read before. -/
structure PollsRight (garbage : Nat → UInt8) (c : CollectiveContext (List Participant)) : Prop where
  agrees : ∀ p ∈ c.coll, p.Agrees garbage
  ready : ∀ c', Manager.getReady garbage c = .ok (true, c') → c.probed.1 = true ∨ ∃ p ∈ c.coll, p.Reports garbage

/-! ### One participant -/

namespace Participant

variable {garbage : Nat → UInt8}

private theorem agrees_of_still {p : Participant} {b : Bool} (h : p.peek garbage = .ok (b, p))
    (hb : b = true ↔ p.Reports garbage) : p.Agrees garbage := by
  refine ⟨⟨b, p, h, hb⟩, fun n => ⟨p, ?_, fun _ => rfl⟩⟩
  induction n with
  | zero => rfl
  | succ n ih =>
    unfold peeks
    rw [h, bind_ok]
    exact ih

private theorem not_reports {p p' : Participant} {e : Errno} {size : Nat}
    (h : p.probe garbage 0 false = .ok (.error e, size, p')) : ¬ p.Reports garbage := by
  rintro ⟨n, size', p₁, hp⟩
  rw [h] at hp
  cases hp

private theorem probe_tcp {h h' : HandleTCP} {r : Ret} {size : Nat} (hp : h.probe garbage 0 false = .ok (r, size, h')) :
    (tcp h).probe garbage 0 false = .ok (r, size, tcp h') := by
  change (h.probe garbage 0 false >>= _) = _
  rw [hp]
  rfl

private theorem tcp_agrees (h : HandleTCP) : (tcp h).Agrees garbage ↔ (tcp h).Fits := by
  constructor
  · rintro ⟨⟨b, p', hpeek, hb⟩, -⟩
    have hb' : h.peek.1 = b := (Prod.mk.inj (Except.ok.inj hpeek)).1
    subst hb'
    by_cases hfd : h.fd = none
    · -- the result of `recv` on `-1` is `-1`
      have htrue : h.peek.1 = true := by
        unfold HandleTCP.peek
        rw [hfd]
      have hprobe : h.probe garbage 0 false = .ok (.error .EBADF, 0, h) := by
        unfold HandleTCP.probe
        rw [hfd]
      exact absurd (hb.1 htrue) (not_reports (probe_tcp hprobe))
    · refine ⟨hfd, fun habsent => ?_⟩
      obtain ⟨fd, hfd'⟩ := Option.ne_none_iff_exists'.1 hfd
      have hprobe := HandleTCP.probe_nonblocking hfd garbage 0
      unfold HandleTCP.peek at hb
      rw [hfd'] at hb
      cases hin : h.incoming with
      | nil =>
        rw [hin] at hprobe hb
        exact not_reports (probe_tcp hprobe) (hb.1 rfl)
      | cons a s =>
        rw [hin] at hprobe hb habsent
        cases a with
        | quiet => exact not_reports (probe_tcp hprobe) (hb.1 rfl)
        | piece b bs => cases habsent
        | eof =>
          have hreports : (tcp h).Reports garbage := ⟨_, _, _, probe_tcp hprobe⟩
          cases hb.2 hreports
        | error e => exact not_reports (probe_tcp hprobe) (hb.1 rfl)
  · rintro ⟨hfd, hpresent⟩
    have hpoll := poll_present (n := sizeofSizeT) (by decide) hpresent
    obtain ⟨fd, hfd'⟩ := Option.ne_none_iff_exists'.1 hfd
    have hpeek : h.peek = (true, h) := by
      unfold HandleTCP.peek
      rw [hfd', hpoll]
    have hprobe := HandleTCP.probe_nonblocking hfd garbage 0
    rw [hpoll] at hprobe
    refine agrees_of_still (b := true) ?_ (iff_of_true rfl ⟨_, _, _, probe_tcp hprobe⟩)
    change Except.ok (h.peek.1, tcp h.peek.2) = _
    rw [hpeek]

private theorem probe_shm {h h' : HandleSHM} {r : Ret} {size : Nat} (hp : h.probe 0 false = .ok (r, size, h')) :
    (shm h).probe garbage 0 false = .ok (r, size, shm h') := by
  change (h.probe 0 false >>= _) = _
  rw [hp]
  rfl

/-- A non-blocking `probe` of shared memory is `trygetsize`. -/
private theorem reports_shm (h : HandleSHM) : (shm h).Reports garbage ↔ ∃ n, h.inBuf.trygetsize.1 = .ok n := by
  cases ht : h.inBuf.trygetsize with
  | mk r b =>
    cases r with
    | error e =>
      have hprobe : h.probe 0 false = .ok (.error e, 0, { h with inBuf := b }) := by
        unfold HandleSHM.probe
        rw [if_neg Bool.false_ne_true, ht]
        rfl
      refine iff_of_false (not_reports (probe_shm hprobe)) ?_
      rintro ⟨n, hn⟩
      cases hn
    | ok n =>
      have hprobe : h.probe 0 false = .ok (.ok sizeofSizeT, n, { h with inBuf := b }) := by
        unfold HandleSHM.probe
        rw [if_neg Bool.false_ne_true, ht]
        rfl
      exact iff_of_true ⟨_, _, _, probe_shm hprobe⟩ ⟨n, rfl⟩

private theorem look_guard (b : ShmBuffer) :
    b.look.seg.guard = true ↔ b.seg.guard = true ∨ ∃ f w, b.writer = some f :: w := by
  unfold ShmBuffer.look
  by_cases hguard : b.seg.guard = true
  · rw [if_pos hguard]
    exact iff_of_true hguard (Or.inl hguard)
  · rw [if_neg hguard]
    rcases hw : b.writer with _ | ⟨_ | f, w⟩
    · simp [hguard]
    · simp [hguard]
    · exact iff_of_true rfl (Or.inr ⟨f, w, rfl⟩)

private theorem trygetsize_ok (b : ShmBuffer) :
    (∃ n, b.trygetsize.1 = .ok n) ↔ b.shmp = true ∧ (b.seg.guard = true ∨ ∃ f w, b.writer = some f :: w) := by
  rw [← look_guard]
  unfold ShmBuffer.trygetsize
  cases b.shmp with
  | false => simp
  | true =>
    cases hg : b.look.seg.guard with
    | false => simp
    | true => simp

private theorem fits_shm (h : HandleSHM) : (shm h).Fits ↔ ¬ (shm h).Reports garbage := by
  rw [reports_shm, trygetsize_ok, not_and_or, not_or, Bool.not_eq_true, Bool.not_eq_true]
  simp only [not_exists]
  exact Iff.rfl

private theorem shm_agrees (h : HandleSHM) : (shm h).Agrees garbage ↔ (shm h).Fits := by
  have hpeek : (shm h).peek garbage = .ok (false, shm h) := rfl
  rw [@fits_shm garbage]
  constructor
  · rintro ⟨⟨b, p', hp, hb⟩, -⟩ hreports
    rw [hpeek] at hp
    cases hp
    cases hb.2 hreports
  · exact fun hno => agrees_of_still hpeek (iff_of_false Bool.false_ne_true hno)

private theorem peek_mqtt {h : HandleMQTT} {b : Bool} {p : Participant} (hp : (mqtt h).peek garbage = .ok (b, p)) :
    ∃ r size h', h.probe garbage 0 false = .ok (r, size, h') ∧ p = mqtt h' := by
  obtain ⟨⟨b', h₁⟩, hpeek, hp⟩ := bind_eq_ok.1 hp
  cases hp
  unfold HandleMQTT.peek at hpeek
  obtain ⟨⟨r, size, h₂⟩, hprobe, hpeek⟩ := bind_eq_ok.1 hpeek
  refine ⟨r, size, h₂, hprobe, ?_⟩
  rcases r with e | _ | n <;> cases hpeek <;> rfl

/-- With `is_probed`, each `peek` takes a header off `messages`, and there is none behind the last one. -/
private theorem peeks_mqtt {h : HandleMQTT} (hprobed : h.isProbed = true) (p : Participant) :
    (mqtt h).peeks garbage (h.messages.length + 1) ≠ .ok p := by
  generalize hms : h.messages = ms
  induction ms generalizing h with
  | nil =>
    intro he
    obtain ⟨⟨b, p₁⟩, hpeek, -⟩ := bind_eq_ok.1 he
    obtain ⟨r, size, h', hprobe, -⟩ := peek_mqtt hpeek
    unfold HandleMQTT.probe at hprobe
    rw [if_pos hprobed, hms] at hprobe
    cases hprobe
  | cons m ms ih =>
    intro he
    obtain ⟨⟨b, p₁⟩, hpeek, he⟩ := bind_eq_ok.1 he
    obtain ⟨r, size, h', hprobe, rfl⟩ := peek_mqtt hpeek
    unfold HandleMQTT.probe at hprobe
    rw [if_pos hprobed, hms] at hprobe
    obtain ⟨bs, -, hprobe⟩ := bind_eq_ok.1 hprobe
    cases hprobe
    exact ih (h := { h with messages := ms }) hprobed rfl he

private theorem mqtt_agrees (h : HandleMQTT) : (mqtt h).Agrees garbage ↔ (mqtt h).Fits := by
  have hundefined : ∀ {k : HandleMQTT}, k.isProbed = true → ¬ ∀ n, ∃ p, (mqtt k).peeks garbage n = .ok p := by
    intro k hk hall
    obtain ⟨p, hp⟩ := hall (k.messages.length + 1)
    exact peeks_mqtt hk p hp
  constructor
  · rintro ⟨-, hunseen⟩
    have hall : ∀ n, ∃ p, (mqtt h).peeks garbage n = .ok p := fun n => (hunseen n).imp fun p hp => hp.1
    have hprobed : h.isProbed = false := by
      by_contra hp
      exact hundefined (by simpa using hp) hall
    refine ⟨hprobed, ?_⟩
    cases hclient : h.client with
    | nil => rfl
    | cons m client =>
      -- the first `peek` takes the header away, and sets `is_probed`
      exfalso
      obtain ⟨p, hp⟩ := hall 1
      obtain ⟨⟨b, p₁⟩, hpeek, -⟩ := bind_eq_ok.1 hp
      have hafter : ∀ n, ∃ p, p₁.peeks garbage n = .ok p := by
        intro n
        obtain ⟨p', hp'⟩ := hall (n + 1)
        unfold peeks at hp'
        rw [hpeek, bind_ok] at hp'
        exact ⟨p', hp'⟩
      obtain ⟨r, size, h', hprobe, rfl⟩ := peek_mqtt hpeek
      unfold HandleMQTT.probe at hprobe
      rw [if_neg (by simp [hprobed]), if_neg Bool.false_ne_true, hclient] at hprobe
      obtain ⟨bs, -, hprobe⟩ := bind_eq_ok.1 hprobe
      cases hprobe
      exact hundefined rfl hafter
  · rintro ⟨hprobed, hclient⟩
    have hprobe : h.probe garbage 0 false = .ok (.error .EWOULDBLOCK, 0, h) := by
      unfold HandleMQTT.probe
      rw [if_neg (by simp [hprobed]), if_neg Bool.false_ne_true, hclient]
    have hpeek : (mqtt h).peek garbage = .ok (false, mqtt h) := by
      change (h.probe garbage 0 false >>= _) >>= _ = _
      rw [hprobe]
      rfl
    have hprobe' : (mqtt h).probe garbage 0 false = .ok (.error .EWOULDBLOCK, 0, mqtt h) := by
      change (h.probe garbage 0 false >>= _) = _
      rw [hprobe]
      rfl
    exact agrees_of_still hpeek (iff_of_false Bool.false_ne_true (not_reports hprobe'))

/-- The states in which a participant looks right. -/
theorem agrees_iff (p : Participant) : p.Agrees garbage ↔ p.Fits := by
  cases p with
  | tcp h => exact tcp_agrees h
  | shm h => exact shm_agrees h
  | mqtt h => exact mqtt_agrees h

end Participant

/-! ### The context -/

section

variable {garbage : Nat → UInt8}

private theorem peekAny_true {ps ps' : List Participant} (h : peekAny garbage ps = .ok (true, ps')) :
    ∃ p ∈ ps, ∃ p', p.peek garbage = .ok (true, p') := by
  induction ps generalizing ps' with
  | nil => cases h
  | cons p ps ih =>
    unfold peekAny at h
    obtain ⟨⟨b, p'⟩, hpeek, h⟩ := bind_eq_ok.1 h
    cases b with
    | true => exact ⟨p, List.mem_cons_self .., p', hpeek⟩
    | false =>
      obtain ⟨⟨b, ps₁⟩, hps, h⟩ := bind_eq_ok.1 h
      cases h
      obtain ⟨q, hq, hpeek⟩ := ih hps
      exact ⟨q, List.mem_cons_of_mem _ hq, hpeek⟩

/-- A context that is put on the ready queue has a header, or a participant that seems to have something. -/
private theorem getReady_true {c c' : CollectiveContext (List Participant)}
    (h : Manager.getReady garbage c = .ok (true, c')) :
    c.probed.1 = true ∨ ∃ p ∈ c.coll, ∃ p', p.peek garbage = .ok (true, p') := by
  unfold Manager.getReady at h
  by_cases hm : c.toManage = true
  · rw [if_pos hm] at h
    obtain ⟨⟨res, c₁⟩, hpoll, h⟩ := bind_eq_ok.1 h
    cases res with
    | false => cases h
    | true =>
      unfold Manager.poll at hpoll
      by_cases hp : c.probed.1 = true
      · exact Or.inl hp
      · rw [if_neg hp] at hpoll
        obtain ⟨⟨b, ps⟩, hps, hpoll⟩ := bind_eq_ok.1 hpoll
        cases hpoll
        exact Or.inr (peekAny_true hps)
  · rw [if_neg hm] at h
    cases h

/-- A context is polled right exactly when each participant is in a state in which its `peek` is right. -/
theorem polls_right_iff (garbage : Nat → UInt8) (c : CollectiveContext (List Participant)) :
    PollsRight garbage c ↔ ∀ p ∈ c.coll, p.Fits := by
  constructor
  · intro h p hp
    exact p.agrees_iff.1 (h.agrees p hp)
  · intro h
    have hagrees : ∀ p ∈ c.coll, p.Agrees garbage := fun p hp => p.agrees_iff.2 (h p hp)
    refine ⟨hagrees, fun c' hc => ?_⟩
    rcases getReady_true hc with hprobed | ⟨p, hp, p', hpeek⟩
    · exact Or.inl hprobed
    · obtain ⟨b, p₁, hpeek', hb⟩ := (hagrees p hp).tells
      rw [hpeek] at hpeek'
      cases hpeek'
      exact Or.inr ⟨p, hp, hb.1 rfl⟩

/-- A yielded context of a root with one participant. -/
private def waitingFor (p : Participant) : CollectiveContext (List Participant) where
  coll := [p]
  canReceive := true
  toManage := true

/-- A participant over TCP with an empty socket puts its context on the ready queue; a header that MQTT brings
is not there any more after it has been looked at. -/
theorem polls_wrong :
    ¬ PollsRight (fun _ => 0) (waitingFor (.tcp { fd := some 4 })) ∧
      ¬ (Participant.tcp { fd := some 4 }).Reports (fun _ => 0) ∧
      (Manager.getReady (fun _ => 0) (waitingFor (.tcp { fd := some 4 }))).map Prod.fst = .ok true ∧
      ¬ PollsRight (fun _ => 0) (waitingFor (.mqtt { client := [([], [0, 0, 0, 0, 0, 0, 0, 1]), ([], [7])] })) := by
  have hidle : ¬ (Participant.tcp { fd := some 4 }).Reports (fun _ => 0) := by
    rintro ⟨n, size, p', hp⟩
    cases hp
  refine ⟨fun h => ?_, hidle, rfl, fun h => ?_⟩
  · have hc : Manager.getReady (fun _ => 0) (waitingFor (.tcp { fd := some 4 })) =
        .ok (true, { waitingFor (.tcp { fd := some 4 }) with toManage := false }) := rfl
    rcases h.ready _ hc with hprobed | ⟨p, hp, hreports⟩
    · cases hprobed
    · obtain rfl := List.mem_singleton.1 hp
      exact hidle hreports
  · have hfits := (Participant.agrees_iff _).1 (h.agrees _ (List.mem_singleton_self _))
    cases hfits.2

end

end Mtcl
