import Mtcl.Base.Runs
import Mtcl.HandleUCX

/-!
# The receive requests of a UCX handle

`receive_internal` keeps the pointer to the request of a posted receive in the handle, so that a later call can
go on waiting for it.  UCX owns a request from the post until `ucp_request_free`; what it makes of each posted
receive (`UcpRecv`) is arbitrary, and its worker may be progressed from elsewhere between the calls.

A use of a request that has been freed stops the handle with `useAfterFree`.  `requests_owned_iff` says that no
run meets one, and that every call after a failure posts a new receive, exactly when no call that needs a
receive comes after a failed one.
-/

namespace Mtcl

open Runs

/-- `ucs_status_t`. -/
inductive UcsStatus
  | OK | INPROGRESS
  | error (e : UcsError)
  deriving DecidableEq, Repr

/-- What UCX makes of a posted receive: it is complete at once, there is an error pointer, or a request that is
completed by the call of `ucp_worker_progress` after `left` others. -/
inductive UcpRecv
  | done (bs : Bytes)
  | refused (e : UcsError)
  | later (left : Nat) (result : Except UcsError Bytes)

/-- `ucs_status_ptr_t`. -/
inductive UcsPtr
  | null
  | error (e : UcsError)
  | request (id : Nat)
  deriving DecidableEq, Repr

/-- A request that UCX owns; its bytes go to `test_probe`, or to a buffer of the caller. -/
structure UcpRequest where
  left : Nat
  result : Except UcsError Bytes
  toProbe : Bool

/-- The part of an object of class `HandleUCX` that receives.  `complete` is `ctx.complete`, `lastProbe` is
`none` for `-1`, `received` is what the last `receive` has got in its buffer, `answers` is what UCX makes of the
posted receives, which are numbered, and `owned` the request that it owns, of which a handle has one at most.
`failed` is not in the program: the last receive has ended with an error. -/
structure UcxReceiver where
  request : UcsPtr := .null
  complete : Bool := false
  lastProbe : Option Nat := none
  testProbe : Nat := 42
  received : Bytes := []
  answers : Nat → UcpRecv
  posts : Nat := 0
  owned : Option (Nat × UcpRequest) := none
  failed : Bool := false

namespace UcxReceiver

/-- The bytes of a receive are stored; those of `test_probe` are in network order. -/
def store (s : UcxReceiver) (toProbe : Bool) (bs : Bytes) : UcxReceiver :=
  if toProbe then { s with testProbe := Words.ofBE bs } else { s with received := bs }

/-- `ucp_stream_recv_nbx`, behind `fill_request_param`. -/
def post (s : UcxReceiver) (toProbe : Bool) : UcxReceiver :=
  let s' := { s with complete := false, posts := s.posts + 1, failed := false }
  match s.answers s.posts with
  | .done bs => { s'.store toProbe bs with request := .null }
  | .refused e => { s' with request := .error e }
  | .later left result => { s' with request := .request s.posts, owned := some (s.posts, ⟨left, result, toProbe⟩) }

/-- `ucp_worker_progress`; the callback of the receive sets `ctx.complete`. -/
def progress (s : UcxReceiver) : UcxReceiver :=
  match s.owned with
  | none => s
  | some (id, r) =>
    if s.complete then s
    else if r.left = 0 then
      match r.result with
      | .ok bs => { s.store r.toProbe bs with complete := true }
      | .error _ => { s with complete := true }
    else { s with owned := some (id, { r with left := r.left - 1 }) }

/-- `ucp_request_check_status`. -/
def checkStatus (s : UcxReceiver) (id : Nat) : Except Stop UcsStatus :=
  match s.owned with
  | some (j, r) =>
    if j = id then
      if s.complete then
        match r.result with
        | .ok _ => .ok .OK
        | .error e => .ok (.error e)
      else .ok .INPROGRESS
    else .error .useAfterFree
  | none => .error .useAfterFree

/-- `ucp_request_free`. -/
def free (s : UcxReceiver) (id : Nat) : Except Stop UcxReceiver :=
  match s.owned with
  | some (j, _) => if j = id then .ok { s with owned := none } else .error .useAfterFree
  | none => .error .useAfterFree

/-- The loop of `request_wait`: when nothing is to come it does not end. -/
def waitLoop : Nat → UcxReceiver → Except Stop UcxReceiver
  | 0, s => if s.complete then .ok s else .error .blocked
  | n + 1, s => if s.complete then .ok s else waitLoop n s.progress

/-- The turns that the loop takes at most. -/
def turns (s : UcxReceiver) : Nat := s.owned.elim 0 fun r => r.2.left + 1

/-- `HandleUCX::request_wait`, for the stored request. -/
def requestWait (s : UcxReceiver) (blocking : Bool) : Except Stop (UcsStatus × UcxReceiver) :=
  match s.request with
  | .null => .ok (.OK, s)
  | .error e => .ok (.error e, s)
  | .request id =>
    let s := if blocking then s else s.progress
    if !blocking && !s.complete then .ok (.INPROGRESS, s)
    else do
      let s ← waitLoop s.turns s
      let status ← s.checkStatus id
      let s ← s.free id
      return (status, s)

/-- The end of `receive_internal`, for the result of `request_wait`: the pointer is reset on success only. -/
def conclude (s : UcxReceiver) (size : Nat) : UcsStatus → Ret × UcxReceiver
  | .OK => (.ok size, { s with request := .null })
  | .INPROGRESS => (.error .EWOULDBLOCK, s)
  | .error e => (if e = .CONNECTION_RESET then .ok 0 else .error .EINVAL, { s with failed := true })

/-- `HandleUCX::receive_internal`. -/
def receiveInternal (s : UcxReceiver) (size : Nat) (toProbe blocking : Bool) : Except Stop (Ret × UcxReceiver) := do
  let s := if s.request = .null then s.post toProbe else s
  let (status, s) ← s.requestWait blocking
  return s.conclude size status

/-- `HandleUCX::receive`. -/
def receive (s : UcxReceiver) (size : Nat) : Except Stop (Ret × Bytes × UcxReceiver) := do
  let (r, s) ← ({ s with received := [] } : UcxReceiver).receiveInternal size false true
  return (r, s.received, { s with lastProbe := none })

/-- `HandleUCX::probe`. -/
def probe (s : UcxReceiver) (size : Nat) (blocking : Bool) : Except Stop (Ret × Nat × UcxReceiver) :=
  match s.lastProbe with
  | some size => .ok (.ok sizeofSizeT, size, s)
  | none => do
    let (r, s) ← s.receiveInternal sizeofSizeT true blocking
    match r with
    | .ok (_ + 1) =>
      let s := { s with lastProbe := HandleUCX.probedSize s.testProbe }
      if s.testProbe = 0 then
        -- the rest of EOS
        let (_, s) ← s.receiveInternal sizeofInt false true
        return (.ok sizeofSizeT, 0, s)
      else return (.ok sizeofSizeT, s.testProbe, s)
    | r => return (r, size, s)

/-- `HandleUCX::peek`. -/
def peek (s : UcxReceiver) : Except Stop (Bool × UcxReceiver) := do
  let (r, _, s) ← s.probe 0 false
  match r with
  | .ok (_ + 1) => return (true, s)
  | _ => return (false, s)

/-! ### Runs -/

/-- A call, or a call of `ucp_worker_progress` from elsewhere. -/
inductive Op
  | probe (size : Nat) (blocking : Bool)
  | peek
  | receive (size : Nat)
  | progress

/-- What it returns. -/
inductive Answer
  | probed (r : Ret) (size : Nat)
  | peeked (b : Bool)
  | received (r : Ret) (bs : Bytes)
  | progressed

/-- One operation. -/
def step (o : Op) (s : UcxReceiver) : Except Stop (Answer × UcxReceiver) :=
  match o with
  | .probe size blocking => do
    let (r, size, s) ← s.probe size blocking
    return (.probed r size, s)
  | .peek => do
    let (b, s) ← s.peek
    return (.peeked b, s)
  | .receive size => do
    let (r, bs, s) ← s.receive size
    return (.received r bs, s)
  | .progress => .ok (.progressed, s.progress)

/-- The operation calls `receive_internal`. -/
def Needs (s : UcxReceiver) : Op → Prop
  | .probe _ _ => s.lastProbe = none
  | .peek => s.lastProbe = none
  | .receive _ => True
  | .progress => False

/-- The operation returns without having used a request that UCX did not own, and if it needs a receive after a
failure then it has posted one. -/
def UsesOwned (s : UcxReceiver) (o : Op) : Prop :=
  ∃ a s', step o s = .ok (a, s') ∧ (s.failed = true → s.Needs o → s.posts < s'.posts)

/-- The operation does not need a receive after a failure. -/
def NotAfterFailure (s : UcxReceiver) (o : Op) : Prop := s.failed = true → ¬s.Needs o

/-- The handle of a new connection. -/
def Init (s : UcxReceiver) : Prop := ∃ answers, s = { answers := answers }

/-- Without a failure, a stored request is one that UCX owns; after one, there is an error pointer or a request
that has been freed. -/
structure Inv (s : UcxReceiver) : Prop where
  owned : s.failed = false → s.request = .null ∧ s.owned = none ∨ ∃ id r, s.request = .request id ∧
    s.owned = some (id, r)
  stale : s.failed = true → s.owned = none ∧
    ((∃ e, s.request = .error e) ∨ (∃ id, s.request = .request id) ∧ s.complete = true)

/-! ### Waiting -/

/-- The same pointer, the same receives, the same cache. -/
structure Kept (s s' : UcxReceiver) : Prop where
  request : s'.request = s.request
  lastProbe : s'.lastProbe = s.lastProbe
  posts : s'.posts = s.posts
  failed : s'.failed = s.failed

theorem Kept.refl (s : UcxReceiver) : s.Kept s := ⟨rfl, rfl, rfl, rfl⟩

theorem Kept.trans {s s' s'' : UcxReceiver} (h : s.Kept s') (h' : s'.Kept s'') : s.Kept s'' :=
  ⟨h'.request.trans h.request, h'.lastProbe.trans h.lastProbe, h'.posts.trans h.posts, h'.failed.trans h.failed⟩

theorem kept_store (s : UcxReceiver) (toProbe : Bool) (bs : Bytes) : s.Kept (s.store toProbe bs) := by
  unfold store
  split
  · exact ⟨rfl, rfl, rfl, rfl⟩
  · exact ⟨rfl, rfl, rfl, rfl⟩

theorem store_owned (s : UcxReceiver) (toProbe : Bool) (bs : Bytes) : (s.store toProbe bs).owned = s.owned := by
  unfold store
  split <;> rfl

/-- The worker does not take a request away, and it completes the one that is next. -/
theorem progress_owned {s : UcxReceiver} {id : Nat} {r : UcpRequest} (ho : s.owned = some (id, r)) :
    s.Kept s.progress ∧ (∃ r', s.progress.owned = some (id, r') ∧
      (s.progress.complete = false → r'.left + 1 = r.left)) := by
  unfold progress
  rw [ho]
  dsimp only
  by_cases hc : s.complete = true
  · rw [if_pos hc]
    refine ⟨.refl s, r, ho, fun h => ?_⟩
    rw [hc] at h
    cases h
  · rw [if_neg hc]
    by_cases hleft : r.left = 0
    · rw [if_pos hleft]
      split
      · rename_i bs hbs
        have hk := s.kept_store r.toProbe bs
        exact ⟨⟨hk.request, hk.lastProbe, hk.posts, hk.failed⟩, r, (s.store_owned _ _).trans ho, nofun⟩
      · exact ⟨⟨rfl, rfl, rfl, rfl⟩, r, rfl, nofun⟩
    · rw [if_neg hleft]
      refine ⟨⟨rfl, rfl, rfl, rfl⟩, _, rfl, fun _ => ?_⟩
      dsimp only
      omega

theorem progress_of_none {s : UcxReceiver} (ho : s.owned = none) : s.progress = s := by
  unfold progress
  rw [ho]

/-- The loop ends with the request complete, within its turns. -/
theorem waitLoop_owned {n : Nat} {s : UcxReceiver} {id : Nat} {r : UcpRequest} (ho : s.owned = some (id, r))
    (hn : r.left < n) :
    ∃ s', waitLoop n s = .ok s' ∧ s'.complete = true ∧ s.Kept s' ∧ ∃ r', s'.owned = some (id, r') := by
  induction n generalizing s r with
  | zero => exact absurd hn (Nat.not_lt_zero _)
  | succ n ih =>
    rw [waitLoop]
    by_cases hc : s.complete = true
    · rw [if_pos hc]
      exact ⟨s, rfl, hc, .refl s, r, ho⟩
    · rw [if_neg hc]
      obtain ⟨hk, r1, ho1, hleft⟩ := progress_owned ho
      by_cases hc1 : s.progress.complete = true
      · refine ⟨s.progress, ?_, hc1, hk, r1, ho1⟩
        cases n with
        | zero => rw [waitLoop, if_pos hc1]
        | succ n => rw [waitLoop, if_pos hc1]
      · have hlt : r1.left < n := by
          have := hleft (Bool.eq_false_iff.2 hc1)
          omega
        obtain ⟨s', hloop, hc', hk', ho'⟩ := ih ho1 hlt
        exact ⟨s', hloop, hc', hk.trans hk', ho'⟩

/-- `request_wait` on a request that UCX owns: it is still in progress, or it is complete and has been freed. -/
theorem requestWait_owned {s : UcxReceiver} {id : Nat} {r : UcpRequest} (hreq : s.request = .request id)
    (ho : s.owned = some (id, r)) (blocking : Bool) :
    (∃ s', s.requestWait blocking = .ok (.INPROGRESS, s') ∧ s.Kept s' ∧ ∃ r', s'.owned = some (id, r')) ∨
      ∃ st s', s.requestWait blocking = .ok (st, s') ∧ st ≠ .INPROGRESS ∧ s.Kept s' ∧ s'.owned = none ∧
        s'.complete = true := by
  -- what has been done before the loop
  obtain ⟨s1, hs1, hk1, r1, ho1⟩ : ∃ s1, (if blocking then s else s.progress) = s1 ∧ s.Kept s1 ∧
      ∃ r1, s1.owned = some (id, r1) := by
    cases blocking with
    | true => exact ⟨s, rfl, .refl s, r, ho⟩
    | false =>
      obtain ⟨hk, r1, ho1, -⟩ := progress_owned ho
      exact ⟨s.progress, rfl, hk, r1, ho1⟩
  unfold requestWait
  rw [hreq]
  dsimp only
  rw [hs1]
  by_cases hwait : (!blocking && !s1.complete) = true
  · rw [if_pos hwait]
    exact Or.inl ⟨s1, rfl, hk1, r1, ho1⟩
  · rw [if_neg hwait]
    right
    have hturns : s1.turns = r1.left + 1 := by
      unfold turns
      rw [ho1]
      rfl
    obtain ⟨s2, hloop, hc2, hk2, r2, ho2⟩ := waitLoop_owned ho1 (Nat.lt_succ_self r1.left)
    rw [hturns, hloop, bind_ok]
    have hstatus : ∃ st, s2.checkStatus id = .ok st ∧ st ≠ .INPROGRESS := by
      unfold checkStatus
      rw [ho2]
      dsimp only
      rw [if_pos rfl, if_pos hc2]
      cases r2.result with
      | ok bs => exact ⟨_, rfl, nofun⟩
      | error e => exact ⟨_, rfl, nofun⟩
    obtain ⟨st, hst, hne⟩ := hstatus
    have hfree : s2.free id = .ok { s2 with owned := none } := by
      unfold free
      rw [ho2]
      exact if_pos rfl
    rw [hst, bind_ok, hfree]
    have hk := hk1.trans hk2
    exact ⟨st, _, rfl, hne, ⟨hk.request, hk.lastProbe, hk.posts, hk.failed⟩, rfl, hc2⟩

/-- `request_wait` on a request that has been freed. -/
theorem requestWait_freed {s : UcxReceiver} {id : Nat} (hreq : s.request = .request id) (ho : s.owned = none)
    (hc : s.complete = true) (blocking : Bool) : s.requestWait blocking = .error .useAfterFree := by
  unfold requestWait
  rw [hreq]
  dsimp only
  have hsame : (if blocking then s else s.progress) = s := by
    rw [progress_of_none ho, ite_self]
  have hloop : waitLoop s.turns s = .ok s := by
    unfold turns
    rw [ho]
    exact if_pos hc
  have hstatus : s.checkStatus id = .error .useAfterFree := by
    unfold checkStatus
    rw [ho]
  rw [hsame, if_neg (by simp [hc]), hloop, bind_ok, hstatus]
  rfl

/-! ### Receiving -/

/-- What a receive leaves when there has been no failure before. -/
structure Received (s : UcxReceiver) (r : Ret) (s' : UcxReceiver) : Prop where
  inv : s'.Inv
  lastProbe : s'.lastProbe = s.lastProbe
  success : ∀ n, r = .ok (n + 1) → s'.failed = false

/-- A receive that ends with an error returns no positive number. -/
theorem conclude_error (s : UcxReceiver) (size : Nat) (e : UcsError) (n : Nat) :
    (s.conclude size (.error e)).1 ≠ .ok (n + 1) := by
  intro h
  change (if e = UcsError.CONNECTION_RESET then (.ok 0 : Ret) else .error .EINVAL) = .ok (n + 1) at h
  split at h
  · cases h
  · cases h

private theorem received_conclude {s s0 : UcxReceiver} (st : UcsStatus) (size : Nat)
    (hlast : s0.lastProbe = s.lastProbe) (hf : s0.failed = false)
    (hin : st = .INPROGRESS → ∃ id r, s0.request = .request id ∧ s0.owned = some (id, r))
    (hend : st ≠ .INPROGRESS → s0.owned = none)
    (herr : ∀ e, st = .error e → (∃ e, s0.request = .error e) ∨ (∃ id, s0.request = .request id) ∧ s0.complete = true) :
    Received s (s0.conclude size st).1 (s0.conclude size st).2 := by
  have hnot : s0.failed ≠ true := Bool.eq_false_iff.1 hf
  cases st with
  | OK => exact ⟨⟨fun _ => Or.inl ⟨rfl, hend nofun⟩, fun h => absurd h hnot⟩, hlast, fun _ _ => hf⟩
  | INPROGRESS => exact ⟨⟨fun _ => Or.inr (hin rfl), fun h => absurd h hnot⟩, hlast, nofun⟩
  | error e =>
    exact ⟨⟨nofun, fun _ => ⟨hend nofun, herr e rfl⟩⟩, hlast, fun n hn => absurd hn (conclude_error s0 size e n)⟩

private theorem received_owned {s s0 : UcxReceiver} {id : Nat} {r : UcpRequest} (hlast : s0.lastProbe = s.lastProbe)
    (hf : s0.failed = false) (hreq : s0.request = .request id) (ho : s0.owned = some (id, r)) (size : Nat)
    (blocking : Bool) :
    ∃ r s', (s0.requestWait blocking >>= fun x => .ok (x.2.conclude size x.1)) = .ok (r, s') ∧ Received s r s' := by
  rcases requestWait_owned hreq ho blocking with ⟨s1, hwait, hk, r1, ho1⟩ | ⟨st, s1, hwait, hne, hk, ho1, hc1⟩
  · rw [hwait]
    exact ⟨_, _, rfl, received_conclude _ size (hk.lastProbe.trans hlast) (hk.failed.trans hf)
      (fun _ => ⟨id, r1, hk.request.trans hreq, ho1⟩) (fun h => absurd rfl h) nofun⟩
  · rw [hwait]
    exact ⟨_, _, rfl, received_conclude _ size (hk.lastProbe.trans hlast) (hk.failed.trans hf) (fun h => absurd h hne)
      (fun _ => ho1) fun _ _ => Or.inr ⟨⟨id, hk.request.trans hreq⟩, hc1⟩⟩

private theorem post_cases {s : UcxReceiver} (ho : s.owned = none) (toProbe : Bool) :
    (s.post toProbe).lastProbe = s.lastProbe ∧ (s.post toProbe).failed = false ∧
      ((s.post toProbe).owned = none ∧ ((s.post toProbe).request = .null ∨ ∃ e, (s.post toProbe).request = .error e) ∨
        ∃ id r, (s.post toProbe).request = .request id ∧ (s.post toProbe).owned = some (id, r)) := by
  unfold post
  cases s.answers s.posts with
  | done bs =>
    have hk := kept_store { s with complete := false, posts := s.posts + 1, failed := false } toProbe bs
    have ho' := store_owned { s with complete := false, posts := s.posts + 1, failed := false } toProbe bs
    exact ⟨hk.lastProbe, hk.failed, Or.inl ⟨ho'.trans ho, Or.inl rfl⟩⟩
  | refused e => exact ⟨rfl, rfl, Or.inl ⟨ho, Or.inr ⟨e, rfl⟩⟩⟩
  | later left result => exact ⟨rfl, rfl, Or.inr ⟨_, _, rfl, rfl⟩⟩

/-- `receive_internal` when there has been no failure. -/
theorem Inv.receiveInternal {s : UcxReceiver} (hI : s.Inv) (hf : s.failed = false) (size : Nat)
    (toProbe blocking : Bool) :
    ∃ r s', s.receiveInternal size toProbe blocking = .ok (r, s') ∧ Received s r s' := by
  unfold UcxReceiver.receiveInternal
  rcases hI.owned hf with ⟨hnull, ho⟩ | ⟨id, r, hreq, ho⟩
  · rw [if_pos hnull]
    obtain ⟨hlast, hf1, ⟨ho1, hnull1 | ⟨e, he⟩⟩ | ⟨id, r, hreq, ho1⟩⟩ := post_cases ho toProbe
    · have hwait : (s.post toProbe).requestWait blocking = .ok (.OK, s.post toProbe) := by
        rw [requestWait, hnull1]
      exact ⟨_, _, congrArg (· >>= _) hwait, received_conclude .OK size hlast hf1 nofun (fun _ => ho1) nofun⟩
    · have hwait : (s.post toProbe).requestWait blocking = .ok (.error e, s.post toProbe) := by
        rw [requestWait, he]
      exact ⟨_, _, congrArg (· >>= _) hwait,
        received_conclude (.error e) size hlast hf1 nofun (fun _ => ho1) fun _ _ => Or.inl ⟨e, he⟩⟩
    · exact received_owned hlast hf1 hreq ho1 size blocking
  · rw [if_neg (by simp [hreq])]
    exact received_owned rfl hf hreq ho size blocking

/-- `receive_internal` after a failure: it meets the old error pointer, and posts nothing, or it uses a request
that has been freed. -/
theorem Inv.receiveInternal_stale {s : UcxReceiver} (hI : s.Inv) (hf : s.failed = true) (size : Nat)
    (toProbe blocking : Bool) :
    (∃ r s', s.receiveInternal size toProbe blocking = .ok (r, s') ∧ (∀ n, r ≠ .ok (n + 1)) ∧ s'.posts = s.posts) ∨
      s.receiveInternal size toProbe blocking = .error .useAfterFree := by
  obtain ⟨ho, ⟨e, he⟩ | ⟨⟨id, hreq⟩, hc⟩⟩ := hI.stale hf
  · left
    unfold UcxReceiver.receiveInternal
    have hwait : s.requestWait blocking = .ok (.error e, s) := by
      rw [requestWait, he]
    rw [if_neg (by simp [he])]
    exact ⟨_, _, congrArg (· >>= _) hwait, conclude_error s size e, rfl⟩
  · right
    unfold UcxReceiver.receiveInternal
    rw [if_neg (by simp [hreq])]
    show (s.requestWait blocking >>= _) = _
    rw [requestWait_freed hreq ho hc]
    rfl

/-! ### The calls -/

/-- `peek` is a `probe` that does not wait. -/
private theorem peek_eq (s : UcxReceiver) : s.peek = (s.probe 0 false).map fun x => (match x.1 with
    | .ok (_ + 1) => true
    | _ => false, x.2.2) := by
  unfold peek
  rcases s.probe 0 false with st | ⟨e | _ | n, size, s'⟩
  · rfl
  · rfl
  · rfl
  · rfl

private theorem probe_ready {s : UcxReceiver} (hI : s.Inv) (hf : s.failed = false) (size : Nat) (blocking : Bool) :
    ∃ r size' s', s.probe size blocking = .ok (r, size', s') ∧ s'.Inv := by
  unfold probe
  cases hl : s.lastProbe with
  | some n => exact ⟨_, _, s, rfl, hI⟩
  | none =>
    obtain ⟨r, s1, hrecv, hr⟩ := hI.receiveInternal hf sizeofSizeT true blocking
    dsimp only
    rw [hrecv, bind_ok]
    rcases r with e | _ | n
    · exact ⟨_, _, _, rfl, hr.inv⟩
    · exact ⟨_, _, _, rfl, hr.inv⟩
    · have hI2 : ({ s1 with lastProbe := HandleUCX.probedSize s1.testProbe } : UcxReceiver).Inv :=
        ⟨hr.inv.owned, hr.inv.stale⟩
      dsimp only
      by_cases h0 : s1.testProbe = 0
      · obtain ⟨r2, s2, hrecv2, hr2⟩ := hI2.receiveInternal (hr.success n rfl) sizeofInt false true
        rw [if_pos h0, hrecv2]
        exact ⟨_, _, _, rfl, hr2.inv⟩
      · rw [if_neg h0]
        exact ⟨_, _, _, rfl, hI2⟩

private theorem Inv.progress {s : UcxReceiver} (hI : s.Inv) : s.progress.Inv := by
  cases ho : s.owned with
  | none =>
    rw [progress_of_none ho]
    exact hI
  | some x =>
    obtain ⟨id, r⟩ := x
    obtain ⟨hk, r1, ho1, -⟩ := progress_owned ho
    have hf : s.failed = false := by
      cases hf : s.failed with
      | false => rfl
      | true => cases ho.symm.trans (hI.stale hf).1
    rcases hI.owned hf with ⟨-, hnone⟩ | ⟨j, r2, hreq, ho2⟩
    · cases ho.symm.trans hnone
    · cases ho.symm.trans ho2
      refine ⟨fun _ => Or.inr ⟨_, r1, hk.request.trans hreq, ho1⟩, fun h => ?_⟩
      cases (hk.failed.trans hf).symm.trans h

/-- A call that needs no receive finds the size in the cache. -/
private theorem step_cached {s : UcxReceiver} {o : Op} (hI : s.Inv) (hn : ¬s.Needs o) :
    ∃ a s', step o s = .ok (a, s') ∧ s'.Inv := by
  have hprobe : s.lastProbe ≠ none → ∀ size blocking, ∃ n, s.probe size blocking = .ok (.ok sizeofSizeT, n, s) := by
    intro hl size blocking
    obtain ⟨n, hl⟩ := Option.ne_none_iff_exists'.1 hl
    unfold probe
    rw [hl]
    exact ⟨n, rfl⟩
  cases o with
  | probe size blocking =>
    obtain ⟨n, hp⟩ := hprobe hn size blocking
    exact ⟨_, _, congrArg (· >>= _) hp, hI⟩
  | peek =>
    obtain ⟨n, hp⟩ := hprobe hn 0 false
    exact ⟨_, _, congrArg (fun x => (x >>= _) >>= _) hp, hI⟩
  | receive size => exact absurd trivial hn
  | progress => exact ⟨_, _, rfl, hI.progress⟩

/-- Every operation returns when there has been no failure. -/
private theorem step_ready {s : UcxReceiver} (hI : s.Inv) (hf : s.failed = false) (o : Op) :
    ∃ a s', step o s = .ok (a, s') ∧ s'.Inv := by
  cases o with
  | probe size blocking =>
    obtain ⟨r, n, s', hp, hI'⟩ := probe_ready hI hf size blocking
    exact ⟨_, _, congrArg (· >>= _) hp, hI'⟩
  | peek =>
    obtain ⟨r, n, s', hp, hI'⟩ := probe_ready hI hf 0 false
    show ∃ a s', (s.peek >>= _) = .ok (a, s') ∧ _
    rw [peek_eq, hp]
    exact ⟨_, _, rfl, hI'⟩
  | receive size =>
    have hI0 : ({ s with received := [] } : UcxReceiver).Inv := ⟨hI.owned, hI.stale⟩
    obtain ⟨r, s1, hrecv, hr⟩ := hI0.receiveInternal hf size false true
    show ∃ a s', (s.receive size >>= _) = .ok (a, s') ∧ _
    unfold receive
    rw [hrecv]
    exact ⟨_, _, rfl, ⟨hr.inv.owned, hr.inv.stale⟩⟩
  | progress => exact ⟨_, _, rfl, hI.progress⟩

/-- No operation that needs a receive posts one after a failure. -/
private theorem step_stale {s : UcxReceiver} {o : Op} (hI : s.Inv) (hf : s.failed = true) (hn : s.Needs o) {a : Answer}
    {s' : UcxReceiver} (h : step o s = .ok (a, s')) : s'.posts = s.posts := by
  have hprobe : s.lastProbe = none → ∀ {size blocking r n s'}, s.probe size blocking = .ok (r, n, s') →
      s'.posts = s.posts := by
    intro hl size blocking r n s' hp
    unfold probe at hp
    rw [hl] at hp
    rcases hI.receiveInternal_stale hf sizeofSizeT true blocking with ⟨r1, s1, hrecv, hr, hposts⟩ | hrecv
    · dsimp only at hp
      rw [hrecv, bind_ok] at hp
      rcases r1 with e | _ | k
      · cases hp
        exact hposts
      · cases hp
        exact hposts
      · exact absurd rfl (hr k)
    · dsimp only at hp
      rw [hrecv] at hp
      cases hp
  cases o with
  | probe size blocking =>
    obtain ⟨⟨r, n, s1⟩, hp, h⟩ := bind_eq_ok.1 h
    cases h
    exact hprobe hn hp
  | peek =>
    obtain ⟨⟨b, s1⟩, hpeek, h⟩ := bind_eq_ok.1 h
    cases h
    rw [peek_eq] at hpeek
    obtain ⟨⟨r, n, s2⟩, hp, heq⟩ := map_eq_ok hpeek
    cases heq
    exact hprobe hn hp
  | receive size =>
    obtain ⟨⟨r, bs, s1⟩, hcall, h⟩ := bind_eq_ok.1 h
    cases h
    obtain ⟨⟨r, s2⟩, hrecv, hcall⟩ := bind_eq_ok.1 hcall
    cases hcall
    have hI0 : ({ s with received := [] } : UcxReceiver).Inv := ⟨hI.owned, hI.stale⟩
    rcases hI0.receiveInternal_stale hf size false true with ⟨r1, s3, hrecv1, -, hposts⟩ | hrecv1
    · cases hrecv.symm.trans hrecv1
      exact hposts
    · cases hrecv.symm.trans hrecv1
  | progress => exact hn.elim

/-- One operation. -/
theorem usesOwned_iff {s : UcxReceiver} (hI : s.Inv) (o : Op) :
    (s.UsesOwned o ↔ s.NotAfterFailure o) ∧ (s.NotAfterFailure o → ∀ a s', step o s = .ok (a, s') → s'.Inv) := by
  have hgood : s.NotAfterFailure o → ∃ a s', step o s = .ok (a, s') ∧ s'.Inv := by
    intro hcond
    cases hf : s.failed with
    | false => exact step_ready hI hf o
    | true => exact step_cached hI (hcond hf)
  refine ⟨⟨?_, ?_⟩, ?_⟩
  · rintro ⟨a, s', hstep, hfresh⟩ hf hn
    have hposts := step_stale hI hf hn hstep
    have := hfresh hf hn
    omega
  · intro hcond
    obtain ⟨a, s', hstep, -⟩ := hgood hcond
    exact ⟨a, s', hstep, fun hf hn => absurd hn (hcond hf)⟩
  · intro hcond a s' hstep
    obtain ⟨a1, s1, hstep1, hI1⟩ := hgood hcond
    cases hstep.symm.trans hstep1
    exact hI1

theorem Init.inv {s : UcxReceiver} (h : s.Init) : s.Inv := by
  obtain ⟨answers, rfl⟩ := h
  exact ⟨fun _ => Or.inl ⟨rfl, rfl⟩, nofun⟩

end UcxReceiver

open UcxReceiver

/-- Whatever UCX makes of the posted receives, all operations of a run return without using a request that UCX
does not own, and those that come after a failure post a receive of their own, exactly if none that needs a
receive comes after a failure. -/
theorem requests_owned_iff {s : UcxReceiver} (h : s.Init) (os : List UcxReceiver.Op) :
    Always step UsesOwned os s ↔ Always step NotAfterFailure os s := by
  constructor
  · refine Always.imp Inv (fun hI huses => ?_) h.inv
    obtain ⟨hiff, hkeep⟩ := usesOwned_iff hI _
    exact ⟨hiff.1 huses, hkeep (hiff.1 huses)⟩
  · refine Always.imp Inv (fun hI hcond => ?_) h.inv
    obtain ⟨hiff, hkeep⟩ := usesOwned_iff hI _
    exact ⟨hiff.2 hcond, hkeep hcond⟩

/-- A receive that UCX completes later is asked for twice, and then the message is taken. -/
theorem requests_owned_run :
    Always step UsesOwned [.probe 0 false, .peek, .progress, .receive 1]
      { answers := fun n => if n = 0 then .later 1 (.ok [0, 0, 0, 0, 0, 0, 0, 1]) else .done [7] } := by
  refine (requests_owned_iff ⟨_, rfl⟩ _).2 ⟨nofun, ?_⟩
  rintro a s h
  cases h
  refine ⟨nofun, ?_⟩
  rintro a s h
  cases h
  refine ⟨nofun, ?_⟩
  rintro a s h
  cases h
  exact ⟨nofun, fun _ _ _ => trivial⟩

/-- A receive that ends later with an error leaves a request that the next call uses again; behind an error
pointer the next call posts nothing. -/
theorem requests_stale :
    (∃ a s, step (.probe 0 true) { answers := fun _ => .later 0 (.error .CONNECTION_RESET) } = .ok (a, s) ∧
      step (.probe 0 true) s = .error .useAfterFree ∧ step (.receive 1) s = .error .useAfterFree) ∧
    (∃ a b s s', step (.probe 0 true)
      { answers := fun n => if n = 0 then .refused (.other 1) else .done [7] } = .ok (a, s) ∧
      step (.receive 1) s = .ok (b, s') ∧ s'.posts = s.posts) ∧
    ¬Always step UsesOwned [.probe 0 true, .probe 0 true] { answers := fun _ => .later 0 (.error .CONNECTION_RESET) } ∧
    ¬Always step UsesOwned [.probe 0 true, .receive 1]
      { answers := fun n => if n = 0 then .refused (.other 1) else .done [7] } := by
  refine ⟨⟨_, _, rfl, rfl, rfl⟩, ⟨_, _, _, _, rfl, rfl, rfl⟩, ?_, ?_⟩
  · rintro ⟨-, h⟩
    obtain ⟨⟨a, s', hstep, -⟩, -⟩ := h _ _ rfl
    cases hstep
  · rintro ⟨-, h⟩
    obtain ⟨⟨a, s', hstep, hfresh⟩, -⟩ := h _ _ rfl
    cases hstep
    exact absurd (hfresh rfl trivial) (by decide)

end Mtcl
