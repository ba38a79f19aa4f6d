import Mtcl.UcxRequest

/-!
# UCX receives on a stream

`HandleUCX` sees what the library brings as a stream of bytes, `UcxReceiver` as the answers to the receives that
are posted.  When these are what the stream has for them (`UcpRecv.From`), the blocking calls agree:
`receive_agrees` and `probe_agrees` say that both return the same, or that both use a request that has been
freed.
-/

namespace Mtcl

/-- What a posted receive of `size` bytes comes to on the stream of `h`. -/
def UcpRecv.From (h : HandleUCX) (size : Nat) : UcpRecv → Prop
  | .done bs => size ≤ h.incoming.length ∧ bs = h.incoming.take size
  | .later _ (.ok bs) => size ≤ h.incoming.length ∧ bs = h.incoming.take size
  | .refused e => h.incoming.length < size ∧ h.broken = some (e, true)
  | .later _ (.error e) => h.incoming.length < size ∧ h.broken = some (e, false)

namespace UcxReceiver

/-- Nothing is posted, or both have been left by the same failure. -/
inductive Matches (s : UcxReceiver) (h : HandleUCX) : Prop
  | idle (hs : s.request = .null) (ho : s.owned = none) (hh : h.request = none) (hf : h.failed = false)
  | refused (e : UcsError) (size : Nat) (hs : s.request = .error e) (hh : h.request = some size)
      (hshort : h.incoming.length < size) (hb : h.broken = some (e, true)) (hf : h.failed = true)
  | freed (id : Nat) (e : UcsError) (size : Nat) (hs : s.request = .request id) (ho : s.owned = none)
      (hc : s.complete = true) (hh : h.request = some size) (hshort : h.incoming.length < size)
      (hb : h.broken = some (e, false)) (hf : h.failed = true)

/-- The other data members do not matter. -/
theorem Matches.congr {s s' : UcxReceiver} {h h' : HandleUCX} (hm : Matches s h) (hreq : s'.request = s.request)
    (howned : s'.owned = s.owned) (hcomplete : s'.complete = s.complete) (hreq' : h'.request = h.request)
    (hin : h'.incoming = h.incoming) (hbroken : h'.broken = h.broken) (hfailed : h'.failed = h.failed) :
    Matches s' h' := by
  cases hm with
  | idle hs ho hh hf => exact .idle (hreq.trans hs) (howned.trans ho) (hreq'.trans hh) (hfailed.trans hf)
  | refused e n hs hh hshort hb hf =>
    exact .refused e n (hreq.trans hs) (hreq'.trans hh) (hin ▸ hshort) (hbroken.trans hb) (hfailed.trans hf)
  | freed id e n hs ho hc hh hshort hb hf =>
    exact .freed id e n (hreq.trans hs) (howned.trans ho) (hcomplete.trans hc) (hreq'.trans hh) (hin ▸ hshort)
      (hbroken.trans hb) (hfailed.trans hf)

/-- The handle when the receive of its request has been completed. -/
def completed (s : UcxReceiver) (id : Nat) (toProbe : Bool) (result : Except UcsError Bytes) : UcxReceiver :=
  let s' := match result with
    | .ok bs => s.store toProbe bs
    | .error _ => s
  { s' with complete := true, owned := some (id, ⟨0, result, toProbe⟩) }

/-- The status of a completed receive. -/
def statusOf : Except UcsError Bytes → UcsStatus
  | .ok _ => .OK
  | .error e => .error e

variable {s : UcxReceiver} {h : HandleUCX} {id : Nat} {toProbe : Bool} {result : Except UcsError Bytes}

/-! ### Waiting -/

private theorem progress_last (ho : s.owned = some (id, ⟨0, result, toProbe⟩)) (hc : s.complete = false) :
    s.progress = s.completed id toProbe result := by
  unfold progress completed store
  rw [ho]
  dsimp only
  rw [if_neg (Bool.eq_false_iff.1 hc), if_pos rfl, ← ho]
  cases result with
  | ok bs => cases toProbe <;> rfl
  | error e => rfl

private theorem progress_later {left : Nat} (ho : s.owned = some (id, ⟨left + 1, result, toProbe⟩))
    (hc : s.complete = false) : s.progress = { s with owned := some (id, ⟨left, result, toProbe⟩) } := by
  unfold progress
  rw [ho]
  dsimp only
  rw [if_neg (Bool.eq_false_iff.1 hc), if_neg (Nat.succ_ne_zero left)]
  rfl

/-- The loop waits for the request. -/
theorem waitLoop_later {n left : Nat} (ho : s.owned = some (id, ⟨left, result, toProbe⟩)) (hc : s.complete = false)
    (hn : left < n) : waitLoop n s = .ok (s.completed id toProbe result) := by
  induction n generalizing s left with
  | zero => exact absurd hn (Nat.not_lt_zero left)
  | succ n ih =>
    rw [waitLoop, if_neg (Bool.eq_false_iff.1 hc)]
    cases left with
    | zero =>
      rw [progress_last ho hc]
      cases n with
      | zero => exact if_pos rfl
      | succ n => exact if_pos rfl
    | succ left =>
      have hrest := ih (s := { s with owned := some (id, ⟨left, result, toProbe⟩) }) rfl hc (Nat.lt_of_succ_lt_succ hn)
      rw [progress_later ho hc, hrest]
      unfold completed store
      cases result with
      | ok bs => cases toProbe <;> rfl
      | error e => rfl

/-- `request_wait` waits for the request, and frees it. -/
theorem requestWait_later {left : Nat} (hreq : s.request = .request id)
    (ho : s.owned = some (id, ⟨left, result, toProbe⟩)) (hc : s.complete = false) :
    s.requestWait true = .ok (statusOf result, { s.completed id toProbe result with owned := none }) := by
  have hloop : waitLoop s.turns s = .ok (s.completed id toProbe result) := by
    unfold turns
    rw [ho]
    exact waitLoop_later ho hc (Nat.lt_succ_self left)
  have hstatus : (s.completed id toProbe result).checkStatus id = .ok (statusOf result) := by
    unfold checkStatus completed
    dsimp only
    rw [if_pos rfl, if_pos rfl]
    cases result with
    | ok bs => rfl
    | error e => rfl
  have hfree : (s.completed id toProbe result).free id = .ok { s.completed id toProbe result with
      owned := none } := if_pos rfl
  unfold requestWait
  rw [hreq]
  dsimp only
  rw [if_pos rfl, if_neg (by simp), hloop, bind_ok, hstatus, bind_ok, hfree]
  rfl

/-! ### Receiving -/

/-- What a receive leaves that has got its bytes. -/
structure Took (s : UcxReceiver) (h : HandleUCX) (size : Nat) (toProbe : Bool) (s' : UcxReceiver) : Prop where
  request : h.request = none
  agree : Matches s' { h with incoming := h.incoming.drop size }
  lastProbe : s'.lastProbe = s.lastProbe
  posts : s'.posts = s.posts + 1
  answers : s'.answers = s.answers
  stored : if toProbe then s'.testProbe = Words.ofBE (h.incoming.take size) else s'.received = h.incoming.take size

/-- What a receive leaves that has failed. -/
structure Failed (s : UcxReceiver) (h : HandleUCX) (r : Ret) (s' : UcxReceiver) (h' : HandleUCX) : Prop where
  agree : Matches s' h'
  lastProbe : s'.lastProbe = s.lastProbe
  lastProbe' : h'.lastProbe = h.lastProbe
  received : s'.received = s.received
  result : ∀ n, r ≠ .ok (n + 1)

/-- Both receives get the bytes that come next, or both fail with the same result, or both meet a request that
has been freed. -/
inductive Receives (s : UcxReceiver) (h : HandleUCX) (size : Nat) (toProbe : Bool) : Prop
  | took (s' : UcxReceiver) (hs : s.receiveInternal size toProbe true = .ok (.ok size, s'))
      (hh : h.receiveInternal size true =
        .ok (.ok size, h.incoming.take size, { h with incoming := h.incoming.drop size }))
      (htook : Took s h size toProbe s')
  | failed (r : Ret) (s' : UcxReceiver) (h' : HandleUCX) (hs : s.receiveInternal size toProbe true = .ok (r, s'))
      (hh : h.receiveInternal size true = .ok (r, [], h')) (hfailed : Failed s h r s' h')
  | freed (hs : s.receiveInternal size toProbe true = .error .useAfterFree)
      (hh : h.receiveInternal size true = .error .useAfterFree)

private theorem receiveInternal_filled {size : Nat} (hreq : h.request = none) (hlen : size ≤ h.incoming.length) :
    h.receiveInternal size true = .ok (.ok size, h.incoming.take size,
      { h with incoming := h.incoming.drop size }) := by
  unfold HandleUCX.receiveInternal
  dsimp only
  rw [hreq, Option.getD_none, if_pos hlen]

private theorem receiveInternal_short {size : Nat} {e : UcsError} {pointer : Bool}
    (hshort : h.incoming.length < h.request.getD size) (hb : h.broken = some (e, pointer))
    (hfirst : ¬(h.failed && !pointer) = true) :
    h.receiveInternal size true = .ok (if e = .CONNECTION_RESET then .ok 0 else .error .EINVAL, [],
      { h with request := some (h.request.getD size), failed := true }) := by
  unfold HandleUCX.receiveInternal
  dsimp only
  rw [if_neg (Nat.not_le.2 hshort), hb]
  exact if_neg hfirst

/-- `receive_internal` by the request that it waits for. -/
private theorem receiveInternal_of {s0 s1 : UcxReceiver} {x : UcsStatus}
    (h0 : (if s.request = .null then s.post toProbe else s) = s0)
    (hwait : s0.requestWait true = .ok (x, s1)) (size : Nat) :
    s.receiveInternal size toProbe true = .ok (s1.conclude size x) := by
  unfold UcxReceiver.receiveInternal
  rw [h0]
  dsimp only
  rw [hwait]
  rfl

private theorem receives_idle (hs : s.request = .null) (ho : s.owned = none) (hh : h.request = none)
    (hf : h.failed = false) {size : Nat} (hans : (s.answers s.posts).From h size) (toProbe : Bool) :
    Receives s h size toProbe := by
  have hfirst : ∀ pointer, ¬(h.failed && !pointer) = true := fun pointer => by simp [hf]
  have hsize : h.request.getD size = size := by rw [hh, Option.getD_none]
  -- the handle behind the post
  let s0 : UcxReceiver := { s with complete := false, posts := s.posts + 1, failed := false }
  cases ha : s.answers s.posts with
  | done bs =>
    rw [ha] at hans
    obtain ⟨hlen, rfl⟩ := hans
    have hpost : (if s.request = .null then s.post toProbe else s) =
        { s0.store toProbe (h.incoming.take size) with request := .null } := by
      rw [if_pos hs, post, ha]
    have hcall := receiveInternal_of (x := .OK) hpost rfl size
    refine .took _ hcall (receiveInternal_filled hh hlen) ?_
    cases toProbe with
    | true => exact ⟨hh, .idle rfl ho hh hf, rfl, rfl, rfl, rfl⟩
    | false => exact ⟨hh, .idle rfl ho hh hf, rfl, rfl, rfl, rfl⟩
  | refused e =>
    rw [ha] at hans
    obtain ⟨hshort, hb⟩ := hans
    have hpost : (if s.request = .null then s.post toProbe else s) = { s0 with request := .error e } := by
      rw [if_pos hs, post, ha]
    have hcall := receiveInternal_of (x := .error e) hpost rfl size
    have hcall' := receiveInternal_short (hsize.symm ▸ hshort) hb (hfirst true)
    refine .failed _ _ _ hcall hcall' ⟨?_, rfl, rfl, rfl, conclude_error s size e⟩
    exact .refused e size rfl (congrArg some hsize) hshort hb rfl
  | later left result =>
    rw [ha] at hans
    have hpost : (if s.request = .null then s.post toProbe else s) =
        { s0 with request := .request s.posts, owned := some (s.posts, ⟨left, result, toProbe⟩) } := by
      rw [if_pos hs, post, ha]
    have hcall := receiveInternal_of hpost (requestWait_later rfl rfl rfl) size
    cases result with
    | ok bs =>
      obtain ⟨hlen, rfl⟩ := hans
      refine .took _ hcall (receiveInternal_filled hh hlen) ?_
      cases toProbe with
      | true => exact ⟨hh, .idle rfl rfl hh hf, rfl, rfl, rfl, rfl⟩
      | false => exact ⟨hh, .idle rfl rfl hh hf, rfl, rfl, rfl, rfl⟩
    | error e =>
      obtain ⟨hshort, hb⟩ := hans
      have hcall' := receiveInternal_short (hsize.symm ▸ hshort) hb (hfirst false)
      refine .failed _ _ _ hcall hcall' ⟨?_, rfl, rfl, rfl, conclude_error s size e⟩
      exact .freed s.posts e size rfl rfl rfl (congrArg some hsize) hshort hb rfl

/-- Every receive. -/
theorem receives (hm : Matches s h) {size : Nat} (hans : s.request = .null → (s.answers s.posts).From h size)
    (toProbe : Bool) : Receives s h size toProbe := by
  cases hm with
  | idle hs ho hh hf => exact receives_idle hs ho hh hf (hans hs) toProbe
  | refused e n hs hh hshort hb hf =>
    have hsame : (if s.request = .null then s.post toProbe else s) = s := if_neg (by simp [hs])
    have hwait : s.requestWait true = .ok (.error e, s) := by
      rw [requestWait, hs]
    have hn : h.request.getD size = n := by rw [hh, Option.getD_some]
    have hcall := receiveInternal_of hsame hwait size
    have hcall' := receiveInternal_short (hn.symm ▸ hshort) hb (by simp)
    refine .failed _ _ _ hcall hcall' ⟨?_, rfl, rfl, rfl, conclude_error s size e⟩
    exact .refused e n hs (congrArg some hn) hshort hb rfl
  | freed id e n hs ho hc hh hshort hb hf =>
    refine .freed ?_ ?_
    · unfold UcxReceiver.receiveInternal
      rw [if_neg (by simp [hs])]
      dsimp only
      rw [requestWait_freed hs ho hc]
      rfl
    · unfold HandleUCX.receiveInternal
      dsimp only
      rw [hh, Option.getD_some, if_neg (Nat.not_le.2 hshort), hb]
      exact if_pos (by simp [hf])

/-! ### The calls -/

/-- The same size in the cache. -/
structure Same (s : UcxReceiver) (h : HandleUCX) : Prop where
  agree : Matches s h
  lastProbe : s.lastProbe = h.lastProbe

/-- `receive` returns the same. -/
theorem receive_agrees (hsame : Same s h) {size : Nat} (hans : s.request = .null → (s.answers s.posts).From h size) :
    (∃ r bs s' h', s.receive size = .ok (r, bs, s') ∧ h.receive size = .ok (r, bs, h') ∧ Same s' h') ∨
      s.receive size = .error .useAfterFree ∧ h.receive size = .error .useAfterFree := by
  have hm : Matches { s with received := [] } h := hsame.agree.congr rfl rfl rfl rfl rfl rfl rfl
  unfold UcxReceiver.receive HandleUCX.receive
  cases receives hm hans false with
  | took s' hs hh htook =>
    left
    have hstored : s'.received = h.incoming.take size := htook.stored
    rw [hs, hh]
    refine ⟨_, _, _, { h with request := none, incoming := h.incoming.drop size, lastProbe := none }, rfl, ?_,
      htook.agree.congr rfl rfl rfl htook.request.symm rfl rfl rfl, rfl⟩
    rw [hstored, htook.request]
    rfl
  | failed r s' h' hs hh hfailed =>
    left
    rw [hs, hh]
    refine ⟨_, _, _, { h' with lastProbe := none }, rfl, ?_, hfailed.agree.congr rfl rfl rfl rfl rfl rfl rfl, rfl⟩
    rw [hfailed.received, bind_ok]
    dsimp only
    rw [ite_self]
    rfl
  | freed hs hh =>
    right
    rw [hs, hh]
    exact ⟨rfl, rfl⟩

/-- And so does a `probe` that waits, where the `int` of EOS is a receive of its own. -/
theorem probe_agrees (hsame : Same s h) (size : Nat)
    (hans : s.lastProbe = none → s.request = .null → (s.answers s.posts).From h sizeofSizeT)
    (heos : Words.ofBE (h.incoming.take sizeofSizeT) = 0 →
      (s.answers (s.posts + 1)).From { h with incoming := h.incoming.drop sizeofSizeT } sizeofInt) :
    (∃ r n s' h', s.probe size true = .ok (r, n, s') ∧ h.probe size true = .ok (r, n, h') ∧ Same s' h') ∨
      s.probe size true = .error .useAfterFree ∧ h.probe size true = .error .useAfterFree := by
  unfold UcxReceiver.probe HandleUCX.probe
  rw [← hsame.lastProbe]
  cases hl : s.lastProbe with
  | some n => exact Or.inl ⟨_, _, s, h, rfl, rfl, hsame⟩
  | none =>
    dsimp only
    cases receives hsame.agree (hans hl) true with
    | took s1 hs hh htook =>
      have hstored : s1.testProbe = Words.ofBE (h.incoming.take sizeofSizeT) := htook.stored
      rw [← hstored] at heos
      rw [hs, hh, bind_ok, bind_ok]
      dsimp only
      rw [← hstored]
      have hm : Matches { s1 with lastProbe := HandleUCX.probedSize s1.testProbe }
          { h with incoming := h.incoming.drop sizeofSizeT, lastProbe := HandleUCX.probedSize s1.testProbe } :=
        htook.agree.congr rfl rfl rfl rfl rfl rfl rfl
      by_cases h0 : s1.testProbe = 0
      · rw [if_pos h0, if_pos h0]
        have hans2 : (s1.answers s1.posts).From { h with
            incoming := h.incoming.drop sizeofSizeT, lastProbe := HandleUCX.probedSize s1.testProbe } sizeofInt := by
          rw [htook.answers, htook.posts]
          exact heos h0
        cases receives hm (fun _ => hans2) false with
        | took s2 hs2 hh2 htook2 =>
          left
          rw [hs2, hh2, bind_ok, bind_ok]
          exact ⟨_, _, _, _, rfl, congrArg (fun n => Except.ok (_, n, _)) h0, htook2.agree, htook2.lastProbe⟩
        | failed r s2 h2 hs2 hh2 hfailed =>
          left
          rw [hs2, hh2, bind_ok, bind_ok]
          exact ⟨_, _, _, _, rfl, congrArg (fun n => Except.ok (_, n, _)) h0, hfailed.agree,
            hfailed.lastProbe.trans hfailed.lastProbe'.symm⟩
        | freed hs2 hh2 =>
          right
          rw [hs2, hh2]
          exact ⟨rfl, rfl⟩
      · rw [if_neg h0, if_neg h0]
        exact Or.inl ⟨_, _, _, _, rfl, rfl, hm, rfl⟩
    | failed r s1 h1 hs hh hfailed =>
      left
      have hcache : Same s1 h1 :=
        ⟨hfailed.agree, hfailed.lastProbe.trans (hsame.lastProbe.trans hfailed.lastProbe'.symm)⟩
      rw [hs, hh, bind_ok, bind_ok]
      rcases r with e | _ | n
      · exact ⟨_, _, _, _, rfl, rfl, hcache⟩
      · exact ⟨_, _, _, _, rfl, rfl, hcache⟩
      · exact absurd rfl (hfailed.result n)
    | freed hs hh =>
      right
      rw [hs, hh]
      exact ⟨rfl, rfl⟩

end UcxReceiver

end Mtcl
