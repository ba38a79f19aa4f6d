import Mtcl.MqttReader

/-!
# Calls that are not interrupted

The reader of a handle over a broker cuts the calls of `HandleUser` into their steps.  `probe_run` and
`receive_run` say that a call that returns is a run of its start and of such steps, when nothing comes between
them: its answer is what the call returns, and the handle is left as the call leaves it.
-/

namespace Mtcl

open Runs

namespace HandleMQTT

/-- `probe` fails only when it does not wait. -/
theorem probe_result {garbage : Nat → UInt8} {h h' : HandleMQTT} {size size' : Nat} {blocking : Bool} {r : Ret}
    (hprobe : h.probe garbage size blocking = .ok (r, size', h')) :
    r = .ok sizeofSizeT ∨ r = .error .EWOULDBLOCK ∧ blocking = false := by
  unfold probe at hprobe
  split at hprobe
  · split at hprobe
    · cases hprobe
    · obtain ⟨bs, -, hprobe⟩ := bind_eq_ok.1 hprobe
      cases hprobe
      exact Or.inl rfl
  · split at hprobe
    · obtain ⟨x, -, hprobe⟩ := bind_eq_ok.1 hprobe
      cases hprobe
      exact Or.inl rfl
    · rename_i hwait
      split at hprobe
      · cases hprobe
        exact Or.inr ⟨rfl, Bool.eq_false_iff.2 hwait⟩
      · obtain ⟨bs, -, hprobe⟩ := bind_eq_ok.1 hprobe
        cases hprobe
        exact Or.inl rfl

theorem base_eq {g : Nat → UInt8} {h : HandleMQTT} {b : CommBase} (hcall : (mqttHandle g).base h = .ok b) :
    b = h.toCommBase :=
  (Except.ok.inj (of_deref (f := fun h => .ok h.toCommBase) hcall)).symm

theorem probe_eq {g : Nat → UInt8} {h : HandleMQTT} {size : Nat} {blocking : Bool} {x : Ret × Nat × HandleMQTT}
    (hcall : (mqttHandle g).probe size blocking h = .ok x) : h.probe g size blocking = .ok x := of_deref hcall

theorem receive_eq {g : Nat → UInt8} {h : HandleMQTT} {n : Nat} {x : Ret × Bytes × HandleMQTT}
    (hcall : (mqttHandle g).receive n h = .ok x) : h.receive n = .ok x := of_deref hcall

theorem close_eq {g : Nat → UInt8} {h h' : HandleMQTT} {wr rd : Bool} (hcall : (mqttHandle g).close wr rd h = .ok h') :
    h' = h.close wr rd :=
  (Except.ok.inj (of_deref (f := fun h => .ok (h.close wr rd)) hcall)).symm

end HandleMQTT

namespace MqttReader

variable {g : Nat → UInt8} {s : MqttReader}

/-- The steps that follow the start of a call, until one of them answers. -/
inductive Finishes (g : Nat → UInt8) : Option MqttAnswer × MqttReader → MqttAnswer → MqttReader → Prop
  | done {a : MqttAnswer} {s : MqttReader} : Finishes g (some a, s) a s
  | turn {s : MqttReader} {y : Option MqttAnswer × MqttReader} {a : MqttAnswer} {s' : MqttReader}
      (hturn : step g .poll s = .ok y) (hrest : Finishes g y a s') : Finishes g (none, s) a s'

/-- The run that they are. -/
theorem Finishes.run {y : Option MqttAnswer × MqttReader} {a : MqttAnswer} {s' : MqttReader} (h : Finishes g y a s') :
    ∃ n, ∀ {o s}, step g o s = .ok y →
      Runs.run (step g) (o :: List.replicate n .poll) s = .ok (List.replicate n none ++ [some a], s') := by
  induction h with
  | done => exact ⟨0, fun hstep => run_cons hstep rfl⟩
  | turn hturn _ ih =>
    obtain ⟨n, hrun⟩ := ih
    exact ⟨n + 1, fun hstep => run_cons hstep (hrun hturn)⟩

theorem step_poll {c : Ongoing} (hcall : s.call = some c) : step g .poll s = s.turn g c := by
  rw [step, hcall]

/-- A step of `receive` without a result. -/
theorem turn_inr {x : Waits} {p p' : Point} {h' : HandleMQTT}
    (hstep : s.handle.receiveStep x.size p = .ok (.inr p', h')) :
    s.turn g (.receive x p) = .ok (none, { s with handle := h', call := some (.receive x p') }) := by
  rw [turn, hstep]
  rfl

/-- A step of `receive` with a result. -/
theorem turn_inl {x : Waits} {p : Point} {h' : HandleMQTT} {n : Nat} {bs : Bytes}
    (hstep : s.handle.receiveStep x.size p = .ok (.inl (n, bs), h')) :
    s.turn g (.receive x p) = .ok (({ s with handle := h' } : MqttReader).finish g n bs x) := by
  rw [turn, hstep]
  rfl

/-- `receive` takes the messages of the client until one is of its topic. -/
theorem take_finishes {x : Waits} (hcall : s.call = some (.receive x .take)) (hm : s.handle.messages = [])
    {bs : Bytes} {client : List (Bytes × Bytes)}
    (h : HandleMQTT.receiveLoop s.handle.inTopic x.size s.handle.client = .ok (bs, client))
    {a : MqttAnswer} {s' : MqttReader} (hrest : Finishes g
      (({ s with handle := { s.handle with client := client } } : MqttReader).finish g x.size bs x) a s') :
    Finishes g (none, s) a s' := by
  induction hc : s.handle.client generalizing s with
  | nil =>
    rw [hc] at h
    cases h
  | cons y rest ih =>
    obtain ⟨topic, payload⟩ := y
    rw [hc, HandleMQTT.receiveLoop] at h
    by_cases htopic : topic = s.handle.inTopic
    · rw [if_pos htopic] at h
      obtain ⟨bs', hcopy, h⟩ := bind_eq_ok.1 h
      obtain ⟨rfl, rfl⟩ := Prod.mk.inj (Except.ok.inj h)
      have hstep : s.handle.receiveStep x.size .take = .ok (.inl (x.size, bs'), { s.handle with client := rest }) := by
        unfold HandleMQTT.receiveStep
        rw [hc]
        dsimp only
        rw [if_pos htopic, hcopy]
        rfl
      exact .turn ((step_poll hcall).trans (turn_inl hstep)) hrest
    · rw [if_neg htopic] at h
      have hstep : s.handle.receiveStep x.size .take = .ok (.inr .look, { s.handle with client := rest }) := by
        unfold HandleMQTT.receiveStep
        rw [hc]
        dsimp only
        rw [if_neg htopic]
      -- the message of another topic is dropped, and the call looks into `messages` again
      let s1 : MqttReader := { s with handle := { s.handle with client := rest }, call := some (.receive x .look) }
      let s2 : MqttReader := { s with handle := { s.handle with client := rest }, call := some (.receive x .take) }
      have hlook : step g .poll s1 = .ok (none, s2) :=
        (step_poll rfl).trans (turn_inr (HandleMQTT.look_empty (h := s1.handle) hm _))
      have hnext : Finishes g (none, s2) a s' := by
        refine ih (s := s2) rfl hm h ?_ rfl
        cases x <;> exact hrest
      exact .turn ((step_poll hcall).trans (turn_inr hstep)) (.turn hlook hnext)

/-- The steps of `receive`. -/
theorem receive_steps {x : Waits} (hcall : s.call = some (.receive x .reset)) {r : Ret} {bs : Bytes} {h' : HandleMQTT}
    (h : s.handle.receive x.size = .ok (r, bs, h')) :
    ∃ n, r = .ok n ∧ ∀ {a s'}, Finishes g (({ s with handle := h' } : MqttReader).finish g n bs x) a s' →
      Finishes g (none, s) a s' := by
  let s1 : MqttReader := { s with handle := { s.handle with isProbed := false }, call := some (.receive x .look) }
  have hreset : step g .poll s = .ok (none, s1) := (step_poll hcall).trans (turn_inr rfl)
  unfold HandleMQTT.receive at h
  dsimp only at h
  split at h
  · rename_i m ms hm
    split at h
    · cases h
    · rename_i hlen
      cases h
      have hstep : s1.handle.receiveStep x.size .look =
          .ok (.inl (bs.length, bs), { s1.handle with messages := ms }) := by
        unfold HandleMQTT.receiveStep
        rw [show s1.handle.messages = bs :: ms from hm]
        exact if_neg hlen
      refine ⟨bs.length, rfl, fun hrest => .turn hreset (.turn ((step_poll rfl).trans (turn_inl hstep)) ?_)⟩
      cases x <;> exact hrest
  · rename_i hm
    obtain ⟨⟨bs', client⟩, hloop, h⟩ := bind_eq_ok.1 h
    cases h
    let s2 : MqttReader := { s1 with call := some (.receive x .take) }
    have hlook : step g .poll s1 = .ok (none, s2) :=
      (step_poll rfl).trans (turn_inr (HandleMQTT.look_empty (h := s1.handle) hm _))
    refine ⟨x.size, rfl, fun hrest => .turn hreset (.turn hlook (take_finishes (s := s2) rfl hm hloop ?_))⟩
    cases x <;> exact hrest

/-- The steps of `HandleMQTT::probe`, when it returns a header. -/
theorem header_finishes {cap : Option Nat} {blocking : Bool} (hcall : s.call = some (.test cap blocking)) {n size : Nat}
    {h1 : HandleMQTT} (h : s.handle.probe g 0 blocking = .ok (.ok n, size, h1)) {a : MqttAnswer} {s' : MqttReader}
    (hrest : Finishes g (({ s with handle := h1 } : MqttReader).headerRead cap size) a s') :
    Finishes g (none, s) a s' := by
  unfold HandleMQTT.probe at h
  by_cases hflag : s.handle.isProbed = true
  · rw [if_pos hflag] at h
    cases hm : s.handle.messages with
    | nil =>
      rw [hm] at h
      cases h
    | cons m ms =>
      rw [hm] at h
      obtain ⟨bs, hcopy, h⟩ := bind_eq_ok.1 h
      cases h
      refine .turn ((step_poll hcall).trans ?_) hrest
      rw [turn, if_pos hflag, hm]
      dsimp only
      rw [hcopy]
      rfl
  · rw [if_neg hflag] at h
    cases blocking with
    | true =>
      let s1 : MqttReader := { s with call := some (.receive (.header cap) .reset) }
      have htest : step g .poll s = .ok (none, s1) := by
        rw [step_poll hcall, turn, if_neg hflag]
        rfl
      rw [if_pos rfl] at h
      obtain ⟨⟨r, bs, h2⟩, hreceive, h⟩ := bind_eq_ok.1 h
      cases h
      obtain ⟨k, -, hgo⟩ := receive_steps (g := g) (s := s1) rfl hreceive
      exact .turn htest (hgo hrest)
    | false =>
      let s1 : MqttReader := { s with call := some (.attempt cap) }
      have htest : step g .poll s = .ok (none, s1) := by
        rw [step_poll hcall, turn, if_neg hflag]
        rfl
      rw [if_neg Bool.false_ne_true] at h
      cases hc : s.handle.client with
      | nil =>
        rw [hc] at h
        cases h
      | cons y client =>
        rw [hc] at h
        obtain ⟨bs, hcopy, h⟩ := bind_eq_ok.1 h
        cases h
        refine .turn htest (.turn ((step_poll rfl).trans ?_) hrest)
        rw [turn, show s1.handle.client = y :: client from hc]
        dsimp only
        rw [hcopy]
        rfl

/-- And when there is none. -/
theorem attempt_finishes {cap : Option Nat} {blocking : Bool} (hcall : s.call = some (.test cap blocking))
    {e : Errno} {size : Nat} {h1 : HandleMQTT} (h : s.handle.probe g 0 blocking = .ok (.error e, size, h1)) :
    Finishes g (none, s) (.probed (.error e) size) { s with handle := h1, call := none } := by
  unfold HandleMQTT.probe at h
  by_cases hflag : s.handle.isProbed = true
  · rw [if_pos hflag] at h
    split at h
    · cases h
    · obtain ⟨bs, -, h⟩ := bind_eq_ok.1 h
      cases h
  · rw [if_neg hflag] at h
    cases blocking with
    | true =>
      obtain ⟨x, -, h⟩ := bind_eq_ok.1 h
      cases h
    | false =>
      rw [if_neg Bool.false_ne_true] at h
      cases hc : s.handle.client with
      | cons y client =>
        rw [hc] at h
        obtain ⟨bs, -, h⟩ := bind_eq_ok.1 h
        cases h
      | nil =>
        rw [hc] at h
        cases h
        let s1 : MqttReader := { s with call := some (.attempt cap) }
        have htest : step g .poll s = .ok (none, s1) := by
          rw [step_poll hcall, turn, if_neg hflag]
          rfl
        refine .turn htest (.turn ((step_poll rfl).trans ?_) .done)
        rw [turn, show s1.handle.client = [] from hc]

/-- The end of a `receive` that has room for the message. -/
theorem payload_finishes {cap size : Nat} (hprobed : s.handle.probed = (true, size)) (hcap : size ≤ cap)
    {r : Ret} {bs : Bytes} {h1 : HandleMQTT}
    (h : ({ s.handle with probed := (false, 0) } : HandleMQTT).receive size = .ok (r, bs, h1)) :
    ∃ s', Finishes g (s.startPayload cap) (.received r bs) s' ∧ s'.handle = h1 ∧ s'.call = none := by
  unfold startPayload
  rw [hprobed]
  dsimp only
  rw [if_neg (Nat.not_lt.2 hcap), Nat.min_eq_left hcap]
  obtain ⟨n, rfl, hgo⟩ := receive_steps (g := g)
    (s := { s with handle := { s.handle with
      probed := (false, 0) }, call := some (.receive (.payload size) .reset) }) rfl h
  exact ⟨{ s with handle := h1, call := none, unread := s.unread.tail }, hgo .done, rfl, rfl⟩

/-- What `HandleUser::receive` returns, in an answer. -/
def Returns (a : MqttAnswer) (cap : Nat) (r : Ret) (bs : Bytes) : Prop :=
  a = .received r bs ∨ a = .noRoom cap ∧ r = .error .ENOMEM ∧ bs = []

variable {u u' : HandleUser Unit} {r : Ret} {bs : Bytes} {h' : HandleMQTT}

/-- The end of `HandleUser::receive`. -/
theorem receiveProbed_finishes {cap size : Nat} (hprobed : s.handle.probed = (true, size)) (hcall : s.call = none)
    (h : u.receiveProbed (fun _ => mqttHandle g) cap s.handle = .ok (r, bs, u', h')) :
    ∃ a s', Finishes g (s.startPayload cap) a s' ∧ Returns a cap r bs ∧ s'.handle = h' ∧ s'.call = none := by
  obtain ⟨-, id, b, -, hbase, h⟩ := HandleUser.receiveProbed_cases h
  obtain rfl := HandleMQTT.base_eq hbase
  rw [hprobed] at h
  rcases h with ⟨hsize, rfl, rfl, rfl⟩ | ⟨hsize, h⟩
  · refine ⟨.noRoom cap, s, ?_, Or.inr ⟨rfl, rfl, rfl⟩, rfl, hcall⟩
    unfold startPayload
    rw [hprobed]
    dsimp only
    rw [if_pos hsize]
    exact .done
  · obtain ⟨s', hfinish, hhandle, hnone⟩ := payload_finishes (g := g) hprobed hsize (HandleMQTT.receive_eq h)
    exact ⟨_, s', hfinish, Or.inl rfl, hhandle, hnone⟩

/-- `HandleUser::probe` is the start of a call, and the steps that follow it. -/
theorem probe_finishes (hread : u.isReadable = true) (hnone : s.call = none) {blocking : Bool} {size : Nat}
    (h : u.probe (fun _ => mqttHandle g) 0 blocking s.handle = .ok (r, size, u', h')) :
    ∃ s', Finishes g (s.startProbe blocking) (.probed r size) s' ∧ s'.handle = h' ∧ s'.call = none := by
  obtain ⟨id, b, -, -, hbase, h⟩ := HandleUser.probe_cases h
  obtain rfl := HandleMQTT.base_eq hbase
  unfold startProbe
  rcases h with ⟨rfl, -, ⟨hprobed, rfl, rfl⟩ | ⟨hprobed, hclosed, rfl, rfl⟩⟩ | ⟨hprobed, -, hrd, -, r0, h0, hcall, hout⟩
  · rw [if_pos hprobed]
    exact ⟨s, .done, rfl, hnone⟩
  · rw [if_neg (Bool.eq_false_iff.1 hprobed), if_pos (hclosed.resolve_left fun e => by simp [hread] at e)]
    exact ⟨s, .done, rfl, hnone⟩
  · rw [if_neg (Bool.eq_false_iff.1 hprobed), if_neg (Bool.eq_false_iff.1 hrd)]
    have hcall := HandleMQTT.probe_eq hcall
    have hresult := HandleMQTT.probe_result hcall
    let s1 : MqttReader := { s with call := some (.test none blocking) }
    cases hout with
    | closed hr => rcases hr with rfl | rfl <;> simp at hresult
    | failed he =>
      obtain ⟨-, rfl⟩ := hresult.resolve_left nofun
      exact ⟨_, attempt_finishes (s := s1) rfl hcall, rfl, rfl⟩
    | eos hsize hclose =>
      subst hsize
      obtain rfl := HandleMQTT.close_eq hclose
      exact ⟨_, header_finishes (s := s1) rfl hcall .done, rfl, rfl⟩
    | header hsize =>
      have hlast : Finishes g (({ s1 with handle := h0 } : MqttReader).headerRead none size)
        (.probed (.ok sizeofSizeT) size)
          { s with handle := { h0 with probed := (true, size) }, call := none } := by
        unfold headerRead
        dsimp only
        rw [if_neg hsize]
        exact .done
      rw [hresult.resolve_right nofun]
      exact ⟨_, header_finishes (s := s1) rfl hcall hlast, rfl, rfl⟩

/-- `HandleUser::receive` as well. -/
theorem receive_finishes (hread : u.isReadable = true) (hnone : s.call = none) {cap : Nat}
    (h : u.receive (fun _ => mqttHandle g) cap s.handle = .ok (r, bs, u', h')) :
    ∃ a s', Finishes g (s.startReceive cap) a s' ∧ Returns a cap r bs ∧ s'.handle = h' ∧ s'.call = none := by
  obtain ⟨id, b, -, hbase, h⟩ := HandleUser.receive_cases h
  obtain rfl := HandleMQTT.base_eq hbase
  have hclosed_of : u.isReadable = false ∨ s.handle.closedRd = true → s.handle.closedRd = true := fun h =>
    h.resolve_left fun e => Bool.false_ne_true (e.symm.trans hread)
  unfold startReceive
  rcases h with ⟨hprobed, hclosed, rfl, rfl, -, rfl⟩ | ⟨hprobed, -, hrd, h⟩ | ⟨hprobed, r0, size, u0, h1, hprobe, h⟩
  · rw [if_pos hprobed, if_pos (hclosed_of hclosed)]
    exact ⟨_, s, .done, Or.inl rfl, rfl, hnone⟩
  · rw [if_pos hprobed, if_neg (Bool.eq_false_iff.1 hrd)]
    have hsize : s.handle.probed = (true, s.handle.probed.2) := Prod.ext hprobed rfl
    exact receiveProbed_finishes hsize hnone h
  · rw [if_neg (Bool.eq_false_iff.1 hprobed)]
    obtain ⟨id, b, -, -, hbase, hprobe⟩ := HandleUser.probe_cases hprobe
    obtain rfl := HandleMQTT.base_eq hbase
    rcases hprobe with ⟨rfl, -, ⟨hprobed', -⟩ | ⟨-, hclosed, -, rfl⟩⟩ | ⟨-, -, hrd, -, r1, h0, hcall, hout⟩
    · cases hprobed'.symm.trans hprobed
    · obtain ⟨-, rfl, rfl, -, rfl⟩ := h.resolve_right fun h => nomatch h.1
      rw [if_pos (hclosed_of hclosed)]
      exact ⟨_, s, .done, Or.inl rfl, rfl, hnone⟩
    · rw [if_neg (Bool.eq_false_iff.1 hrd)]
      have hcall := HandleMQTT.probe_eq hcall
      have hresult := (HandleMQTT.probe_result hcall).resolve_right fun h => nomatch h.2
      let s1 : MqttReader := { s with call := some (.test (some cap) true) }
      cases hout with
      | closed hr => rcases hr with rfl | rfl <;> cases hresult
      | failed he => cases hresult
      | eos hsize hclose =>
        subst hsize
        obtain ⟨-, rfl, rfl, -, rfl⟩ := h.resolve_right fun h => nomatch h.1
        obtain rfl := HandleMQTT.close_eq hclose
        exact ⟨_, _, header_finishes (s := s1) rfl hcall .done, Or.inl rfl, rfl, rfl⟩
      | header hsize =>
        obtain ⟨-, h⟩ := h.resolve_left fun h => h.1 _ rfl
        obtain ⟨a, s', hlast, hreturns⟩ := receiveProbed_finishes
          (s := { s with handle := { h0 with probed := (true, size) }, call := none }) rfl rfl h
        have hheader : ({ s1 with handle := h0 } : MqttReader).headerRead (some cap) size =
            ({ s with handle := { h0 with probed := (true, size) }, call := none } : MqttReader).startPayload
              cap := if_neg hsize
        rw [← hheader] at hlast
        exact ⟨a, s', header_finishes (s := s1) rfl hcall hlast, hreturns⟩

/-- A `probe` that returns is a run of its start and of steps, the last of which answers. -/
theorem probe_run (hread : u.isReadable = true) (hnone : s.call = none) {blocking : Bool} {size : Nat}
    (h : u.probe (fun _ => mqttHandle g) 0 blocking s.handle = .ok (r, size, u', h')) :
    ∃ n s', Runs.run (step g) (.probe blocking :: List.replicate n .poll) s =
        .ok (List.replicate n none ++ [some (.probed r size)], s') ∧ s'.handle = h' ∧ s'.call = none := by
  obtain ⟨s', hfinish, hend⟩ := probe_finishes hread hnone h
  obtain ⟨n, hrun⟩ := hfinish.run
  exact ⟨n, s', hrun (if_pos hnone), hend⟩

/-- And so is a `receive`. -/
theorem receive_run (hread : u.isReadable = true) (hnone : s.call = none) {cap : Nat}
    (h : u.receive (fun _ => mqttHandle g) cap s.handle = .ok (r, bs, u', h')) :
    ∃ n a s', Runs.run (step g) (.receive cap :: List.replicate n .poll) s =
      .ok (List.replicate n none ++ [some a], s') ∧ Returns a cap r bs ∧ s'.handle = h' ∧ s'.call = none := by
  obtain ⟨a, s', hfinish, hreturns, hend⟩ := receive_finishes hread hnone h
  obtain ⟨n, hrun⟩ := hfinish.run
  exact ⟨n, a, s', hrun (if_pos hnone), hreturns, hend⟩

end MqttReader

end Mtcl
