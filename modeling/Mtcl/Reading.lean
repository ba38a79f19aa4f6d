import Mtcl.Base.Runs
import Mtcl.Base.Sources
import Mtcl.Handle

/-!
# Messages through a handle

`HandleUser.sends` is the application that sends messages, and `run_sends` what it has put out when each of them has
gone out whole.

`Reads h src I` says that the virtual functions of a handle bring the messages of a source: a blocking `probe`
finds the size of the next one, or the size zero that stands for the end, and `receive` then finds its bytes.
Every transport, and every collective, whose root reads through the same functions, is an instance.
`Furnishes stop h src I Waits` allows besides that they stop in the phases of `Waits`; with `Hears` they wait
there for ever: a stream that has arrived in part is heard, and one that arrives is read.

`ask_step` says that on such a handle `HandleUser::probe` and `HandleUser::receive` are the reader of the source, and
`run_asks` carries this over to any sequence of calls; `attempt_step` is the same for calls of which some do not wait.
-/

namespace Mtcl

open Sources

variable {H W σ : Type}

/-! ### Sending -/

/-- The calls of `HandleUser::send` for some messages, one after the other. -/
def HandleUser.sends (vt : H → CommunicationHandle W) :
    List Bytes → HandleUser H × W → Except Stop (List Ret × (HandleUser H × W)) :=
  Runs.run fun m s => (s.1.send vt m s.2).map fun r => (r.1, r.2)

/-- The calls of `HandleUser::send` for some messages, followed or not by `HandleUser::close`. -/
def HandleUser.sendAll (vt : H → CommunicationHandle W) (closed : Bool) (ms : List Bytes) (s : HandleUser H × W) :
    Except Stop (List Ret × W) := do
  let (rs, u, w) ← HandleUser.sends vt ms s
  let w ← (if closed then u.close vt w else .ok w)
  return (rs, w)

/-- A call, and then the others. -/
theorem HandleUser.sends_cons {vt : H → CommunicationHandle W} {u u' : HandleUser H} {w w' : W} {m : Bytes} {r : Ret}
    (h : u.send vt m w = .ok (r, u', w')) {ms : List Bytes} {rs : List Ret} {s : HandleUser H × W}
    (hs : HandleUser.sends vt ms (u', w') = .ok (rs, s)) : HandleUser.sends vt (m :: ms) (u, w) = .ok (r :: rs, s) := by
  unfold HandleUser.sends at hs ⊢
  rw [Runs.run]
  dsimp only
  rw [h]
  change (Runs.run _ ms (u', w') >>= fun x => .ok (r :: x.1, x.2)) = _
  rw [hs]
  rfl

/-- The first call of a sequence that has come to its end, and the others. -/
theorem HandleUser.sends_cons_eq_ok {vt : H → CommunicationHandle W} {u : HandleUser H} {w : W} {m : Bytes}
    {ms : List Bytes} {rs : List Ret} {s : HandleUser H × W} (h : HandleUser.sends vt (m :: ms) (u, w) = .ok (rs, s)) :
    ∃ r u' w' rs', u.send vt m w = .ok (r, u', w') ∧ HandleUser.sends vt ms (u', w') = .ok (rs', s) ∧
      rs = r :: rs' := by
  obtain ⟨r, ⟨u', w'⟩, rs', hcall, hrest, he⟩ := Runs.run_cons_eq_ok h
  refine ⟨r, u', w', rs', ?_, hrest, he⟩
  rcases hsend : u.send vt m w with st | ⟨r1, u1, w1⟩
  · rw [hsend] at hcall
    cases hcall
  · rw [hsend] at hcall
    cases hcall
    rfl

/-- If every send is successful and puts out its message, then so do all of them, in order. -/
theorem run_sends {γ : Type} {vt : H → CommunicationHandle W} {J : HandleUser H × W → Prop} {out : W → List γ}
    {enc : Bytes → List γ}
    (hstep : ∀ {u w}, J (u, w) → ∀ m, ∃ u' w', u.send vt m w = .ok (.ok m.length, u', w') ∧ J (u', w') ∧
      out w' = out w ++ enc m)
    {u : HandleUser H} {w : W} (h : J (u, w)) (ms : List Bytes) :
    ∃ u' w', HandleUser.sends vt ms (u, w) = .ok (ms.map fun m => .ok m.length, (u', w')) ∧ J (u', w') ∧
      out w' = out w ++ ms.flatMap enc := by
  induction ms generalizing u w with
  | nil => exact ⟨u, w, rfl, h, by simp⟩
  | cons m ms ih =>
    obtain ⟨u1, w1, h1, hJ1, hout1⟩ := hstep h m
    obtain ⟨u2, w2, h2, hJ2, hout2⟩ := ih hJ1
    refine ⟨u2, w2, HandleUser.sends_cons h1 h2, hJ2, ?_⟩
    rw [hout2, hout1, List.append_assoc, List.flatMap_cons]

/-! ### Reading -/

/-- The virtual functions of the handle bring the messages of the source; `I` says what the world is like in
each phase of the reader. -/
structure Reads (h : CommunicationHandle W) (src : Source σ Bytes) (I : Phase σ Bytes → W → Prop) : Prop where
  idle : ∀ {s w}, I (.idle s) w → ∃ b, h.base w = .ok b ∧ b.probed.1 = false ∧ b.closedRd = false
  opened : ∀ {m s w}, I (.opened m s) w →
    m ≠ [] ∧ ∃ b, h.base w = .ok b ∧ b.probed = (true, m.length) ∧ b.closedRd = false
  ended : ∀ {s w}, I (.ended s) w → ∃ b, h.base w = .ok b ∧ b.probed = (true, 0) ∧ b.closedRd = true
  probe : ∀ {s w}, I (.idle s) w → ∀ size,
    (∃ m s' w', src.next s m s' ∧ h.probe size true w = .ok (.ok sizeofSizeT, m.length, w') ∧
        I (.opened m s') (h.setProbed (true, m.length) w')) ∨
      (src.finished s ∧ ∃ w' w'', h.probe size true w = .ok (.ok sizeofSizeT, 0, w') ∧
        h.close false true (h.setProbed (true, 0) w') = .ok w'' ∧ I (.ended s) w'') ∨
      ¬ src.finished s ∧ (∀ m s', ¬ src.next s m s') ∧ h.probe size true w = .error .blocked
  receive : ∀ {m s w}, I (.opened m s) w →
    ∃ w', h.receive m.length (h.setProbed (false, 0) w) = .ok (.ok m.length, m, w') ∧ I (.idle s) w'

/-- What the result of `HandleUser::probe` tells the application. -/
def probeAnswer : Ret → Nat → Option (Answer Bytes)
  | .ok 0, _ => some .finished
  | .ok (_ + 1), size => some (.size size)
  | .error _, _ => none

/-- What the result of `HandleUser::receive` tells the application; a result that is not the number of the bytes
written is no message. -/
def receiveAnswer : Ret → Bytes → Option (Answer Bytes)
  | .ok 0, _ => some .finished
  | .ok (n + 1), bs => if bs.length = n + 1 then some (.message bs) else none
  | .error .ENOMEM, _ => some .noRoom
  | .error _, _ => none

/-- A blocking call of an application that owns a handle. -/
def HandleUser.ask (vt : H → CommunicationHandle W) (size : Nat) :
    Request → HandleUser H × W → Except Stop (Option (Answer Bytes) × (HandleUser H × W))
  | .probe, (u, w) => do
    let (r, size, u, w) ← u.probe vt size true w
    return (probeAnswer r size, (u, w))
  | .receive cap, (u, w) => do
    let (r, bs, u, w) ← u.receive vt cap w
    return (receiveAnswer r bs, (u, w))

theorem ask_keeps {vt : H → CommunicationHandle W} {I : W → Prop} (hk : ∀ h, (vt h).Keeps I) {size : Nat} {r : Request}
    {s s' : HandleUser H × W} {a : Option (Answer Bytes)} (hs : I s.2) (h : HandleUser.ask vt size r s = .ok (a, s')) :
    I s'.2 := by
  cases r with
  | probe =>
    obtain ⟨⟨r, n, u, w⟩, h1, h⟩ := bind_eq_ok.1 h
    cases h
    exact HandleUser.probe_keeps hk hs h1
  | receive cap =>
    obtain ⟨⟨r, bs, u, w⟩, h1, h⟩ := bind_eq_ok.1 h
    cases h
    exact HandleUser.receive_keeps hk hs h1

/-- The application owns the handle, which it may read until the end. -/
def Owns (I : Phase σ Bytes → W → Prop) (id : H) (ph : Phase σ Bytes) (s : HandleUser H × W) : Prop :=
  s.1.realHandle = some id ∧ I ph s.2 ∧ ((∀ x, ph ≠ .ended x) → s.1.isReadable = true)

/-- The reader waits for a message that never comes. -/
def Stuck (src : Source σ Bytes) (ph : Phase σ Bytes) : Prop :=
  ∃ s, ph = .idle s ∧ ¬ src.finished s ∧ ∀ m s', ¬ src.next s m s'

/-- The virtual functions of the handle bring the messages of the source, or stop in the phases of `Waits`. -/
structure Furnishes (stop : Stop) (h : CommunicationHandle W) (src : Source σ Bytes) (I : Phase σ Bytes → W → Prop)
    (Waits : Phase σ Bytes → Prop) : Prop where
  idle : ∀ {s w}, I (.idle s) w → ∃ b, h.base w = .ok b ∧ b.probed.1 = false ∧ b.closedRd = false
  opened : ∀ {m s w}, I (.opened m s) w →
    m ≠ [] ∧ ∃ b, h.base w = .ok b ∧ b.probed = (true, m.length) ∧ b.closedRd = false
  ended : ∀ {s w}, I (.ended s) w → ∃ b, h.base w = .ok b ∧ b.probed = (true, 0) ∧ b.closedRd = true
  probe : ∀ {s w}, I (.idle s) w → ∀ size,
    (∃ m s' w', src.next s m s' ∧ h.probe size true w = .ok (.ok sizeofSizeT, m.length, w') ∧
        I (.opened m s') (h.setProbed (true, m.length) w')) ∨
      (src.finished s ∧ ∃ w' w'', h.probe size true w = .ok (.ok sizeofSizeT, 0, w') ∧
        h.close false true (h.setProbed (true, 0) w') = .ok w'' ∧ I (.ended s) w'') ∨
      Waits (.idle s) ∧ h.probe size true w = .error stop
  receive : ∀ {m s w}, I (.opened m s) w →
    (∃ w', h.receive m.length (h.setProbed (false, 0) w) = .ok (.ok m.length, m, w') ∧ I (.idle s) w') ∨
      Waits (.opened m s) ∧ h.receive m.length (h.setProbed (false, 0) w) = .error stop

/-- The virtual functions of the handle bring the messages of the source, or wait for ever. -/
abbrev Hears (h : CommunicationHandle W) (src : Source σ Bytes) (I : Phase σ Bytes → W → Prop)
    (Waits : Phase σ Bytes → Prop) : Prop := Furnishes .blocked h src I Waits

section

variable {h : CommunicationHandle W} {src : Source σ Bytes} {I : Phase σ Bytes → W → Prop}

/-- What is read is heard: it waits only for a message that never comes. -/
theorem Reads.hears (hr : Reads h src I) : Hears h src I (Stuck src) where
  idle := hr.idle
  opened := hr.opened
  ended := hr.ended
  probe hI size := by
    rcases hr.probe hI size with h | h | ⟨hfin, hn, h⟩
    · exact Or.inl h
    · exact Or.inr (Or.inl h)
    · exact Or.inr (Or.inr ⟨⟨_, rfl, hfin, hn⟩, h⟩)
  receive hI := Or.inl (hr.receive hI)

/-- What is heard without waiting for anything else is read. -/
theorem Hears.reads {Waits : Phase σ Bytes → Prop} (hr : Hears h src I Waits) (hw : ∀ {ph}, Waits ph → Stuck src ph) :
    Reads h src I where
  idle := hr.idle
  opened := hr.opened
  ended := hr.ended
  probe hI size := by
    rcases hr.probe hI size with h | h | ⟨hwait, h⟩
    · exact Or.inl h
    · exact Or.inr (Or.inl h)
    · obtain ⟨s, hs, hfin, hn⟩ := hw hwait
      cases hs
      exact Or.inr (Or.inr ⟨hfin, hn, h⟩)
  receive hI := by
    rcases hr.receive hI with h | ⟨hwait, -⟩
    · exact h
    · obtain ⟨s, hs, -⟩ := hw hwait
      cases hs

end

section

variable {vt : H → CommunicationHandle W} {src : Source σ Bytes} {I : Phase σ Bytes → W → Prop}
  {stop : Stop} {Waits : Phase σ Bytes → Prop} {id : H} {u : HandleUser H} {w : W}

private theorem deref_realHandle (hu : u.realHandle = some id) : u.deref vt = .ok (vt id) := by
  rw [HandleUser.deref, hu]

/-- `HandleUser::probe` on a handle whose next header has been read. -/
theorem Furnishes.probe_opened (hr : Furnishes stop (vt id) src I Waits) {m : Bytes} {s : σ}
    (h : Owns I id (.opened m s) (u, w)) (size : Nat) (blocking : Bool) :
    u.probe vt size blocking w = .ok (.ok sizeofSizeT, m.length, { u with newConnection := false }, w) := by
  obtain ⟨hu, hI, -⟩ := h
  obtain ⟨hm, b, hb, hp, -⟩ := hr.opened hI
  have hne : m.length ≠ 0 := fun e => hm (List.length_eq_zero_iff.1 e)
  have hd : ({ u with newConnection := false } : HandleUser H).deref vt = .ok (vt id) := deref_realHandle hu
  unfold HandleUser.probe
  simp only [hd, bind_ok, hb, hp, if_true, if_neg hne]
  rfl

private theorem probe_ended (hr : Furnishes stop (vt id) src I Waits) {s : σ}
    (h : Owns I id (.ended s) (u, w)) (size : Nat) (blocking : Bool) :
    u.probe vt size blocking w = .ok (.ok 0, 0, { u with newConnection := false }, w) := by
  obtain ⟨hu, hI, -⟩ := h
  obtain ⟨b, hb, hp, -⟩ := hr.ended hI
  have hd : ({ u with newConnection := false } : HandleUser H).deref vt = .ok (vt id) := deref_realHandle hu
  unfold HandleUser.probe
  simp only [hd, bind_ok, hb, hp, if_true]
  rfl

private theorem probe_idle_eq (hr : Furnishes stop (vt id) src I Waits) {s : σ}
    (h : Owns I id (.idle s) (u, w)) (size : Nat) (blocking : Bool) :
    u.probe vt size blocking w = ((vt id).probe size blocking w >>= fun x => match x.1 with
      | .ok 0 => (vt id).close true true x.2.2 >>= fun w =>
          .ok (.ok 0, x.2.1, { u with newConnection := false, isReadable := false }, w)
      | .error e => if e = .ECONNRESET then (vt id).close true true x.2.2 >>= fun w =>
          .ok (.ok 0, x.2.1, { u with newConnection := false }, w)
        else .ok (.error e, x.2.1, { u with newConnection := false }, x.2.2)
      | .ok (n + 1) => if x.2.1 = 0 then
          (vt id).close false true ((vt id).setProbed (true, x.2.1) x.2.2) >>= fun w =>
            .ok (.ok 0, x.2.1, { u with newConnection := false, isReadable := false }, w)
        else .ok (.ok (n + 1), x.2.1, { u with newConnection := false }, (vt id).setProbed (true, x.2.1) x.2.2)) := by
  obtain ⟨hu, hI, hread⟩ := h
  have hread : u.isReadable = true := hread nofun
  obtain ⟨b, hb, hp, hrd⟩ := hr.idle hI
  have hd : ({ u with newConnection := false } : HandleUser H).deref vt = .ok (vt id) := deref_realHandle hu
  unfold HandleUser.probe
  dsimp only
  rw [hd, bind_ok, hb, bind_ok, hp, hread, hrd]
  rfl

/-- `HandleUser::probe` before the next header: it finds a message, or the end, or it stops. -/
theorem Furnishes.probe_idle (hr : Furnishes stop (vt id) src I Waits) {s : σ}
    (h : Owns I id (.idle s) (u, w)) (size : Nat) : (∃ m s' w', src.next s m s' ∧
        u.probe vt size true w = .ok (.ok sizeofSizeT, m.length, { u with newConnection := false }, w') ∧
        Owns I id (.opened m s') ({ u with newConnection := false }, w')) ∨
      (src.finished s ∧ ∃ u' w', u.probe vt size true w = .ok (.ok 0, 0, u', w') ∧ Owns I id (.ended s) (u', w')) ∨
      Waits (.idle s) ∧ u.probe vt size true w = .error stop := by
  rw [probe_idle_eq hr h]
  obtain ⟨hu, hI, hread⟩ := h
  have hread : u.isReadable = true := hread nofun
  rcases hr.probe hI size with ⟨m, s', w', hn, hpr, hI'⟩ | ⟨hfin, w', w'', hpr, hc, hI'⟩ | ⟨hwait, hpr⟩
  · left
    have hne : m.length ≠ 0 := fun e => (hr.opened hI').1 (List.length_eq_zero_iff.1 e)
    refine ⟨m, s', _, hn, ?_, hu, hI', fun _ => hread⟩
    rw [hpr, bind_ok]
    exact if_neg hne
  · right
    left
    refine ⟨hfin, { u with newConnection := false, isReadable := false }, w'', ?_, hu, hI', fun h => absurd rfl (h s)⟩
    rw [hpr, bind_ok]
    dsimp only
    rw [if_pos rfl, hc]
    rfl
  · right
    right
    exact ⟨hwait, by rw [hpr]; rfl⟩

/-- `HandleUser::probe` at the end of the messages makes its object unreadable. -/
theorem Reads.probe_end (hr : Reads (vt id) src I) {s : σ} (h : Owns I id (.idle s) (u, w)) (hfin : src.finished s)
    (hn : ∀ m s', ¬ src.next s m s') (size : Nat) :
    ∃ w', u.probe vt size true w = .ok (.ok 0, 0, { u with newConnection := false, isReadable := false }, w') ∧
      I (.ended s) w' := by
  rw [probe_idle_eq hr.hears h]
  rcases hr.probe h.2.1 size with ⟨m, s', w', hnext, -⟩ | ⟨-, w', w'', hpr, hc, hI⟩ | ⟨hno, -⟩
  · exact absurd hnext (hn m s')
  · refine ⟨w'', ?_, hI⟩
    rw [hpr, bind_ok]
    dsimp only
    rw [if_pos rfl, hc]
    rfl
  · exact absurd hfin hno

/-- The end of `HandleUser::receive`: with room enough it takes the message, or stops, else it leaves it. -/
theorem Furnishes.receiveProbed_opened (hr : Furnishes stop (vt id) src I Waits) {m : Bytes} {s : σ}
    (h : Owns I id (.opened m s) (u, w)) (cap : Nat) :
    if cap < m.length then u.receiveProbed vt cap w = .ok (.error .ENOMEM, [], u, w)
    else (∃ w', u.receiveProbed vt cap w = .ok (.ok m.length, m, u, w') ∧ Owns I id (.idle s) (u, w')) ∨
      Waits (.opened m s) ∧ u.receiveProbed vt cap w = .error stop := by
  obtain ⟨hu, hI, hread⟩ := h
  obtain ⟨-, b, hb, hp, -⟩ := hr.opened hI
  unfold HandleUser.receiveProbed
  rw [HandleUser.deref, hu, bind_ok, hb, bind_ok, hp]
  dsimp only
  by_cases hcap : cap < m.length
  · rw [if_pos hcap, if_pos hcap]
    rfl
  · rw [if_neg hcap, if_neg hcap, Nat.min_eq_left (Nat.le_of_not_lt hcap)]
    rcases hr.receive hI with ⟨w', hrecv, hI'⟩ | ⟨hwait, hrecv⟩
    · rw [hrecv]
      exact Or.inl ⟨w', rfl, hu, hI', fun _ => hread nofun⟩
    · rw [hrecv]
      exact Or.inr ⟨hwait, rfl⟩

theorem Reads.receiveProbed_opened (hr : Reads (vt id) src I) {m : Bytes} {s : σ}
    (h : Owns I id (.opened m s) (u, w)) (cap : Nat) :
    if cap < m.length then u.receiveProbed vt cap w = .ok (.error .ENOMEM, [], u, w)
    else ∃ w', u.receiveProbed vt cap w = .ok (.ok m.length, m, u, w') ∧ Owns I id (.idle s) (u, w') := by
  have hcases := Furnishes.receiveProbed_opened hr.hears h cap
  by_cases hcap : cap < m.length
  · rwa [if_pos hcap] at hcases ⊢
  · rw [if_neg hcap] at hcases ⊢
    rcases hcases with hcall | ⟨⟨s', hs, -⟩, -⟩
    · exact hcall
    · cases hs

theorem Furnishes.receive_opened (hr : Furnishes stop (vt id) src I Waits) {m : Bytes} {s : σ}
    (h : Owns I id (.opened m s) (u, w)) (cap : Nat) :
    u.receive vt cap w = ({ u with newConnection := false } : HandleUser H).receiveProbed vt cap w := by
  obtain ⟨hu, hI, hread⟩ := h
  have hread : u.isReadable = true := hread nofun
  obtain ⟨-, b, hb, hp, hrd⟩ := hr.opened hI
  unfold HandleUser.receive
  rw [HandleUser.deref, hu, bind_ok, hb, bind_ok, hp, hread, hrd]
  rfl

/-- `receive` on a handle whose next header has not been read begins with a blocking `probe`. -/
private theorem receive_probe (hb : ∃ b, (vt id).base w = .ok b ∧ b.probed.1 = false) (hu : u.realHandle = some id)
    (cap : Nat) :
    u.receive vt cap w = (u.probe vt 0 true w >>= fun x => match x.1 with
      | .ok (_ + 1) => x.2.2.1.receiveProbed vt cap x.2.2.2
      | r => .ok (r, [], x.2.2.1, x.2.2.2)) := by
  obtain ⟨b, hb, hp⟩ := hb
  unfold HandleUser.receive
  rw [HandleUser.deref, hu, bind_ok, hb, bind_ok, hp]
  rfl

theorem Furnishes.receive_ended (hr : Furnishes stop (vt id) src I Waits) {s : σ}
    (h : Owns I id (.ended s) (u, w)) (cap : Nat) :
    u.receive vt cap w = .ok (.ok 0, [], { u with newConnection := false }, w) := by
  obtain ⟨hu, hI, -⟩ := h
  obtain ⟨b, hb, hp, hrd⟩ := hr.ended hI
  unfold HandleUser.receive
  rw [HandleUser.deref, hu, bind_ok, hb, bind_ok, hp, hrd]
  by_cases hread : u.isReadable = true
  · rw [hread]
    rfl
  · rw [Bool.eq_false_iff.2 hread]
    rfl

private theorem owns_newConnection {ph : Phase σ Bytes} (h : Owns I id ph (u, w)) :
    Owns I id ph ({ u with newConnection := false }, w) := h

private theorem ask_opened (hr : Furnishes stop (vt id) src I Waits) {m : Bytes} {s : σ}
    (h : Owns I id (.opened m s) (u, w)) (size : Nat) (r : Request) :
    (∃ a ph' s', HandleUser.ask vt size r (u, w) = .ok (some a, s') ∧ Step src List.length r (.opened m s) a ph' ∧
        Owns I id ph' s') ∨
      Waits (.opened m s) ∧ HandleUser.ask vt size r (u, w) = .error stop := by
  cases r with
  | probe =>
    left
    refine ⟨_, _, _, ?_, .probe, owns_newConnection h⟩
    rw [HandleUser.ask, Furnishes.probe_opened hr h]
    rfl
  | receive cap =>
    have hcases := Furnishes.receiveProbed_opened hr (owns_newConnection h) cap
    rw [HandleUser.ask, Furnishes.receive_opened hr h]
    by_cases hcap : cap < m.length
    · rw [if_pos hcap] at hcases
      rw [hcases]
      exact Or.inl ⟨_, _, _, rfl, .noRoom hcap, owns_newConnection h⟩
    · rw [if_neg hcap] at hcases
      rcases hcases with ⟨w', hcall, howns⟩ | ⟨hwait, hcall⟩
      · left
        have hlen : m.length ≠ 0 := fun e => (hr.opened h.2.1).1 (List.length_eq_zero_iff.1 e)
        obtain ⟨n, hn⟩ := Nat.exists_eq_succ_of_ne_zero hlen
        refine ⟨_, _, _, ?_, .message (Nat.le_of_not_lt hcap), howns⟩
        have hanswer : receiveAnswer (.ok m.length) m = some (.message m) := by
          rw [hn]
          exact if_pos hn
        rw [hcall, bind_ok]
        dsimp only
        rw [hanswer]
        rfl
      · rw [hcall]
        exact Or.inr ⟨hwait, rfl⟩

/-- A blocking call of the application is answered as the reader of the source is, or stops. -/
theorem Furnishes.ask_step (hr : Furnishes stop (vt id) src I Waits) {ph : Phase σ Bytes}
    (h : Owns I id ph (u, w)) (size : Nat) (r : Request) :
    (∃ a ph' s', HandleUser.ask vt size r (u, w) = .ok (some a, s') ∧ Step src List.length r ph a ph' ∧
        Owns I id ph' s') ∨
      (Waits ph ∨ ∃ m s, Waits (.opened m s)) ∧ HandleUser.ask vt size r (u, w) = .error stop := by
  cases ph with
  | opened m s => exact (ask_opened hr h size r).imp_right fun hwait => ⟨Or.inl hwait.1, hwait.2⟩
  | ended s =>
    left
    cases r with
    | probe =>
      refine ⟨_, _, _, ?_, .ended, owns_newConnection h⟩
      rw [HandleUser.ask, probe_ended hr h]
      rfl
    | receive cap =>
      refine ⟨_, _, _, ?_, .ended, owns_newConnection h⟩
      rw [HandleUser.ask, Furnishes.receive_ended hr h]
      rfl
  | idle s =>
    obtain ⟨b, hb, hp, -⟩ := hr.idle h.2.1
    cases r with
    | probe =>
      rcases Furnishes.probe_idle hr h size with ⟨m, s', w', hn, hcall, howns⟩ | ⟨hfin, u', w', hcall, howns⟩ |
        ⟨hwait, hcall⟩
      · left
        refine ⟨_, _, _, ?_, .next hn .probe, howns⟩
        rw [HandleUser.ask, hcall]
        rfl
      · left
        refine ⟨_, _, _, ?_, .finish hfin, howns⟩
        rw [HandleUser.ask, hcall]
        rfl
      · right
        refine ⟨Or.inl hwait, ?_⟩
        rw [HandleUser.ask, hcall]
        rfl
    | receive cap =>
      have hrecv := receive_probe ⟨b, hb, hp⟩ h.1 cap
      rcases Furnishes.probe_idle hr h 0 with ⟨m, s', w', hn, hcall, howns⟩ | ⟨hfin, u', w', hcall, howns⟩ |
        ⟨hwait, hcall⟩
      · -- from here on it is as if the size had been known
        have hsame : HandleUser.ask vt size (.receive cap) (u, w) =
            HandleUser.ask vt size (.receive cap) ({ u with newConnection := false }, w') := by
          rw [HandleUser.ask, HandleUser.ask, hrecv, hcall, Furnishes.receive_opened hr howns]
          rfl
        rw [hsame]
        rcases ask_opened hr howns size (.receive cap) with ⟨a, ph', t, hask, hstep, howns'⟩ | ⟨hwait, hask⟩
        · exact Or.inl ⟨a, ph', t, hask, .next hn hstep, howns'⟩
        · exact Or.inr ⟨Or.inr ⟨m, s', hwait⟩, hask⟩
      · left
        refine ⟨_, _, _, ?_, .finish hfin, howns⟩
        rw [HandleUser.ask, hrecv, hcall]
        rfl
      · right
        refine ⟨Or.inl hwait, ?_⟩
        rw [HandleUser.ask, hrecv, hcall]
        rfl

/-- A blocking call of the application is answered as the reader of the source is, or waits for a message that
never comes. -/
theorem ask_step (hr : Reads (vt id) src I) {ph : Phase σ Bytes} (h : Owns I id ph (u, w)) (size : Nat) (r : Request) :
    (∃ a ph' s', HandleUser.ask vt size r (u, w) = .ok (some a, s') ∧ Step src List.length r ph a ph' ∧
        Owns I id ph' s') ∨
      Stuck src ph ∧ HandleUser.ask vt size r (u, w) = .error .blocked := by
  rcases Furnishes.ask_step hr.hears h size r with hcall | ⟨hstuck | ⟨m, s, s', hs, -⟩, hcall⟩
  · exact Or.inl hcall
  · exact Or.inr ⟨hstuck, hcall⟩
  · cases hs

/-- Any sequence of blocking calls is answered as the reader of the source is, unless the reader gets to wait
for a message that never comes. -/
theorem run_asks (hr : Reads (vt id) src I) {ph : Phase σ Bytes} {t : HandleUser H × W}
    (h : Owns I id ph t) (size : Nat) (hsrc : ∀ s, src.finished s ∨ ∃ m s', src.next s m s')
    (rs : List Request) : ∃ as ph' t', Runs.run (HandleUser.ask vt size) rs t = .ok (as.map some, t') ∧
      Run src List.length rs ph as ph' ∧ Owns I id ph' t' := by
  induction rs generalizing ph t with
  | nil => exact ⟨[], ph, t, rfl, .nil, h⟩
  | cons r rs ih =>
    rcases ask_step hr h size r with ⟨a, ph1, t1, hask, hstep, h1⟩ | ⟨⟨s, -, hfin, hn⟩, -⟩
    · obtain ⟨as, ph2, t2, hrun, hsteps, h2⟩ := ih h1
      refine ⟨a :: as, ph2, t2, ?_, .cons hstep hsteps, h2⟩
      rw [Runs.run, hask]
      change (Runs.run (HandleUser.ask vt size) rs t1 >>= fun x => .ok (some a :: x.1, x.2)) = _
      rw [hrun]
      rfl
    · rcases hsrc s with hf | ⟨m, s', hm⟩
      · exact absurd hf hfin
      · exact absurd hm (hn m s')

/-- A sequence of blocking calls that has come to its end has been answered as the reader of the source is. -/
theorem run_answered (hr : Furnishes stop (vt id) src I Waits) {ph : Phase σ Bytes} {t t' : HandleUser H × W}
    (h : Owns I id ph t) {size : Nat} {rs : List Request} {as : List (Option (Answer Bytes))}
    (hrun : Runs.run (HandleUser.ask vt size) rs t = .ok (as, t')) :
    ∃ as' ph', as = as'.map some ∧ Run src List.length rs ph as' ph' ∧ Owns I id ph' t' := by
  induction rs generalizing ph t as with
  | nil =>
    cases hrun
    exact ⟨[], ph, rfl, .nil, h⟩
  | cons r rs ih =>
    obtain ⟨a, s1, as1, hcall, hrest, rfl⟩ := Runs.run_cons_eq_ok hrun
    rcases Furnishes.ask_step hr h size r with ⟨a', ph1, t1, hask, hstep, h1⟩ | ⟨-, hblocked⟩
    · rw [hask] at hcall
      cases hcall
      obtain ⟨as', ph2, has, hsteps, h2⟩ := ih h1 hrest
      refine ⟨a' :: as', ph2, ?_, .cons hstep hsteps, h2⟩
      rw [has, List.map_cons]
    · rw [hblocked] at hcall
      cases hcall

/-- What a queue of messages answers to a call; the flag says that the end has been answered. -/
def asked (closed : Bool) (r : Request) (q : List Bytes × Bool) :
    Option (Option (Answer Bytes) × (List Bytes × Bool)) :=
  (queueAnswer closed List.length r q).map fun x => (some x.1, x.2)

/-- On a handle that brings the messages of a list, a call that a queue of them answers returns that answer. -/
theorem ask_queue {closed : Bool} {I : Phase (List Bytes) Bytes → W → Prop} (hr : Reads (vt id) (queue closed) I)
    {ph : Phase (List Bytes) Bytes} (h : Owns I id ph (u, w)) (size : Nat) {r : Request} {b : Option (Answer Bytes)}
    {q : List Bytes × Bool} (hq : asked closed r ph.queue = some (b, q)) :
    ∃ s' ph', HandleUser.ask vt size r (u, w) = .ok (b, s') ∧ Owns I id ph' s' ∧ ph'.queue = q := by
  rcases ask_step hr h size r with ⟨a, ph', s', hask, hstep, howns⟩ | ⟨⟨ms, rfl, hfin, hn⟩, -⟩
  · rw [asked, hstep.queueAnswer] at hq
    cases hq
    exact ⟨s', ph', hask, howns, rfl⟩
  · cases ms with
    | cons m ms => exact absurd rfl (hn m ms)
    | nil =>
      cases closed with
      | true => exact absurd ⟨rfl, rfl⟩ hfin
      | false => cases r <;> cases hq

/-! ### Looking without waiting -/

/-- What an application does that also looks whether something has come. -/
inductive Try
  | ask (r : Request)
  | poll
  deriving DecidableEq, Repr

/-- What is asked for. -/
def Try.request : Try → Request
  | ask r => r
  | poll => .probe

/-- A blocking call, or a `probe` that does not wait; that is no answer when it finds nothing. -/
def HandleUser.attempt (vt : H → CommunicationHandle W) (size : Nat) :
    Try → HandleUser H × W → Except Stop (Option (Answer Bytes) × (HandleUser H × W))
  | .ask r, s => HandleUser.ask vt size r s
  | .poll, (u, w) => do
    let (r, size, u, w) ← u.probe vt size false w
    return (probeAnswer r size, (u, w))

/-- The arguments of the `probe` that a call begins with before the next header. -/
def Try.probe (size : Nat) : Try → Nat × Bool
  | ask .probe => (size, true)
  | ask (.receive _) => (0, true)
  | poll => (size, false)

/-- A `probe` that does not wait finds the size of the next message, or the end, or nothing, or it stops. -/
def Polls (stop : Stop) (h : CommunicationHandle W) (src : Source σ Bytes) (I : Phase σ Bytes → W → Prop)
    (Waits : Phase σ Bytes → Prop) : Prop :=
  ∀ {s w}, I (.idle s) w → ∀ size,
    (∃ m s' w', src.next s m s' ∧ h.probe size false w = .ok (.ok sizeofSizeT, m.length, w') ∧
        I (.opened m s') (h.setProbed (true, m.length) w')) ∨
      (src.finished s ∧ ∃ w' w'', h.probe size false w = .ok (.ok sizeofSizeT, 0, w') ∧
        h.close false true (h.setProbed (true, 0) w') = .ok w'' ∧ I (.ended s) w'') ∨
      (∃ w', h.probe size false w = .ok (.error .EWOULDBLOCK, size, w') ∧ I (.idle s) w') ∨
      Waits (.idle s) ∧ h.probe size false w = .error stop

/-- What has been tried, and the answers to it; only a look may find nothing. -/
inductive Attempts (src : Source σ Bytes) :
    List Try → Phase σ Bytes → List (Option (Answer Bytes)) → Phase σ Bytes → Prop
  | nil {ph : Phase σ Bytes} : Attempts src [] ph [] ph
  | answered {t : Try} {ts : List Try} {a : Answer Bytes} {as : List (Option (Answer Bytes))}
      {ph ph1 ph2 : Phase σ Bytes} (h : Step src List.length t.request ph a ph1)
      (h' : Attempts src ts ph1 as ph2) : Attempts src (t :: ts) ph (some a :: as) ph2
  | nothing {ts : List Try} {as : List (Option (Answer Bytes))} {ph ph2 : Phase σ Bytes}
      (h' : Attempts src ts ph as ph2) : Attempts src (.poll :: ts) ph (none :: as) ph2

/-- The answers are those of a run of the reader. -/
theorem Attempts.run {ts : List Try} {as : List (Option (Answer Bytes))} {ph ph' : Phase σ Bytes}
    (h : Attempts src ts ph as ph') : ∃ rs, Run src List.length rs ph (as.filterMap fun a => a) ph' := by
  induction h with
  | nil => exact ⟨[], .nil⟩
  | answered h _ ih =>
    obtain ⟨rs, hrs⟩ := ih
    exact ⟨_ :: rs, .cons h hrs⟩
  | nothing _ ih => exact ih

/-- A `probe` that does not wait and finds nothing. -/
theorem attempt_nothing (hr : Furnishes stop (vt id) src I Waits) {s : σ}
    (h : Owns I id (.idle s) (u, w)) {size n : Nat} {w' : W}
    (hp : (vt id).probe size false w = .ok (.error .EWOULDBLOCK, n, w')) :
    HandleUser.attempt vt size .poll (u, w) = .ok (none, ({ u with newConnection := false }, w')) := by
  rw [HandleUser.attempt, probe_idle_eq hr h, hp]
  rfl

/-- A `probe` that does not wait is answered as the reader of the source is, or finds nothing, or stops. -/
private theorem poll_step (hr : Furnishes stop (vt id) src I Waits) (hp : Polls stop (vt id) src I Waits)
    {ph : Phase σ Bytes} (h : Owns I id ph (u, w)) (size : Nat) :
    (∃ a ph' s', HandleUser.attempt vt size .poll (u, w) = .ok (some a, s') ∧ Step src List.length .probe ph a ph' ∧
        Owns I id ph' s') ∨
      (∃ s', HandleUser.attempt vt size .poll (u, w) = .ok (none, s') ∧ Owns I id ph s') ∨
      Waits ph ∧ HandleUser.attempt vt size .poll (u, w) = .error stop := by
  cases ph with
  | opened m s =>
    refine Or.inl ⟨_, _, _, ?_, .probe, owns_newConnection h⟩
    rw [HandleUser.attempt, Furnishes.probe_opened hr h]
    rfl
  | ended s =>
    refine Or.inl ⟨_, _, _, ?_, .ended, owns_newConnection h⟩
    rw [HandleUser.attempt, probe_ended hr h]
    rfl
  | idle s =>
    have hcall := probe_idle_eq hr h size false
    have hnothing := @attempt_nothing _ _ _ _ _ _ _ _ _ _ _ hr _ h size
    obtain ⟨hu, hI, hread⟩ := h
    have hread : u.isReadable = true := hread nofun
    rcases hp hI size with ⟨m, s', w', hn, hpr, hI'⟩ | ⟨hfin, w', w'', hpr, hc, hI'⟩ | ⟨w', hpr, hI'⟩ | ⟨hwait, hpr⟩
    · have hne : m.length ≠ 0 := fun e => (hr.opened hI').1 (List.length_eq_zero_iff.1 e)
      refine Or.inl ⟨_, _, ({ u with newConnection := false }, _), ?_, .next hn .probe, hu, hI', fun _ => hread⟩
      rw [HandleUser.attempt, hcall, hpr, bind_ok]
      dsimp only
      rw [if_neg hne]
      rfl
    · refine Or.inl ⟨_, _, ({ u with newConnection := false, isReadable := false }, w''), ?_, .finish hfin, hu, hI',
        fun h => absurd rfl (h s)⟩
      rw [HandleUser.attempt, hcall, hpr, bind_ok]
      dsimp only
      rw [if_pos rfl, hc]
      rfl
    · exact Or.inr (Or.inl ⟨({ u with newConnection := false }, w'), hnothing hpr, hu, hI', fun _ => hread⟩)
    · refine Or.inr (Or.inr ⟨hwait, ?_⟩)
      rw [HandleUser.attempt, hcall, hpr]
      rfl

/-- A call, which waits or not, is answered as the reader of the source is, or finds nothing, or stops. -/
theorem attempt_step (hr : Furnishes stop (vt id) src I Waits) {ph : Phase σ Bytes} {s : HandleUser H × W}
    (h : Owns I id ph s) (size : Nat) {t : Try} (hp : t = .poll → Polls stop (vt id) src I Waits) :
    (∃ a ph' s', HandleUser.attempt vt size t s = .ok (a, s') ∧ Owns I id ph' s' ∧
        ∀ {ts as ph2}, Attempts src ts ph' as ph2 → Attempts src (t :: ts) ph (a :: as) ph2) ∨
      (Waits ph ∨ ∃ m s, Waits (.opened m s)) ∧ HandleUser.attempt vt size t s = .error stop := by
  obtain ⟨u, w⟩ := s
  cases t with
  | ask r =>
    rcases Furnishes.ask_step hr h size r with ⟨a, ph', s', hask, hstep, howns⟩ | hstop
    · exact Or.inl ⟨some a, ph', s', hask, howns, fun h' => .answered hstep h'⟩
    · exact Or.inr hstop
  | poll =>
    rcases poll_step hr (hp rfl) h size with ⟨a, ph', s', hcall, hstep, howns⟩ | ⟨s', hcall, howns⟩ | ⟨hwait, hcall⟩
    · exact Or.inl ⟨some a, ph', s', hcall, howns, fun h' => .answered hstep h'⟩
    · exact Or.inl ⟨none, ph, s', hcall, howns, fun h' => .nothing h'⟩
    · exact Or.inr ⟨Or.inl hwait, hcall⟩

/-- A sequence of calls that has come to its end has been answered as the reader of the source is, where a look
may have found nothing. -/
theorem run_attempted (hr : Furnishes stop (vt id) src I Waits) {ph : Phase σ Bytes} {s s' : HandleUser H × W}
    (h : Owns I id ph s) {size : Nat} {ts : List Try} (hp : .poll ∈ ts → Polls stop (vt id) src I Waits)
    {as : List (Option (Answer Bytes))} (hrun : Runs.run (HandleUser.attempt vt size) ts s = .ok (as, s')) :
    ∃ ph', Attempts src ts ph as ph' ∧ Owns I id ph' s' := by
  induction ts generalizing ph s as with
  | nil =>
    cases hrun
    exact ⟨ph, .nil, h⟩
  | cons t ts ih =>
    obtain ⟨a, s1, as1, hcall, hrest, rfl⟩ := Runs.run_cons_eq_ok hrun
    rcases attempt_step hr h size fun ht =>
      hp (ht ▸ List.mem_cons_self ..) with ⟨a', ph1, s1', hcall', h1, hstep⟩ | ⟨-, hstop⟩
    · rw [hcall] at hcall'
      cases hcall'
      obtain ⟨ph2, hatt, h2⟩ := ih h1 (fun hm => hp (List.mem_cons_of_mem _ hm)) hrest
      exact ⟨ph2, hstep hatt, h2⟩
    · rw [hstop] at hcall
      cases hcall

/-- Before the next header a call fails with the `probe` of the handle. -/
theorem attempt_error (hr : Furnishes stop (vt id) src I Waits) {s : σ} (h : Owns I id (.idle s) (u, w))
    (size : Nat) {t : Try} {st : Stop} (hp : (vt id).probe (t.probe size).1 (t.probe size).2 w = .error st) :
    HandleUser.attempt vt size t (u, w) = .error st := by
  obtain ⟨b, hb, hprobed, -⟩ := hr.idle h.2.1
  rcases t with (_ | cap) | _
  · change (vt id).probe size true w = _ at hp
    rw [HandleUser.attempt, HandleUser.ask, probe_idle_eq hr h, hp]
    rfl
  · change (vt id).probe 0 true w = _ at hp
    rw [HandleUser.attempt, HandleUser.ask, receive_probe ⟨b, hb, hprobed⟩ h.1, probe_idle_eq hr h, hp]
    rfl
  · change (vt id).probe size false w = _ at hp
    rw [HandleUser.attempt, probe_idle_eq hr h, hp]
    rfl

end

end Mtcl
