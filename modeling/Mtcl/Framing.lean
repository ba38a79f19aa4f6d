import Mtcl.Collective.Context

/-!
# Callers that keep to the frames

A header is read once: `HandleUser` and `CollectiveImpl` remember the size they have read, and ask for the next
header only when they have received the message it belongs to.  `Framed h At Behind Over` says what the virtual
functions of a handle do to a stream of frames, `At` before a header and `Behind n` behind the header of a
message of `n` bytes, and the `_framed` theorems that both callers then stay in step with the frames, for any
order of calls.

`watch` is a table of virtual functions that writes down every call of `probe` and `receive`.
-/

namespace Mtcl

variable {H W : Type}

/-! ### What the callers of `CollectiveImpl` do -/

theorem probeHandle_cases {vt : H → CommunicationHandle W} {id : H} {size size' : Nat} {blocking : Bool} {w w' : W}
    {r : Ret} (h : probeHandle vt id size blocking w = .ok (r, size', w')) :
    ∃ b, (vt id).base w = .ok b ∧ ((w' = w ∧ (b.probed.1 = true ∨ r = .ok 0)) ∨ b.probed.1 = false ∧
      ∃ r0 w0, (vt id).probe size blocking w = .ok (r0, size', w0) ∧
        HandleUser.ProbeOutcome (vt id) size' r0 w0 r w') := by
  unfold probeHandle at h
  obtain ⟨b, hb, h⟩ := bind_eq_ok.1 h
  refine ⟨b, hb, ?_⟩
  by_cases hp : b.probed.1 = true
  · rw [if_pos hp] at h
    cases h
    exact Or.inl ⟨rfl, Or.inl hp⟩
  rw [if_neg hp] at h
  by_cases hrd : b.closedRd = true
  · rw [if_pos hrd] at h
    cases h
    exact Or.inl ⟨rfl, Or.inr rfl⟩
  · rw [if_neg hrd] at h
    obtain ⟨⟨r1, s1, w1⟩, h1, h⟩ := bind_eq_ok.1 h
    refine Or.inr ⟨Bool.eq_false_iff.2 hp, ?_⟩
    rcases r1 with e | _ | n
    · dsimp only at h
      by_cases he : e = .ECONNRESET
      · rw [if_pos he] at h
        obtain ⟨w2, h2, h⟩ := bind_eq_ok.1 h
        cases h
        exact ⟨_, _, h1, .closed (Or.inr (congrArg _ he)) h2⟩
      · rw [if_neg he] at h
        cases h
        exact ⟨_, _, h1, .failed he⟩
    · obtain ⟨w2, h2, h⟩ := bind_eq_ok.1 h
      cases h
      exact ⟨_, _, h1, .closed (Or.inl rfl) h2⟩
    · dsimp only at h
      by_cases hsize : s1 = 0
      · rw [if_pos hsize] at h
        obtain ⟨w2, h2, h⟩ := bind_eq_ok.1 h
        cases h
        exact ⟨_, _, h1, .eos hsize h2⟩
      · rw [if_neg hsize] at h
        cases h
        exact ⟨_, _, h1, .header hsize⟩

theorem receiveProbedFromHandle_cases {vt : H → CommunicationHandle W} {id : H} {size : Nat} {w w' : W} {r : Ret}
    {bs : Bytes} (h : receiveProbedFromHandle vt id size w = .ok (r, bs, w')) :
    ∃ b, (vt id).base w = .ok b ∧ (w' = w ∨
      b.probed.2 ≤ size ∧ (vt id).receive b.probed.2 ((vt id).setProbed (false, 0) w) = .ok (r, bs, w')) := by
  unfold receiveProbedFromHandle at h
  obtain ⟨b, hb, h⟩ := bind_eq_ok.1 h
  refine ⟨b, hb, ?_⟩
  dsimp only at h
  by_cases hsize : size < b.probed.2
  · rw [if_pos hsize] at h
    cases h
    exact Or.inl rfl
  · have hle := Nat.le_of_not_lt hsize
    rw [if_neg hsize, Nat.min_eq_left hle] at h
    exact Or.inr ⟨hle, h⟩

theorem receiveFromHandle_cases {vt : H → CommunicationHandle W} {id : H} {size : Nat} {w w' : W} {r : Ret} {bs : Bytes}
    (h : receiveFromHandle vt id size w = .ok (r, bs, w')) :
    ∃ b, (vt id).base w = .ok b ∧ (w' = w ∨
      (b.probed.1 = true ∧ b.closedRd = false ∧ receiveProbedFromHandle vt id size w = .ok (r, bs, w')) ∨
      b.probed.1 = false ∧ ∃ r0 size0 w0, probeHandle vt id 0 true w = .ok (r0, size0, w0) ∧
        (w' = w0 ∨ (∃ n, r0 = .ok (n + 1)) ∧ receiveProbedFromHandle vt id size w0 = .ok (r, bs, w'))) := by
  unfold receiveFromHandle at h
  obtain ⟨b, hb, h⟩ := bind_eq_ok.1 h
  refine ⟨b, hb, ?_⟩
  by_cases hp : b.probed.1 = true
  · rw [if_neg (by simp [hp])] at h
    by_cases hrd : b.closedRd = true
    · rw [if_pos hrd] at h
      cases h
      exact Or.inl rfl
    · rw [if_neg hrd] at h
      exact Or.inr (Or.inl ⟨hp, Bool.eq_false_iff.2 hrd, h⟩)
  · rw [if_pos (by simp [hp])] at h
    refine Or.inr (Or.inr ⟨Bool.eq_false_iff.2 hp, ?_⟩)
    obtain ⟨⟨r1, s1, w1⟩, h1, h⟩ := bind_eq_ok.1 h
    refine ⟨r1, s1, w1, h1, ?_⟩
    rcases r1 with e | _ | n
    · cases h
      exact Or.inl rfl
    · cases h
      exact Or.inl rfl
    · exact Or.inr ⟨⟨n, rfl⟩, h⟩

/-! ### A stream of frames -/

/-- What the virtual functions of a handle do to a stream of frames: `At` holds before a header, `Behind n`
behind the header of a message of `n` bytes, and `Over` at any time. -/
structure Framed (h : CommunicationHandle W) (At : W → Prop) (Behind : Nat → W → Prop) (Over : W → Prop) : Prop where
  at_over : ∀ {w}, At w → Over w
  behind_over : ∀ {n w}, Behind n w → Over w
  probe : ∀ {size blocking w r size' w'}, At w → h.probe size blocking w = .ok (r, size', w') →
    Over w' ∧ ((∃ k, r = .ok (k + 1)) → size' ≠ 0 → Behind size' w') ∧ ((∀ k, r ≠ .ok (k + 1)) → At w')
  receive : ∀ {n w r bs w'}, Behind n w → h.receive n w = .ok (r, bs, w') → At w'
  setProbed : ∀ {pr w}, (At w → At (h.setProbed pr w)) ∧ (∀ n, Behind n w → Behind n (h.setProbed pr w)) ∧
    (Over w → Over (h.setProbed pr w))
  close : ∀ {wr rd w w'}, h.close wr rd w = .ok w' → (At w → At w') ∧ (Over w → Over w')
  base_setProbed : ∀ {pr w b}, h.base (h.setProbed pr w) = .ok b → b.probed = pr
  base_probe : ∀ {size blocking w r size' w' b'}, h.probe size blocking w = .ok (r, size', w') → h.base w' = .ok b' →
    ∃ b, h.base w = .ok b ∧ b'.probed = b.probed
  base_receive : ∀ {n w r bs w' b'}, h.receive n w = .ok (r, bs, w') → h.base w' = .ok b' →
    ∃ b, h.base w = .ok b ∧ b'.probed = b.probed
  base_close : ∀ {wr rd w w' b'}, h.close wr rd w = .ok w' → h.base w' = .ok b' →
    (∃ b, h.base w = .ok b ∧ b'.probed = b.probed) ∧ (rd = true → b'.closedRd = true)

/-- The header cache agrees with the stream. -/
def InStep (h : CommunicationHandle W) (At : W → Prop) (Behind : Nat → W → Prop) (Over : W → Prop) (w : W) : Prop :=
  Over w ∧ ∀ b, h.base w = .ok b → (b.probed.1 = false ∧ At w) ∨
    (b.probed.1 = true ∧ b.probed.2 ≠ 0 ∧ Behind b.probed.2 w) ∨ b.probed = (true, 0) ∧ b.closedRd = true

section

variable {At : W → Prop} {Behind : Nat → W → Prop} {Over : W → Prop}

/-- Whatever a caller makes of a `probe`, the cache agrees with the stream afterwards. -/
private theorem outcome_framed {h : CommunicationHandle W} (hf : Framed h At Behind Over) {size size' : Nat}
    {blocking : Bool} {w w0 w' : W} {r0 r : Ret} {b : CommBase} (hat : At w) (hb : h.base w = .ok b)
    (hp : b.probed.1 = false) (hprobe : h.probe size blocking w = .ok (r0, size', w0))
    (hout : HandleUser.ProbeOutcome h size' r0 w0 r w') : InStep h At Behind Over w' := by
  have hcache : ∀ b', h.base w0 = .ok b' → b'.probed.1 = false := by
    intro b' hb'
    obtain ⟨c, hc, e⟩ := hf.base_probe hprobe hb'
    rw [hb] at hc
    cases hc
    rw [e, hp]
  obtain ⟨hover, hbehind, hstay⟩ := hf.probe hat hprobe
  cases hout with
  | closed hr hc =>
    have hat0 : At w0 := hstay (by rcases hr with rfl | rfl <;> exact nofun)
    refine ⟨hf.at_over ((hf.close hc).1 hat0), fun b' hb' => Or.inl ⟨?_, (hf.close hc).1 hat0⟩⟩
    obtain ⟨⟨c, hcb, e⟩, -⟩ := hf.base_close hc hb'
    rw [e]
    exact hcache c hcb
  | failed _ =>
    have hat0 : At w0 := hstay nofun
    exact ⟨hf.at_over hat0, fun b' hb' => Or.inl ⟨hcache b' hb', hat0⟩⟩
  | eos hsize hc =>
    refine ⟨(hf.close hc).2 (hf.setProbed.2.2 hover), fun b' hb' => Or.inr (Or.inr ?_)⟩
    obtain ⟨⟨c, hcb, e⟩, hrd⟩ := hf.base_close hc hb'
    rw [e, hf.base_setProbed hcb, hsize]
    exact ⟨rfl, hrd rfl⟩
  | header hsize =>
    have hb0 : Behind size' w0 := hbehind ⟨_, rfl⟩ hsize
    refine ⟨hf.setProbed.2.2 hover, fun b' hb' => Or.inr (Or.inl ?_)⟩
    rw [hf.base_setProbed hb']
    exact ⟨rfl, hsize, hf.setProbed.2.1 _ hb0⟩

private theorem receive_framed {h : CommunicationHandle W} (hf : Framed h At Behind Over) {w w' : W}
    {r : Ret} {bs : Bytes} {b : CommBase} (hi : InStep h At Behind Over w) (hb : h.base w = .ok b)
    (hp : b.probed.1 = true) (hsize : b.probed.2 = 0 → b.closedRd = false)
    (hr : h.receive b.probed.2 (h.setProbed (false, 0) w) = .ok (r, bs, w')) : InStep h At Behind Over w' := by
  rcases hi.2 b hb with ⟨hp', -⟩ | ⟨-, -, hbehind⟩ | ⟨hp', hrd⟩
  · rw [hp] at hp'
    cases hp'
  · have hat := hf.receive (hf.setProbed.2.1 _ hbehind) hr
    refine ⟨hf.at_over hat, fun b' hb' => Or.inl ⟨?_, hat⟩⟩
    obtain ⟨c, hc, e⟩ := hf.base_receive hr hb'
    rw [e, hf.base_setProbed hc]
  · rw [hsize (by rw [hp'])] at hrd
    cases hrd

variable {vt : H → CommunicationHandle W} {id : H}

/-- `CollectiveImpl::probeHandle` keeps the cache and the stream in step. -/
theorem probeHandle_framed (hf : Framed (vt id) At Behind Over) {size size' : Nat} {blocking : Bool}
    {w w' : W} {r : Ret} (hi : InStep (vt id) At Behind Over w)
    (he : probeHandle vt id size blocking w = .ok (r, size', w')) : InStep (vt id) At Behind Over w' := by
  obtain ⟨b, hb, ⟨rfl, -⟩ | ⟨hp, r0, w0, hprobe, hout⟩⟩ := probeHandle_cases he
  · exact hi
  · rcases hi.2 b hb with ⟨-, hat⟩ | ⟨hp', -⟩ | ⟨hp', -⟩
    · exact outcome_framed hf hat hb hp hprobe hout
    · rw [hp] at hp'
      cases hp'
    · rw [hp'] at hp
      cases hp

/-- A size that is answered is that of a message, and it is in the cache. -/
private theorem outcome_header {h : CommunicationHandle W} (hf : Framed h At Behind Over) {size k : Nat} {w0 w' : W}
    {r0 : Ret} {b : CommBase} (hout : HandleUser.ProbeOutcome h size r0 w0 (.ok (k + 1)) w') (hb : h.base w' = .ok b) :
    b.probed.1 = true ∧ b.probed.2 ≠ 0 := by
  cases hout with
  | header hsize =>
    rw [hf.base_setProbed hb]
    exact ⟨rfl, hsize⟩

/-- `CollectiveImpl::receiveFromHandle` keeps the cache and the stream in step. -/
theorem receiveFromHandle_framed (hf : Framed (vt id) At Behind Over) {size : Nat} {w w' : W} {r : Ret} {bs : Bytes}
    (hi : InStep (vt id) At Behind Over w) (he : receiveFromHandle vt id size w = .ok (r, bs, w')) :
    InStep (vt id) At Behind Over w' := by
  obtain ⟨b, hb, rfl | ⟨hp, hrd, hrest⟩ | ⟨hp, r0, size0, w0, hprobe, hrest⟩⟩ := receiveFromHandle_cases he
  · exact hi
  · obtain ⟨c, hc, rfl | ⟨-, hrecv⟩⟩ := receiveProbedFromHandle_cases hrest
    · exact hi
    · obtain rfl : b = c := Except.ok.inj (hb.symm.trans hc)
      exact receive_framed hf hi hb hp (fun _ => hrd) hrecv
  · have hi0 := probeHandle_framed hf hi hprobe
    rcases hrest with rfl | ⟨⟨k, rfl⟩, hrest⟩
    · exact hi0
    · obtain ⟨c, hc, rfl | ⟨-, hrecv⟩⟩ := receiveProbedFromHandle_cases hrest
      · exact hi0
      · obtain ⟨b', hb', hcase⟩ := probeHandle_cases hprobe
        obtain rfl : b = b' := Except.ok.inj (hb.symm.trans hb')
        rcases hcase with ⟨-, hp' | hr⟩ | ⟨-, r1, w1, -, hout⟩
        · rw [hp] at hp'
          cases hp'
        · cases hr
        · obtain ⟨h1, h2⟩ := outcome_header hf hout hc
          exact receive_framed hf hi0 hc h1 (fun e => absurd e h2) hrecv

/-- `HandleUser::probe` keeps the cache and the stream in step. -/
theorem HandleUser.probe_framed (hf : Framed (vt id) At Behind Over) {u u' : HandleUser H} (hu : u.realHandle = some id)
    {size size' : Nat} {blocking : Bool} {w w' : W} {r : Ret} (hi : InStep (vt id) At Behind Over w)
    (he : u.probe vt size blocking w = .ok (r, size', u', w')) :
    u'.realHandle = some id ∧ InStep (vt id) At Behind Over w' := by
  obtain ⟨id', b, hid, hu', hb, hcase⟩ := HandleUser.probe_cases he
  obtain rfl : id = id' := Option.some.inj (hu.symm.trans hid)
  refine ⟨hu', ?_⟩
  rcases hcase with ⟨rfl, -⟩ | ⟨hp, -, -, -, r0, w0, hprobe, hout⟩
  · exact hi
  · rcases hi.2 b hb with ⟨-, hat⟩ | ⟨hp', -⟩ | ⟨hp', -⟩
    · exact outcome_framed hf hat hb hp hprobe hout
    · rw [hp] at hp'
      cases hp'
    · rw [hp'] at hp
      cases hp

private theorem receiveProbed_framed (hf : Framed (vt id) At Behind Over) {u u' : HandleUser H}
    (hu : u.realHandle = some id) {size : Nat} {w w' : W} {r : Ret} {bs : Bytes} (hi : InStep (vt id) At Behind Over w)
    (hopen : ∀ b, (vt id).base w = .ok b → b.probed.1 = true ∧ (b.probed.2 = 0 → b.closedRd = false))
    (he : u.receiveProbed vt size w = .ok (r, bs, u', w')) :
    u'.realHandle = some id ∧ InStep (vt id) At Behind Over w' := by
  obtain ⟨rfl, id', b, hid, hb, hcase⟩ := HandleUser.receiveProbed_cases he
  obtain rfl : id = id' := Option.some.inj (hu.symm.trans hid)
  refine ⟨hu, ?_⟩
  rcases hcase with ⟨-, -, -, rfl⟩ | ⟨-, hrecv⟩
  · exact hi
  · obtain ⟨hp, hrd⟩ := hopen b hb
    exact receive_framed hf hi hb hp hrd hrecv

/-- `HandleUser::receive` keeps the cache and the stream in step. -/
theorem HandleUser.receive_framed (hf : Framed (vt id) At Behind Over) {u u' : HandleUser H}
    (hu : u.realHandle = some id) {size : Nat} {w w' : W} {r : Ret} {bs : Bytes} (hi : InStep (vt id) At Behind Over w)
    (he : u.receive vt size w = .ok (r, bs, u', w')) :
    u'.realHandle = some id ∧ InStep (vt id) At Behind Over w' := by
  obtain ⟨id', b, hid, hb, hcase⟩ := HandleUser.receive_cases he
  obtain rfl : id = id' := Option.some.inj (hu.symm.trans hid)
  rcases hcase with ⟨-, -, -, -, rfl, rfl⟩ | ⟨hp, -, hrd, hrest⟩ | ⟨hp, r0, size0, u0, w0, hprobe, hrest⟩
  · exact ⟨hu, hi⟩
  · refine receiveProbed_framed (u := { u with newConnection := false }) hf hu hi (fun c hc => ?_) hrest
    obtain rfl : b = c := Except.ok.inj (hb.symm.trans hc)
    exact ⟨hp, fun _ => hrd⟩
  · obtain ⟨hu0, hi0⟩ := HandleUser.probe_framed hf hu hi hprobe
    rcases hrest with ⟨-, -, -, rfl, rfl⟩ | ⟨⟨k, rfl⟩, hrest⟩
    · exact ⟨hu0, hi0⟩
    · refine receiveProbed_framed hf hu0 hi0 (fun c hc => ?_) hrest
      obtain ⟨id', b', hid', -, hb', hcase⟩ := HandleUser.probe_cases hprobe
      obtain rfl : id = id' := Option.some.inj (hu.symm.trans hid')
      obtain rfl : b = b' := Except.ok.inj (hb.symm.trans hb')
      rcases hcase with ⟨-, -, ⟨hp', -⟩ | ⟨-, -, -, hr⟩⟩ | ⟨-, -, -, -, r1, w1, -, hout⟩
      · rw [hp] at hp'
        cases hp'
      · cases hr
      · obtain ⟨h1, h2⟩ := outcome_header hf hout hc
        exact ⟨h1, fun e => absurd e h2⟩

/-- A call on a handle, through its user or by `CollectiveImpl`. -/
inductive Turn
  | probe (size : Nat) (blocking : Bool)
  | receive (size : Nat)
  | probeHandle (size : Nat) (blocking : Bool)
  | receiveFromHandle (size : Nat)

/-- What the call returns, and what it leaves of the user and the world. -/
def turn (vt : H → CommunicationHandle W) (id : H) : Turn → HandleUser H × W → Except Stop (Ret × HandleUser H × W)
  | .probe size blocking, (u, w) => (u.probe vt size blocking w).map fun r => (r.1, r.2.2)
  | .receive size, (u, w) => (u.receive vt size w).map fun r => (r.1, r.2.2)
  | .probeHandle size blocking, (u, w) => (Mtcl.probeHandle vt id size blocking w).map fun r => (r.1, u, r.2.2)
  | .receiveFromHandle size, (u, w) => (Mtcl.receiveFromHandle vt id size w).map fun r => (r.1, u, r.2.2)

/-- The user refers to the handle, and the cache and the stream are in step. -/
def UserInStep (vt : H → CommunicationHandle W) (id : H) (At : W → Prop) (Behind : Nat → W → Prop) (Over : W → Prop)
    (s : HandleUser H × W) : Prop :=
  s.1.realHandle = some id ∧ InStep (vt id) At Behind Over s.2

/-- Every call keeps the cache and the stream in step. -/
theorem turn_framed (hf : Framed (vt id) At Behind Over) {t : Turn} {s s' : HandleUser H × W} {r : Ret}
    (hi : UserInStep vt id At Behind Over s) (h : turn vt id t s = .ok (r, s')) :
    UserInStep vt id At Behind Over s' := by
  obtain ⟨u, w⟩ := s
  obtain ⟨hu, hi⟩ := hi
  cases t with
  | probe size blocking =>
    rcases he : u.probe vt size blocking w with st | ⟨r1, size1, u1, w1⟩
    · rw [turn, he] at h
      cases h
    · rw [turn, he] at h
      cases h
      exact HandleUser.probe_framed hf hu hi he
  | receive size =>
    rcases he : u.receive vt size w with st | ⟨r1, bs1, u1, w1⟩
    · rw [turn, he] at h
      cases h
    · rw [turn, he] at h
      cases h
      exact HandleUser.receive_framed hf hu hi he
  | probeHandle size blocking =>
    rcases he : Mtcl.probeHandle vt id size blocking w with st | ⟨r1, size1, w1⟩
    · rw [turn, he] at h
      cases h
    · rw [turn, he] at h
      cases h
      exact ⟨hu, probeHandle_framed hf hi he⟩
  | receiveFromHandle size =>
    rcases he : Mtcl.receiveFromHandle vt id size w with st | ⟨r1, bs1, w1⟩
    · rw [turn, he] at h
      cases h
    · rw [turn, he] at h
      cases h
      exact ⟨hu, receiveFromHandle_framed hf hi he⟩

end

/-! ### Writing down the calls -/

/-- A call of `probe` or `receive` on a handle, with the world before it and after it. -/
inductive Call (H W : Type)
  | probe (h : H) (blocking : Bool) (before : W) (r : Ret) (size : Nat) (after : W)
  | receive (h : H) (n : Nat) (before : W) (r : Ret) (bs : Bytes) (after : W)

/-- The same virtual functions, with the calls of `probe` and `receive` written down. -/
def watch (vt : H → CommunicationHandle W) (h : H) : CommunicationHandle (W × List (Call H W)) where
  base s := (vt h).base s.1
  setProbed pr s := ((vt h).setProbed pr s.1, s.2)
  probe size blocking s := do
    let (r, size, w) ← (vt h).probe size blocking s.1
    return (r, size, (w, .probe h blocking s.1 r size w :: s.2))
  receive n s := do
    let (r, bs, w) ← (vt h).receive n s.1
    return (r, bs, (w, .receive h n s.1 r bs w :: s.2))
  send bs s := do
    let (r, w) ← (vt h).send bs s.1
    return (r, (w, s.2))
  close wr rd s := do
    let w ← (vt h).close wr rd s.1
    return (w, s.2)
  yield s := do
    let w ← (vt h).yield s.1
    return (w, s.2)
  incrementReferenceCounter s := do
    let w ← (vt h).incrementReferenceCounter s.1
    return (w, s.2)
  decrementReferenceCounter s := do
    let w ← (vt h).decrementReferenceCounter s.1
    return (w, s.2)

end Mtcl
