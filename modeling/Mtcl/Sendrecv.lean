import Mtcl.Base.Runs
import Mtcl.Collective.Deal
import Mtcl.Collective.Lifetime
import Mtcl.HeaderCache

/-!
# `sendrecv` where there is none

`HandleUser::sendrecv` resets the header cache of its handle before it calls the virtual `sendrecv`, which fails
with `EINVAL` on a point-to-point handle and on a context whose collective has none.  A header that was in the
cache is then read again from a transport that does not have it any more.

`Undisturbed` says that no later calls of `probe` and `receive` tell whether `sendrecv` has been called.
`sendrecv_undisturbed_iff` says when this is so: when no header of a message was cached, or the transport still
has it and the handle is readable (`Regains`).
-/

namespace Mtcl

open Arrivals Runs Sources

variable {H W : Type}

/-- `CommunicationHandle::sendrecv`. -/
def CommunicationHandle.sendrecv (_h : CommunicationHandle W) (w : W) : Except Stop (Ret × W) := .ok (.error .EINVAL, w)

/-- A call of an application that reads. -/
inductive ReadCall
  | probe (size : Nat) (blocking : Bool)
  | receive (cap : Nat)
  deriving DecidableEq, Repr

/-- What it gets: the result, and the size, if a message has been found, or the bytes. -/
inductive ReadResult
  | probed (r : Ret) (size : Option Nat)
  | received (r : Ret) (bs : Bytes)
  deriving DecidableEq, Repr

/-- The size that `probe` reports. -/
def reportedSize : Ret → Nat → Option Nat
  | .ok (_ + 1), size => some size
  | _, _ => none

namespace HandleUser

variable (vt : H → CommunicationHandle W)

/-- `HandleUser::sendrecv`, on a handle that does not override `CommunicationHandle::sendrecv`. -/
def sendrecvHandle (u : HandleUser H) (w : W) : Except Stop (Ret × W) := do
  let h ← u.deref vt
  let _ ← h.base w
  h.sendrecv (h.setProbed (false, 0) w)

/-- One call. -/
def perform : ReadCall → HandleUser H × W → Except Stop (ReadResult × (HandleUser H × W))
  | .probe size blocking, (u, w) => do
    let (r, size, u, w) ← u.probe vt size blocking w
    return (.probed r (reportedSize r size), (u, w))
  | .receive cap, (u, w) => do
    let (r, bs, u, w) ← u.receive vt cap w
    return (.received r bs, (u, w))

/-- The results of all later calls are as if `sendrecv` had not been called. -/
def Undisturbed (u : HandleUser H) (w : W) : Prop :=
  ∀ r w', u.sendrecvHandle vt w = .ok (r, w') → Alike (perform vt) (u, w) (u, w')

/-- The header of a message is cached. -/
def HeaderCached (u : HandleUser H) (w : W) : Prop :=
  ∃ h b, u.deref vt = .ok h ∧ h.base w = .ok b ∧ b.probed.1 = true ∧ b.probed.2 ≠ 0

/-- The cache of the handle is as it should be. -/
def WellCached (u : HandleUser H) (w : W) : Prop := ∀ h b, u.deref vt = .ok h → h.base w = .ok b → b.WellCached

/-- A header of a message that is cached is found again: the handle may be read, and its own `probe` still has
the header. -/
def Regains (u : HandleUser H) (w : W) : Prop :=
  ∀ h b, u.deref vt = .ok h → h.base w = .ok b → b.probed.1 = true → b.probed.2 ≠ 0 →
    u.isReadable = true ∧ b.closedRd = false ∧ ∀ size blocking,
      h.probe size blocking (h.setProbed (false, 0) w) = .ok (.ok sizeofSizeT, b.probed.2, h.setProbed (false, 0) w)

end HandleUser

/-- On a context, this is `CollectiveContext::sendrecv` with `CollectiveImpl::sendrecv`. -/
theorem sendrecv_context {C : Type} (impl : CollectiveImpl C W) (sendbuff recvbuff : Bytes) (recvsize : Nat)
    (s : CollectiveContext C × W) :
    teamUser.sendrecv (CollectiveImpl.sendrecv sendbuff recvbuff recvsize) s =
      (teamUser.sendrecvHandle (fun _ => contextHandle impl) s).map fun x => (x.1, recvbuff, x.2) := by
  show (s.1.deref >>= fun c => _) = ((s.1.deref >>= fun c => .ok c.toCommBase) >>= fun _ => _).map _
  unfold CollectiveContext.deref
  cases s.1.deleted <;> rfl

/-! ### Nothing is disturbed -/

section

variable {vt : H → CommunicationHandle W} {u : HandleUser H} {w w' : W} {h : CommunicationHandle W} {b : CommBase}

private theorem sendrecvHandle_of (hd : u.deref vt = .ok h) (hb : h.base w = .ok b) :
    u.sendrecvHandle vt w = .ok (.error .EINVAL, h.setProbed (false, 0) w) := by
  unfold HandleUser.sendrecvHandle
  rw [hd, bind_ok, hb]
  rfl

private theorem sendrecvHandle_eq_ok {r : Ret} (he : u.sendrecvHandle vt w = .ok (r, w')) :
    ∃ h b, u.deref vt = .ok h ∧ h.base w = .ok b ∧ r = .error .EINVAL ∧ w' = h.setProbed (false, 0) w := by
  unfold HandleUser.sendrecvHandle at he
  obtain ⟨h, hd, he⟩ := bind_eq_ok.1 he
  obtain ⟨b, hb, he⟩ := bind_eq_ok.1 he
  cases he
  exact ⟨h, b, hd, hb, rfl, rfl⟩

/-- What every call gets when there is nothing to read any more. -/
def overResult : ReadCall → ReadResult
  | .probe _ _ => .probed (.ok 0) none
  | .receive _ => .received (.ok 0) []

/-- A handle that is unreadable or whose read side is closed has nothing to read, unless the header of a message
is cached. -/
private theorem perform_over (hd : u.deref vt = .ok h) (hb : h.base w = .ok b)
    (hover : u.isReadable = false ∨ b.closedRd = true) (hp : b.probed.1 = true → b.probed.2 = 0) (o : ReadCall) :
    HandleUser.perform vt o (u, w) = .ok (overResult o, ({ u with newConnection := false }, w)) := by
  have hd' : ({ u with newConnection := false } : HandleUser H).deref vt = .ok h := hd
  have hprobe : ∀ size blocking, ∃ size', u.probe vt size blocking w =
      .ok (.ok 0, size', { u with newConnection := false }, w) := by
    intro size blocking
    unfold HandleUser.probe
    dsimp only
    rw [hd', bind_ok, hb, bind_ok]
    by_cases hc : b.probed.1 = true
    · rw [if_pos hc, if_pos (hp hc)]
      exact ⟨_, rfl⟩
    · rw [if_neg hc]
      by_cases hread : u.isReadable = true
      · rw [if_neg (by simp [hread]), if_pos (hover.resolve_left (by simp [hread]))]
        exact ⟨_, rfl⟩
      · rw [if_pos (by simpa using hread)]
        exact ⟨_, rfl⟩
  cases o with
  | probe size blocking =>
    obtain ⟨size', hcall⟩ := hprobe size blocking
    rw [HandleUser.perform, hcall]
    rfl
  | receive cap =>
    have hcall : u.receive vt cap w = .ok (.ok 0, [], { u with newConnection := false }, w) := by
      unfold HandleUser.receive
      rw [hd, bind_ok, hb, bind_ok]
      by_cases hc : b.probed.1 = true
      · rw [if_neg (by simp [hc])]
        dsimp only
        by_cases hread : u.isReadable = true
        · rw [if_neg (by simp [hread]), if_pos (hover.resolve_left (by simp [hread]))]
          rfl
        · rw [if_pos (by simpa using hread)]
          rfl
      · obtain ⟨size', hprobe⟩ := hprobe 0 true
        rw [if_pos (by simpa using hc), hprobe]
        rfl
    rw [HandleUser.perform, hcall]
    rfl

private theorem probe_cached (hd : u.deref vt = .ok h) (hb : h.base w = .ok b) (hc : b.probed.1 = true)
    (hn : b.probed.2 ≠ 0) (size : Nat) (blocking : Bool) :
    HandleUser.perform vt (.probe size blocking) (u, w) =
      .ok (.probed (.ok sizeofSizeT) (some b.probed.2), ({ u with newConnection := false }, w)) := by
  have hd' : ({ u with newConnection := false } : HandleUser H).deref vt = .ok h := hd
  have hcall : u.probe vt size blocking w =
      .ok (.ok sizeofSizeT, b.probed.2, { u with newConnection := false }, w) := by
    unfold HandleUser.probe
    dsimp only
    rw [hd', bind_ok, hb, bind_ok, if_pos hc, if_neg hn]
    rfl
  rw [HandleUser.perform, hcall]
  rfl

/-- Where the header is found again, every call does what it does with the cached one. -/
private theorem perform_regained (hcache : h.Caches) (hd : u.deref vt = .ok h) (hb : h.base w = .ok b)
    (hc : b.probed.1 = true) (hn : b.probed.2 ≠ 0) (hread : u.isReadable = true) (hrd : b.closedRd = false)
    (hkeeps : ∀ size blocking, h.probe size blocking (h.setProbed (false, 0) w) =
      .ok (.ok sizeofSizeT, b.probed.2, h.setProbed (false, 0) w)) (o : ReadCall) :
    HandleUser.perform vt o (u, w) = HandleUser.perform vt o (u, h.setProbed (false, 0) w) := by
  have hd' : ({ u with newConnection := false } : HandleUser H).deref vt = .ok h := hd
  have hb' : h.base (h.setProbed (false, 0) w) = .ok { b with probed := (false, 0) } := by
    rw [hcache.base_setProbed, hb]
    rfl
  have hback : h.setProbed (true, b.probed.2) (h.setProbed (false, 0) w) = w := by
    have hpair : (true, b.probed.2) = b.probed := by rw [← hc]
    rw [hcache.setProbed_setProbed, hpair, hcache.setProbed_self hb]
  have hprobe : ∀ size blocking, u.probe vt size blocking (h.setProbed (false, 0) w) =
      .ok (.ok sizeofSizeT, b.probed.2, { u with newConnection := false }, w) := by
    intro size blocking
    unfold HandleUser.probe
    dsimp only
    rw [hd', bind_ok, hb', bind_ok, if_neg (by simp), if_neg (by simp [hread]), if_neg (by simp [hrd]), hkeeps, bind_ok]
    dsimp only
    rw [if_neg hn, hback]
    rfl
  cases o with
  | probe size blocking =>
    rw [probe_cached hd hb hc hn]
    rw [HandleUser.perform, hprobe]
    rfl
  | receive cap =>
    have hwith : u.receive vt cap w = ({ u with newConnection := false } : HandleUser H).receiveProbed vt cap w := by
      unfold HandleUser.receive
      rw [hd, bind_ok, hb, bind_ok, if_neg (by simp [hc])]
      dsimp only
      rw [if_neg (by simp [hread]), if_neg (by simp [hrd])]
    have hwithout : u.receive vt cap (h.setProbed (false, 0) w) =
        ({ u with newConnection := false } : HandleUser H).receiveProbed vt cap w := by
      unfold HandleUser.receive
      rw [hd, bind_ok, hb', bind_ok, if_pos (by simp), hprobe]
      rfl
    rw [HandleUser.perform, HandleUser.perform, hwith, hwithout]

/-- Nothing is disturbed when a header that is cached is found again. -/
theorem undisturbed_of_regains (hcache : ∀ h, (vt h).Caches) (hwell : u.WellCached vt w) (hregains : u.Regains vt w) :
    u.Undisturbed vt w := by
  intro r w' he
  obtain ⟨h, b, hd, hb, -, rfl⟩ := sendrecvHandle_eq_ok he
  obtain ⟨id, -, rfl⟩ := HandleUser.deref_eq_ok.1 hd
  obtain ⟨hnone, heos⟩ := hwell _ b hd hb
  by_cases hc : b.probed.1 = true
  · by_cases hn : b.probed.2 = 0
    · -- EOS is cached: there is nothing to read with it or without it
      have hrd : b.closedRd = true := heos (Prod.ext hc hn)
      have hb' : (vt id).base ((vt id).setProbed (false, 0) w) = .ok { b with probed := (false, 0) } := by
        rw [(hcache id).base_setProbed, hb]
        rfl
      refine alike_of_keeps (R := fun s s' => s.1 = s'.1 ∧ s.1.deref vt = .ok (vt id) ∧ s.2 = w ∧
        s'.2 = (vt id).setProbed (false, 0) w) ?_ ⟨rfl, hd, rfl, rfl⟩
      rintro ⟨v, _⟩ ⟨_, _⟩ o ⟨rfl, hv, rfl, rfl⟩
      have hv' : ({ v with newConnection := false } : HandleUser H).deref vt = .ok (vt id) := hv
      refine ⟨_, _, _, perform_over hv hb (Or.inr hrd) (fun _ => hn) o,
        perform_over hv hb' (Or.inr hrd) (fun h => by cases h) o, rfl, hv', rfl, rfl⟩
    · obtain ⟨hread, hrd, hkeeps⟩ := hregains _ b hd hb hc hn
      exact alike_of_step (perform_regained (hcache id) hd hb hc hn hread hrd hkeeps)
  · have hpair : b.probed = (false, 0) := Prod.ext (Bool.eq_false_iff.2 hc) (hnone (Bool.eq_false_iff.2 hc))
    have hsame : (vt id).setProbed (false, 0) w = w := by
      rw [← hpair, (hcache id).setProbed_self hb]
    rw [hsame]
    exact fun _ => rfl

/-- A handle that cannot be read does not find the header again. -/
theorem readable_of_undisturbed (hcache : ∀ h, (vt h).Caches) (hd : u.deref vt = .ok h) (hb : h.base w = .ok b)
    (hc : b.probed.1 = true) (hn : b.probed.2 ≠ 0) (hund : u.Undisturbed vt w) :
    u.isReadable = true ∧ b.closedRd = false := by
  by_contra hnot
  have hover : u.isReadable = false ∨ b.closedRd = true := by
    cases hread : u.isReadable with
    | false => exact Or.inl rfl
    | true =>
      right
      by_contra hrd
      exact hnot ⟨hread, Bool.eq_false_iff.2 hrd⟩
  obtain ⟨id, -, rfl⟩ := HandleUser.deref_eq_ok.1 hd
  have hb' : (vt id).base ((vt id).setProbed (false, 0) w) = .ok { b with probed := (false, 0) } := by
    rw [(hcache id).base_setProbed, hb]
    rfl
  obtain ⟨t, hcall, -⟩ := (hund _ _ (sendrecvHandle_of hd hb)).next (probe_cached hd hb hc hn 0 true)
  rw [perform_over hd hb' hover (fun h => by cases h)] at hcall
  cases hcall

/-- On a handle that keeps the header of a message until the message is received, being readable is all that it
takes. -/
theorem undisturbed_iff_of_kept (hcache : ∀ h, (vt h).Caches) (hwell : u.WellCached vt w)
    (hkept : ∀ h b, u.deref vt = .ok h → h.base w = .ok b → b.probed.1 = true → b.probed.2 ≠ 0 → u.isReadable = true →
      b.closedRd = false → ∀ size blocking,
      h.probe size blocking (h.setProbed (false, 0) w) = .ok (.ok sizeofSizeT, b.probed.2, h.setProbed (false, 0) w)) :
    u.Undisturbed vt w ↔ u.Regains vt w := by
  constructor
  · intro hund h b hd hb hc hn
    obtain ⟨hread, hrd⟩ := readable_of_undisturbed hcache hd hb hc hn hund
    exact ⟨hread, hrd, hkept h b hd hb hc hn hread hrd⟩
  · exact undisturbed_of_regains hcache hwell

/-- A header that the handle cannot find again without it is missed. -/
theorem disturbed_of_fails (hd : u.deref vt = .ok h) (hb : h.base w = .ok b) (hc : b.probed.1 = true)
    (hn : b.probed.2 ≠ 0) (hcache : ∀ h, (vt h).Caches) {st : Stop}
    (hfails : h.probe 0 true (h.setProbed (false, 0) w) = .error st) : ¬ u.Undisturbed vt w := by
  intro hund
  obtain ⟨hread, hrd⟩ := readable_of_undisturbed hcache hd hb hc hn hund
  obtain ⟨id, -, rfl⟩ := HandleUser.deref_eq_ok.1 hd
  have hd' : ({ u with newConnection := false } : HandleUser H).deref vt = .ok (vt id) := hd
  have hb' : (vt id).base ((vt id).setProbed (false, 0) w) = .ok { b with probed := (false, 0) } := by
    rw [(hcache id).base_setProbed, hb]
    rfl
  have hcall : u.probe vt 0 true ((vt id).setProbed (false, 0) w) = .error st := by
    unfold HandleUser.probe
    dsimp only
    rw [hd', bind_ok, hb', bind_ok, if_neg (by simp), if_neg (by simp [hread]), if_neg (by simp [hrd]), hfails]
    rfl
  obtain ⟨t, hcall', -⟩ := (hund _ _ (sendrecvHandle_of hd hb)).next (probe_cached hd hb hc hn 0 true)
  rw [HandleUser.perform, hcall] at hcall'
  cases hcall'

/-- Nothing is cached that `sendrecv` could lose. -/
theorem undisturbed_of_uncached (hcache : ∀ h, (vt h).Caches) (hwell : u.WellCached vt w)
    (hun : ¬ u.HeaderCached vt w) : u.Undisturbed vt w :=
  undisturbed_of_regains hcache hwell fun h b hd hb hc hn => absurd ⟨h, b, hd, hb, hc, hn⟩ hun

/-! ### The cache of a handle in every state -/

/-- A handle with such a cache has one behind every `probe`. -/
private theorem probe_wellCached (hcache : ∀ h, (vt h).Caches) {u' : HandleUser H} {size size' : Nat}
    {blocking : Bool} {r : Ret} (hwell : u.WellCached vt w)
    (hcall : u.probe vt size blocking w = .ok (r, size', u', w')) : u'.WellCached vt w' := by
  obtain ⟨id, b, hu, hu', hb, hcases⟩ := HandleUser.probe_cases hcall
  have hd : u.deref vt = .ok (vt id) := HandleUser.deref_eq_ok.2 ⟨id, hu, rfl⟩
  intro h b' hd' hb'
  obtain ⟨_, hid, rfl⟩ := HandleUser.deref_eq_ok.1 hd'
  rw [hu'] at hid
  cases hid
  rcases hcases with ⟨rfl, -⟩ | ⟨-, -, -, -, r0, w0, hprobe, hout⟩
  · exact hwell _ _ hd hb'
  · have hw0 : ∀ b0, (vt id).base w0 = .ok b0 → b0.WellCached := by
      intro b0 hb0
      obtain ⟨b1, hb1, hp, hrd⟩ := (hcache id).probe hprobe hb0
      obtain ⟨h1, h2⟩ := hwell _ _ hd hb1
      unfold CommBase.WellCached
      rw [hp, hrd]
      exact ⟨h1, h2⟩
    cases hout with
    | closed hr hc =>
      obtain ⟨b1, hb1, hp, hrd⟩ := (hcache id).close hc hb'
      obtain ⟨h1, -⟩ := hw0 _ hb1
      rw [Bool.or_true] at hrd
      exact ⟨fun h => by rw [hp] at h ⊢; exact h1 h, fun _ => hrd⟩
    | failed he => exact hw0 _ hb'
    | eos hsize hc =>
      obtain ⟨b1, hb1, hp, hrd⟩ := (hcache id).close hc hb'
      rw [Bool.or_true] at hrd
      rw [(hcache id).base_setProbed] at hb1
      obtain ⟨b0, -, rfl⟩ := map_eq_ok hb1
      refine ⟨fun h => ?_, fun _ => hrd⟩
      rw [hp] at h
      cases h
    | header hsize =>
      rw [(hcache id).base_setProbed] at hb'
      obtain ⟨b0, -, rfl⟩ := map_eq_ok hb'
      refine ⟨fun h => ?_, fun h => ?_⟩
      · cases h
      · exact absurd (Prod.mk.inj h).2 hsize

/-- Every call that reads keeps the cache of the handle as it should be. -/
theorem perform_wellCached (hcache : ∀ h, (vt h).Caches) {o : ReadCall} {s s' : HandleUser H × W} {r : ReadResult}
    (hwell : s.1.WellCached vt s.2) (hcall : HandleUser.perform vt o s = .ok (r, s')) : s'.1.WellCached vt s'.2 := by
  obtain ⟨u, w⟩ := s
  -- the end of `receive` leaves the cache, or empties it
  have hprobed : ∀ {v v' : HandleUser H} {w w' : W} {cap : Nat} {r : Ret} {bs : Bytes}, v.WellCached vt w →
      v.receiveProbed vt cap w = .ok (r, bs, v', w') → v'.WellCached vt w' := by
    intro v v' w w' cap r bs hv hend
    obtain ⟨rfl, id, b, hu, hb, ⟨-, -, -, rfl⟩ | ⟨-, hrecv⟩⟩ := HandleUser.receiveProbed_cases hend
    · exact hv
    · intro h b' hd' hb'
      obtain ⟨_, hid, rfl⟩ := HandleUser.deref_eq_ok.1 hd'
      rw [hu] at hid
      cases hid
      obtain ⟨b1, hb1, hp, -⟩ := (hcache id).receive hrecv hb'
      rw [(hcache id).base_setProbed] at hb1
      obtain ⟨b0, -, rfl⟩ := map_eq_ok hb1
      refine ⟨fun _ => by rw [hp], fun h => ?_⟩
      rw [hp] at h
      cases h
  cases o with
  | probe size blocking =>
    obtain ⟨⟨r1, size1, u1, w1⟩, hprobe, hcall⟩ := bind_eq_ok.1 hcall
    cases hcall
    exact probe_wellCached hcache hwell hprobe
  | receive cap =>
    obtain ⟨⟨r1, bs1, u1, w1⟩, hrecv, hcall⟩ := bind_eq_ok.1 hcall
    cases hcall
    obtain ⟨id, b, hu, hb, hcases⟩ := HandleUser.receive_cases hrecv
    rcases hcases with ⟨-, -, -, -, rfl, rfl⟩ | ⟨-, -, -, hend⟩ |
      ⟨-, r0, size0, u0, w0, hprobe, ⟨-, -, -, rfl, rfl⟩ | ⟨-, hend⟩⟩
    · exact hwell
    · have hwell' : ({ u with newConnection := false } : HandleUser H).WellCached vt w := hwell
      exact hprobed hwell' hend
    · exact probe_wellCached hcache hwell hprobe
    · exact hprobed (probe_wellCached hcache hwell hprobe) hend

end

/-! ### A header that is lost -/

/-- What the virtual functions of a handle take off a stream of bytes: a header, unless the stream ends in it,
and the bytes of a message. -/
structure Streams (h : CommunicationHandle W) (stream : W → Bytes) (I : W → Prop) : Prop where
  probe : ∀ {size n w w'}, I w → h.probe size true w = .ok (.ok sizeofSizeT, n, w') → n ≠ 0 →
    I w' ∧ ((∃ hdr, hdr.length = sizeofSizeT ∧ Words.ofBE hdr = n ∧ stream w = hdr ++ stream w') ∨ stream w' = [])
  receive : ∀ {n k w x w'}, I w → h.receive n w = .ok (.ok k, x, w') → I w' ∧ stream w = x ++ stream w'
  setProbed : ∀ pr {w}, I w → I (h.setProbed pr w) ∧ stream (h.setProbed pr w) = stream w

/-- The bytes behind the header of a message do not begin with the frames of this message and of those that
follow: such a frame would have to come without its header, so that its size would be that of EOS. -/
private theorem not_prefixed {closed : Bool} {m : Bytes} {q : List Bytes} (hm : m ≠ [])
    (hlt : m.length < 256 ^ sizeofSizeT) : ¬ (m :: q).flatMap frame <+: m ++ encode closed q := by
  rintro ⟨rest, he⟩
  unfold encode at he
  rw [List.flatMap_cons] at he
  have hlen := congrArg List.length he
  simp only [List.length_append] at hlen
  have hframe : (frame m).length = sizeofSizeT + m.length := by
    unfold frame
    rw [List.length_append, Words.length_toBE]
  rw [hframe] at hlen
  cases closed with
  | false =>
    have hnil : (if false = true then List.replicate sizeofSizeT (0 : UInt8) else []).length = 0 := rfl
    rw [hnil] at hlen
    have hpos : 0 < sizeofSizeT := by decide
    omega
  | true =>
    have hzeros : (if true = true then List.replicate sizeofSizeT (0 : UInt8) else []).length = sizeofSizeT := rfl
    rw [hzeros] at hlen
    have hrest : rest = [] := List.length_eq_zero_iff.1 (by omega)
    rw [hrest, List.append_nil, if_pos rfl] at he
    have hperm : (Words.toBE sizeofSizeT m.length ++ (m ++ q.flatMap frame)).Perm
        (List.replicate sizeofSizeT 0 ++ (m ++ q.flatMap frame)) := by
      have h1 : Words.toBE sizeofSizeT m.length ++ (m ++ q.flatMap frame) =
          m ++ (q.flatMap frame ++ List.replicate sizeofSizeT 0) := by
        rw [← he]
        unfold frame
        rw [List.append_assoc]
      rw [h1, ← List.append_assoc]
      exact List.perm_append_comm
    have hzero : Words.toBE sizeofSizeT m.length = List.replicate sizeofSizeT 0 :=
      List.perm_replicate.1 ((List.perm_append_right_iff _).1 hperm)
    have hsize := Words.ofBE_toBE hlt
    rw [hzero] at hsize
    have hzero' : Words.ofBE (List.replicate sizeofSizeT 0) = 0 := by decide
    rw [hzero'] at hsize
    exact hm (List.length_eq_zero_iff.1 hsize.symm)

section

variable {vt : H → CommunicationHandle W} {u : HandleUser H} {w w' : W} {id : H} {closed : Bool} {stop : Stop}
  {Waits : Phase (List Bytes) Bytes → Prop} {J : Phase (List Bytes) Bytes → W → Prop}
      {stream : W → Bytes} {I : W → Prop}

/-- A reader on the stream, with nothing in the cache. -/
private structure Rereads (vt : H → CommunicationHandle W) (id : H) (I : W → Prop) (s : HandleUser H × W) : Prop where
  realHandle : s.1.realHandle = some id
  kept : I s.2
  uncached : ∀ b, (vt id).base s.2 = .ok b → b.probed.1 = false

/-- A reader with an empty cache that gets a message takes the frame of the message off the stream. -/
private theorem Rereads.message (hs : Streams (vt id) stream I) (hcache : (vt id).Caches) {s t t' : HandleUser H × W}
    (h : Rereads vt id I s) {m : Bytes} (hm : m ≠ [])
    (hprobe : HandleUser.perform vt (.probe 0 true) s = .ok (.probed (.ok sizeofSizeT) (some m.length), t))
    (hreceive : HandleUser.perform vt (.receive m.length) t = .ok (.received (.ok m.length) m, t')) :
    Rereads vt id I t' ∧ stream s.2 = frame m ++ stream t'.2 := by
  have hlen : m.length ≠ 0 := fun e => hm (List.length_eq_zero_iff.1 e)
  obtain ⟨hu, hI, hun⟩ := h
  obtain ⟨u, w⟩ := s
  -- the header
  obtain ⟨⟨r1, n, u1, w1⟩, hcall, hprobe⟩ := bind_eq_ok.1 hprobe
  obtain ⟨hres, rfl⟩ := Prod.mk.inj (Except.ok.inj hprobe)
  obtain ⟨rfl, hsize⟩ := ReadResult.probed.inj hres
  have hn : n = m.length := Option.some.inj hsize
  subst hn
  obtain ⟨_, b, hid, hu1, hb, hcases⟩ := HandleUser.probe_cases hcall
  rw [hu] at hid
  cases hid
  rcases hcases with ⟨-, -, ⟨hc, -⟩ | ⟨-, -, -, hr⟩⟩ | ⟨-, -, -, -, r0, w0, hraw, hout⟩
  · rw [hun b hb] at hc
    cases hc
  · cases hr
  obtain ⟨rfl, rfl⟩ : r0 = .ok sizeofSizeT ∧ w1 = (vt id).setProbed (true, m.length) w0 := by
    generalize hr : (Except.ok sizeofSizeT : Ret) = r at hout
    cases hout with
    | closed => cases hr
    | failed => cases hr
    | eos => cases hr
    | header => exact ⟨rfl, rfl⟩
  obtain ⟨hI0, hstream⟩ := hs.probe hI hraw hlen
  obtain ⟨hI1, hstream1⟩ := hs.setProbed (true, m.length) hI0
  -- the message
  obtain ⟨⟨r2, x, u2, w2⟩, hcall2, hreceive⟩ := bind_eq_ok.1 hreceive
  obtain ⟨hres2, rfl⟩ := Prod.mk.inj (Except.ok.inj hreceive)
  obtain ⟨rfl, rfl⟩ := ReadResult.received.inj hres2
  have hu2 : u2.realHandle = some id := (HandleUser.receive_user hcall2).trans hu1
  have hprobed : ∀ pr w b, (vt id).base ((vt id).setProbed pr w) = .ok b → b.probed = pr := by
    intro pr w b hb
    rw [hcache.base_setProbed] at hb
    obtain ⟨b0, -, rfl⟩ := map_eq_ok hb
    rfl
  obtain ⟨_, b1, hid1, hb1, hcases2⟩ := HandleUser.receive_cases hcall2
  rw [hu1] at hid1
  cases hid1
  have hb1' := hprobed _ _ _ hb1
  rcases hcases2 with ⟨-, -, hr, -⟩ | ⟨-, -, -, hend⟩ | ⟨hc, -⟩
  · exact absurd (Except.ok.inj hr) hlen
  · obtain ⟨-, _, b2, hid2, hb2, hend⟩ := HandleUser.receiveProbed_cases hend
    change u1.realHandle = some _ at hid2
    rw [hu1] at hid2
    cases hid2
    rw [hprobed _ _ _ hb2] at hend
    rcases hend with ⟨hlt, -⟩ | ⟨-, hraw2⟩
    · exact absurd hlt (Nat.lt_irrefl _)
    · obtain ⟨hI2, hstream2⟩ := hs.setProbed (false, 0) hI1
      obtain ⟨hI3, hstream3⟩ := hs.receive hI2 hraw2
      refine ⟨⟨hu2, hI3, fun b hb => ?_⟩, ?_⟩
      · obtain ⟨b', hb', hp, -⟩ := hcache.receive hraw2 hb
        rw [hp, hprobed _ _ _ hb']
      · rw [hstream2, hstream1] at hstream3
        rcases hstream with ⟨hdr, hhdr, hof, hw⟩ | hdry
        · have hword := Words.toBE_ofBE hdr
          rw [hhdr, hof] at hword
          show stream w = _
          rw [hw, hstream3, ← hword]
          unfold frame
          rw [List.append_assoc]
        · rw [hdry] at hstream3
          exact absurd (List.append_eq_nil_iff.1 hstream3.symm).1 hm
  · rw [hb1'] at hc
    cases hc

private theorem stuck_queue {ph : Phase (List Bytes) Bytes} (h : Stuck (queue closed) ph) : ph = .idle [] := by
  obtain ⟨q, rfl, -, hn⟩ := h
  cases q with
  | nil => rfl
  | cons m q => exact absurd rfl (hn m q)

/-- What a reader before the next header gets of a queue, and where it stands then. -/
private theorem perform_message (hr : Furnishes stop (vt id) (queue closed) J Waits)
    (hw : ∀ {ph}, Waits ph → ph = .idle []) {m : Bytes} {q : List Bytes} (h : Owns J id (.opened m q) (u, w)) :
    HandleUser.perform vt (.probe 0 true) (u, w) =
        .ok (.probed (.ok sizeofSizeT) (some m.length), ({ u with newConnection := false }, w)) ∧
      ∃ w', HandleUser.perform vt (.receive m.length) ({ u with newConnection := false }, w) =
          .ok (.received (.ok m.length) m, ({ u with newConnection := false }, w')) ∧
        Owns J id (.idle q) ({ u with newConnection := false }, w') := by
  have h' : Owns J id (.opened m q) ({ u with newConnection := false }, w) := h
  have hend := Furnishes.receiveProbed_opened hr h' m.length
  rw [if_neg (Nat.lt_irrefl _)] at hend
  rcases hend with ⟨w', hend, howns⟩ | ⟨hwait, -⟩
  · refine ⟨?_, w', ?_, howns⟩
    · rw [HandleUser.perform, Furnishes.probe_opened hr h]
      rfl
    · rw [HandleUser.perform, Furnishes.receive_opened hr h', hend]
      rfl
  · cases hw hwait

/-- A reader with an empty cache that cannot be told from one before the messages of a queue has their frames
before it. -/
private theorem prefix_of_alike (hr : Furnishes stop (vt id) (queue closed) J Waits)
    (hw : ∀ {ph}, Waits ph → ph = .idle []) (hs : Streams (vt id) stream I) (hcache : (vt id).Caches)
    {q : List Bytes} {s t : HandleUser H × W} (hA : Owns J id (.idle q) s) (hB : Rereads vt id I t)
    (halike : Alike (HandleUser.perform vt) s t) : q.flatMap frame <+: stream t.2 := by
  induction q generalizing s t with
  | nil => exact List.nil_prefix
  | cons m q ih =>
    obtain ⟨u, w⟩ := s
    rcases Furnishes.probe_idle hr hA 0 with ⟨m', q', w1, hn, hcall, hopened⟩ | ⟨⟨hnil, -⟩, -⟩ | ⟨hwait, -⟩
    · cases hn
      have hm : m ≠ [] := (hr.opened hopened.2.1).1
      have hprobe : HandleUser.perform vt (.probe 0 true) (u, w) =
          .ok (.probed (.ok sizeofSizeT) (some m.length), ({ u with newConnection := false }, w1)) := by
        rw [HandleUser.perform, hcall]
        rfl
      obtain ⟨-, w2, hreceive, hidle⟩ := perform_message hr hw hopened
      obtain ⟨t1, hprobe', halike1⟩ := halike.next hprobe
      obtain ⟨t2, hreceive', halike2⟩ := halike1.next hreceive
      obtain ⟨hB2, hstream⟩ := hB.message hs hcache hm hprobe' hreceive'
      rw [hstream, List.flatMap_cons]
      exact (List.prefix_append_right_inj _).2 (ih hidle hB2 halike2)
    · cases hnil
    · cases hw hwait

/-- On a stream of frames, a header that has been taken off the stream is not found again. -/
theorem disturbed_of_streams (hr : Furnishes stop (vt id) (queue closed) J Waits)
    (hw : ∀ {ph}, Waits ph → ph = .idle []) (hs : Streams (vt id) stream I) (hcache : (vt id).Caches)
    {m : Bytes} {q : List Bytes} (h : Owns J id (.opened m q) (u, w)) (hI : I w)
    (hlt : m.length < 256 ^ sizeofSizeT) (hstream : stream w = m ++ encode closed q) : ¬ u.Undisturbed vt w := by
  intro hund
  obtain ⟨hm, b, hb, -, -⟩ := hr.opened h.2.1
  have hd : u.deref vt = .ok (vt id) := by
    unfold HandleUser.deref
    rw [h.1]
  have hB : Rereads vt id I (u, (vt id).setProbed (false, 0) w) := by
    refine ⟨h.1, (hs.setProbed _ hI).1, fun b' hb' => ?_⟩
    rw [hcache.base_setProbed] at hb'
    obtain ⟨b0, -, rfl⟩ := map_eq_ok hb'
    rfl
  have halike := hund _ _ (sendrecvHandle_of hd hb)
  obtain ⟨hprobe, w2, hreceive, hidle⟩ := perform_message hr hw h
  obtain ⟨t1, hprobe', halike1⟩ := halike.next hprobe
  obtain ⟨t2, hreceive', halike2⟩ := halike1.next hreceive
  obtain ⟨hB2, hframe⟩ := hB.message hs hcache hm hprobe' hreceive'
  have hprefix : (m :: q).flatMap frame <+: m ++ encode closed q := by
    have hsame : stream w = frame m ++ stream t2.2 := (hs.setProbed _ hI).2.symm.trans hframe
    rw [← hstream, hsame, List.flatMap_cons]
    exact (List.prefix_append_right_inj _).2 (prefix_of_alike hr hw hs hcache hidle hB2 halike2)
  exact not_prefixed hm hlt hprefix

end

/-! ### Handles that read a stream -/

/-- Nothing more arrives behind an end of file or an error. -/
def LastRead (id : Nat) (p : Process) : Prop :=
  p.Live id ∧ incoming (afterLead (p.handles id).incoming) = []

/-- What `readn` takes off such a stream: all that it was asked for, or all that there is. -/
private theorem readn_incoming {n : Nat} {s s' : List SockArrival} {r : Ret} {bs : Bytes}
    (hlast : incoming (afterLead s) = []) (hread : readn n s = .ok (r, bs, s')) :
    incoming (afterLead s') = [] ∧ incoming s = bs ++ incoming s' ∧ (bs.length = n ∨ incoming s' = []) := by
  have hin : incoming s = lead s := by rw [incoming_eq, hlast, List.append_nil]
  rw [readn_eq] at hread
  by_cases hle : n ≤ (lead s).length
  · rw [if_pos hle] at hread
    cases hread
    obtain ⟨hlead, hafter⟩ := dropItems_lead hle
    refine ⟨by rw [hafter, hlast], ?_, Or.inl ?_⟩
    · rw [incoming_dropItems hle, hin, List.take_append_drop]
    · rw [List.length_take, Nat.min_eq_left hle]
  · rw [if_neg hle] at hread
    obtain ⟨rfl, hdry⟩ : bs = lead s ∧ incoming s' = [] := by
      rcases afterLead_cases s with h | ⟨t, h⟩ | ⟨e, t, h⟩
      · rw [h] at hread
        cases hread
      · rw [h] at hread
        cases hread
        exact ⟨rfl, rfl⟩
      · rw [h] at hread
        cases hread
        rw [h] at hlast
        exact ⟨rfl, hlast⟩
    refine ⟨?_, by rw [hdry, List.append_nil, hin], Or.inr hdry⟩
    rw [incoming_eq] at hdry
    exact (List.append_eq_nil_iff.1 hdry).2

private theorem tcp_streams (id : Nat) :
    Streams (tcpHandle id) (fun p => incoming (p.handles id).incoming) (LastRead id) where
  probe := by
    rintro size n p p' ⟨hlive, hlast⟩ hcall hn
    rw [hlive.probe_blocking] at hcall
    cases hread : readn sizeofSizeT (p.handles id).incoming with
    | error st =>
      rw [hread] at hcall
      cases hcall
    | ok x =>
      obtain ⟨r, bs, s⟩ := x
      obtain ⟨hlast', hstream, hall⟩ := readn_incoming hlast hread
      rw [hread] at hcall
      rcases r with e | _ | k
      · cases hcall
      · cases hcall
      · cases hcall
        refine ⟨⟨hlive.put rfl rfl, ?_⟩, ?_⟩
        · rw [Process.put_handles_self]
          exact hlast'
        · rw [Process.put_handles_self]
          rcases hall with hlen | hdry
          · have hover := overlay_full p.garbage bs
            rw [hlen] at hover
            exact Or.inl ⟨bs, hlen, by rw [hover], hstream⟩
          · exact Or.inr hdry
  receive := by
    rintro n k p x p' ⟨hlive, hlast⟩ hcall
    rw [hlive.receive] at hcall
    cases hread : readn n (p.handles id).incoming with
    | error st =>
      rw [hread] at hcall
      cases hcall
    | ok y =>
      obtain ⟨r1, bs, s⟩ := y
      obtain ⟨hlast', hstream, -⟩ := readn_incoming hlast hread
      rw [hread] at hcall
      cases hcall
      refine ⟨⟨hlive.put rfl rfl, ?_⟩, ?_⟩
      · rw [Process.put_handles_self]
        exact hlast'
      · rw [Process.put_handles_self]
        exact hstream
  setProbed := by
    rintro pr p ⟨hlive, hlast⟩
    have hin : (((tcpHandle id).setProbed pr p).handles id).incoming = (p.handles id).incoming := by
      rw [tcp_setProbed_handles]
    refine ⟨⟨hlive.put rfl rfl, ?_⟩, ?_⟩
    · rw [hin]
      exact hlast
    · show incoming _ = incoming _
      rw [hin]

private theorem fanOut_streams {vt : H → CommunicationHandle W} {h : H} {stream : W → Bytes} {I : W → Prop}
    (hs : Streams (vt h) stream I) (errno : Errno) :
    Streams (contextHandle (fanOutGeneric vt errno)) (fun s => stream s.2)
      (fun s => s.1.coll.participants = [h] ∧ I s.2) where
  probe := by
    rintro size n s s' ⟨hparts, hI⟩ hcall hn
    obtain ⟨-, coll, hs', ⟨-, hr, -⟩ | ⟨-, himpl⟩⟩ := contextHandle_probe hcall
    · cases hr
    · change FanOutGeneric.probe vt size true s.1.coll s.2 = _ at himpl
      unfold FanOutGeneric.probe at himpl
      rw [hparts] at himpl
      dsimp only at himpl
      obtain ⟨⟨r, size', w⟩, hprobe, himpl⟩ := bind_eq_ok.1 himpl
      rcases r with e | _ | k
      · cases himpl
      · cases himpl
      · dsimp only at himpl
        by_cases hsize : size' = 0
        · rw [if_pos hsize] at himpl
          obtain ⟨w1, -, himpl⟩ := bind_eq_ok.1 himpl
          obtain ⟨b, -, himpl⟩ := bind_eq_ok.1 himpl
          simp only [pure_eq_ok, Except.ok.injEq, Prod.mk.injEq] at himpl
          obtain ⟨-, rfl, -⟩ := himpl
          exact absurd hsize hn
        · rw [if_neg hsize] at himpl
          simp only [pure_eq_ok, Except.ok.injEq, Prod.mk.injEq] at himpl
          obtain ⟨hk, rfl, hcoll, hw⟩ := himpl
          rw [hk] at hprobe
          obtain ⟨hI1, hstream⟩ := hs.probe hI hprobe hn
          obtain ⟨hI2, hsame⟩ := hs.setProbed (true, size') hI1
          rw [← hw, hs', ← hcoll]
          refine ⟨⟨hparts, hI2⟩, ?_⟩
          rw [hsame]
          exact hstream
  receive := by
    rintro n k s x s' ⟨hparts, hI⟩ hcall
    obtain ⟨-, coll, hs', ⟨-, hr, -⟩ | ⟨-, himpl⟩⟩ := contextHandle_receive hcall
    · cases hr
    · change FanOutGeneric.receive vt n s.1.coll s.2 = _ at himpl
      unfold FanOutGeneric.receive at himpl
      rw [hparts] at himpl
      dsimp only [List.getElem?_cons_zero] at himpl
      obtain ⟨⟨r1, x1, w⟩, hrecv, himpl⟩ := bind_eq_ok.1 himpl
      simp only [pure_eq_ok, Except.ok.injEq, Prod.mk.injEq] at himpl
      obtain ⟨rfl, rfl, hcoll, hw⟩ := himpl
      obtain ⟨hI1, hstream⟩ := hs.receive hI hrecv
      obtain ⟨hI2, hsame⟩ := hs.setProbed (false, 0) hI1
      rw [← hw, hs', ← hcoll]
      exact ⟨⟨hparts, hI2⟩, by rw [hsame]; exact hstream⟩
  setProbed := by
    rintro pr s ⟨hparts, hI⟩
    exact ⟨⟨hparts, hI⟩, rfl⟩

/-! ### When nothing is disturbed -/

/-- Behind a header that is cached on an open read side there are the bytes of its message and whole frames. -/
def TcpBehind (u : HandleUser Nat) (p : Process) : Prop :=
  u.HeaderCached tcpHandle p → u.isReadable = true → ∀ id, u.realHandle = some id → (p.handles id).closedRd = false →
    ∃ closed m q, m.length < 256 ^ sizeofSizeT ∧ Receiving closed id (.opened m q) p ∧
      incoming (p.handles id).incoming = m ++ encode closed q

/-- The same for the handle of a worker of a fan-out. -/
def WorkerBehind (errno : Errno) (u : HandleUser Unit) (s : CollectiveContext (FanOutGeneric Nat) × Process) : Prop :=
  u.HeaderCached (fun _ => contextHandle (fanOutGeneric tcpHandle errno)) s → u.isReadable = true →
    s.1.closedRd = false → ∃ whole id m q, m.length < 256 ^ sizeofSizeT ∧
      WorkerReading id (PouringIdle whole id) (PouringOpened whole id) (.opened m q) s ∧
      incoming (s.2.handles id).incoming = m ++ encode true q

/-- A header that is cached on an open read side is still in the slot. -/
def StillInSlot (u : HandleUser Unit) (h : HandleSHM) : Prop :=
  u.HeaderCached (fun _ => shmHandle) h → u.isReadable = true → h.closedRd = false →
    h.inBuf.shmp = true ∧ h.inBuf.seg.guard = true ∧ h.inBuf.seg.size = h.probed.2

private theorem nothing_behind {s : List SockArrival} {w : List (UInt8 × Bool)} (hd : Delivers s w)
    (hin : incoming s = w.map Prod.fst) : incoming (afterLead s) = [] := by
  obtain ⟨hle, -, -⟩ := hd.take (Nat.le_refl _)
  have hlen := congrArg List.length hin
  rw [incoming_eq, List.length_append, List.length_map] at hlen
  exact List.length_eq_zero_iff.1 (by omega)

private theorem tcp_undisturbed_iff {u : HandleUser Nat} {p : Process} (hwell : u.WellCached tcpHandle p)
    (hbehind : TcpBehind u p) : u.Undisturbed tcpHandle p ↔ ¬ u.HeaderCached tcpHandle p := by
  constructor
  · intro hund hcached
    obtain ⟨h, b, hd, hb, hc, hn⟩ := id hcached
    obtain ⟨hread, hrd⟩ := readable_of_undisturbed tcp_caches hd hb hc hn hund
    obtain ⟨id, hu, rfl⟩ := HandleUser.deref_eq_ok.1 hd
    obtain ⟨k, hk, hb⟩ := bind_eq_ok.1 hb
    obtain ⟨-, -, rfl⟩ := Process.deref_eq_ok.1 hk
    cases hb
    obtain ⟨closed, m, q, hlt, hrecv, hin⟩ := hbehind hcached hread id hu hrd
    have howns : Owns (Receiving closed id) id (.opened m q) (u, p) := ⟨hu, hrecv, fun _ => hread⟩
    have hlast : LastRead id p := ⟨hrecv.1.live, nothing_behind hrecv.2.2.2.2.1 (by rw [map_fst_loose, hin])⟩
    exact disturbed_of_streams (tcp_reads closed id).hears stuck_queue (tcp_streams id)
      (tcp_caches id) howns hlast hlt hin hund
  · exact undisturbed_of_uncached tcp_caches hwell

private theorem worker_undisturbed_iff {errno : Errno} {u : HandleUser Unit}
    {s : CollectiveContext (FanOutGeneric Nat) × Process}
    (hwell : u.WellCached (fun _ => contextHandle (fanOutGeneric tcpHandle errno)) s)
    (hbehind : WorkerBehind errno u s) :
    u.Undisturbed (fun _ => contextHandle (fanOutGeneric tcpHandle errno)) s ↔
      ¬ u.HeaderCached (fun _ => contextHandle (fanOutGeneric tcpHandle errno)) s := by
  let vt : Unit → CommunicationHandle (CollectiveContext (FanOutGeneric Nat) × Process) :=
    fun _ => contextHandle (fanOutGeneric tcpHandle errno)
  have hcache : ∀ x, (vt x).Caches := fun _ => contextHandle_caches _
  constructor
  · intro hund hcached
    obtain ⟨h, b, hd, hb, hc, hn⟩ := id hcached
    obtain ⟨hread, hrd⟩ := readable_of_undisturbed hcache hd hb hc hn hund
    obtain ⟨x, hu, rfl⟩ := HandleUser.deref_eq_ok.1 hd
    obtain ⟨-, rfl⟩ := contextHandle_base.1 hb
    obtain ⟨whole, id, m, q, hlt, hworker, hin⟩ := hbehind hcached hread hrd
    have howns : Owns (WorkerReading id (PouringIdle whole id) (PouringOpened whole id)) x (.opened m q) (u, s) :=
      ⟨hu, hworker, fun _ => hread⟩
    obtain ⟨hserves, -, -, hlive, -, hdel⟩ := hworker
    have hmap : (loose m ++ framed whole q).map Prod.fst = m ++ encode true q := by
      rw [List.map_append, map_fst_loose, map_fst_framed]
    have hlast : LastRead id s.2 := ⟨hlive, nothing_behind hdel (by rw [hmap, hin])⟩
    have hopen : true = false → DeletedAtEos (tcpHandle id) (PouringIdle whole id) := fun e => nomatch e
    have hreads : Furnishes .useAfterFree (vt x) (queue true)
        (WorkerReading id (PouringIdle whole id) (PouringOpened whole id)) (· = .idle []) :=
      fanOut_furnishes (tcp_pours whole id) hopen errno
    exact disturbed_of_streams hreads (fun e => e) (fanOut_streams (tcp_streams id) errno) (hcache x) howns
      ⟨hserves.participants, hlast⟩ hlt hin hund
  · exact undisturbed_of_uncached hcache hwell

private theorem shm_undisturbed_iff {u : HandleUser Unit} {h : HandleSHM} (hwell : u.WellCached (fun _ => shmHandle) h)
    (hslot : StillInSlot u h) :
    u.Undisturbed (fun _ => shmHandle) h ↔
      (u.HeaderCached (fun _ => shmHandle) h → u.isReadable = true ∧ h.closedRd = false) := by
  have hcache : ∀ _ : Unit, shmHandle.Caches := fun _ => shm_caches
  have hkept : ∀ k b, u.deref (fun _ => shmHandle) = .ok k → k.base h = .ok b → b.probed.1 = true → b.probed.2 ≠ 0 →
      u.isReadable = true → b.closedRd = false → ∀ size blocking, k.probe size blocking (k.setProbed (false, 0) h) =
        .ok (.ok sizeofSizeT, b.probed.2, k.setProbed (false, 0) h) := by
    intro k b hd hb hc hn hread hrd size blocking
    obtain ⟨x, -, rfl⟩ := HandleUser.deref_eq_ok.1 hd
    obtain ⟨hdel, rfl⟩ := HandleSHM.base_eq_ok.1 hb
    obtain ⟨hmap, hguard, hsize⟩ := hslot ⟨_, _, hd, hb, hc, hn⟩ hread hrd
    rw [← hsize]
    exact shm_kept hdel hmap hguard size blocking
  rw [undisturbed_iff_of_kept hcache hwell hkept]
  constructor
  · rintro hregains ⟨k, b, hd, hb, hc, hn⟩
    obtain ⟨hread, hrd, -⟩ := hregains k b hd hb hc hn
    obtain ⟨x, -, rfl⟩ := HandleUser.deref_eq_ok.1 hd
    obtain ⟨-, rfl⟩ := HandleSHM.base_eq_ok.1 hb
    exact ⟨hread, hrd⟩
  · intro hopen k b hd hb hc hn
    obtain ⟨hread, hrd⟩ := hopen ⟨k, b, hd, hb, hc, hn⟩
    have hrd' : b.closedRd = false := by
      obtain ⟨x, -, rfl⟩ := HandleUser.deref_eq_ok.1 hd
      obtain ⟨-, rfl⟩ := HandleSHM.base_eq_ok.1 hb
      exact hrd
    exact ⟨hread, hrd', hkept k b hd hb hc hn hread hrd'⟩

private theorem mqtt_undisturbed_iff {garbage : Nat → UInt8} {u : HandleUser Unit} {h : HandleMQTT}
    (hwell : u.WellCached (fun _ => mqttHandle garbage) h)
    (htaken : u.HeaderCached (fun _ => mqttHandle garbage) h → h.isProbed = true ∧ h.messages = []) :
    u.Undisturbed (fun _ => mqttHandle garbage) h ↔ ¬ u.HeaderCached (fun _ => mqttHandle garbage) h := by
  have hcache : ∀ _ : Unit, (mqttHandle garbage).Caches := fun _ => mqtt_caches garbage
  constructor
  · intro hund hcached
    obtain ⟨k, b, hd, hb, hc, hn⟩ := id hcached
    obtain ⟨x, -, rfl⟩ := HandleUser.deref_eq_ok.1 hd
    obtain ⟨hdel, -⟩ := HandleMQTT.base_eq_ok.1 hb
    obtain ⟨hprobed, hmessages⟩ := htaken hcached
    have hfails : (mqttHandle garbage).probe 0 true ((mqttHandle garbage).setProbed (false, 0) h) =
        .error .undefined := by
      have hderef : ((mqttHandle garbage).setProbed (false, 0) h).deref =
          .ok ((mqttHandle garbage).setProbed (false, 0) h) :=
        HandleMQTT.deref_eq_ok.2 ⟨hdel, rfl⟩
      have hprobed' : ((mqttHandle garbage).setProbed (false, 0) h).isProbed = true := hprobed
      have hmessages' : ((mqttHandle garbage).setProbed (false, 0) h).messages = [] := hmessages
      show (((mqttHandle garbage).setProbed (false, 0) h).deref >>= fun k => k.probe garbage 0 true) = _
      rw [hderef, bind_ok]
      unfold HandleMQTT.probe
      rw [if_pos hprobed', hmessages']
    exact disturbed_of_fails hd hb hc hn hcache hfails hund
  · exact undisturbed_of_uncached hcache hwell

/-- A `sendrecv` that is not supported disturbs nothing when no header of a message is cached, and when the
handle finds again the one that is.  Over TCP, on a worker of a fan-out and over MQTT, where the header has been
taken off the transport, the first is the only case; over shared memory the header is still in the slot, and the
handle has to be readable. -/
theorem sendrecv_undisturbed_iff (errno : Errno) (garbage : Nat → UInt8) :
    (∀ {H W : Type} {vt : H → CommunicationHandle W} {u : HandleUser H} {w : W}, (∀ h, (vt h).Caches) →
      u.WellCached vt w → u.Regains vt w → u.Undisturbed vt w) ∧
    (∀ {u : HandleUser Nat} {p : Process}, u.WellCached tcpHandle p → TcpBehind u p →
      (u.Undisturbed tcpHandle p ↔ ¬ u.HeaderCached tcpHandle p)) ∧
    (∀ {u : HandleUser Unit} {s : CollectiveContext (FanOutGeneric Nat) × Process},
      u.WellCached (fun _ => contextHandle (fanOutGeneric tcpHandle errno)) s → WorkerBehind errno u s →
      (u.Undisturbed (fun _ => contextHandle (fanOutGeneric tcpHandle errno)) s ↔
        ¬ u.HeaderCached (fun _ => contextHandle (fanOutGeneric tcpHandle errno)) s)) ∧
    (∀ {u : HandleUser Unit} {h : HandleSHM}, u.WellCached (fun _ => shmHandle) h → StillInSlot u h →
      (u.Undisturbed (fun _ => shmHandle) h ↔
        (u.HeaderCached (fun _ => shmHandle) h → u.isReadable = true ∧ h.closedRd = false))) ∧
    ∀ {u : HandleUser Unit} {h : HandleMQTT}, u.WellCached (fun _ => mqttHandle garbage) h →
      (u.HeaderCached (fun _ => mqttHandle garbage) h → h.isProbed = true ∧ h.messages = []) →
      (u.Undisturbed (fun _ => mqttHandle garbage) h ↔ ¬ u.HeaderCached (fun _ => mqttHandle garbage) h) :=
  ⟨undisturbed_of_regains, tcp_undisturbed_iff, worker_undisturbed_iff, shm_undisturbed_iff, mqtt_undisturbed_iff⟩

private theorem wellCached_header {H W : Type} {vt : H → CommunicationHandle W} {u : HandleUser H} {w : W}
    {h : CommunicationHandle W} {b : CommBase} {n : Nat} (hd : u.deref vt = .ok h) (hb : h.base w = .ok b)
    (hp : b.probed = (true, n + 1)) : u.WellCached vt w := by
  intro h' b' hd' hb'
  rw [hd] at hd'
  cases hd'
  rw [hb] at hb'
  cases hb'
  unfold CommBase.WellCached
  rw [hp]
  exact ⟨nofun, nofun⟩

/-- A handle that has read the header of a message of one byte, over TCP, on a worker of a fan-out, over shared
memory and over MQTT; on the other handle nothing has come. -/
theorem sendrecv_undisturbed_run :
    (∃ (u : HandleUser Nat) (p : Process), ¬ u.HeaderCached tcpHandle p ∧ u.Undisturbed tcpHandle p) ∧
    (∃ (u : HandleUser Nat) (p : Process), ¬ u.Undisturbed tcpHandle p) ∧
    (∃ (u : HandleUser Unit) (s : CollectiveContext (FanOutGeneric Nat) × Process),
      ¬ u.Undisturbed (fun _ => contextHandle (fanOutGeneric tcpHandle .EINVAL)) s) ∧
    (∃ (u : HandleUser Unit) (h : HandleSHM), u.HeaderCached (fun _ => shmHandle) h ∧
      u.Undisturbed (fun _ => shmHandle) h) ∧
    ∃ (u : HandleUser Unit) (h : HandleMQTT), ¬ u.Undisturbed (fun _ => mqttHandle fun _ => 0) h := by
  obtain ⟨hall, htcp, hworker, hshm, hmqtt⟩ := sendrecv_undisturbed_iff .EINVAL fun _ => 0
  let k : HandleTCP := { counter := 1, fd := some 3, incoming := [.piece 7 []] }
  let p : Process := { handles := fun _ => { k with probed := (true, 1) }, allocated := 1 }
  have hsend : ∀ m ∈ ([] : List Bytes), Sendable m := fun m hm => absurd hm List.not_mem_nil
  refine ⟨⟨⟨some 0, true, false⟩, { handles := fun _ => k, allocated := 1 }, ?_⟩, ⟨⟨some 0, true, false⟩, p, ?_⟩,
    ⟨teamUser, ({ counter := 1, probed := (true, 1), canReceive := true, coll := ⟨[0], 0, false⟩ },
      { p with handles := fun _ => { k with incoming := [.piece 7 (List.replicate 8 0)] } }), ?_⟩,
    ⟨⟨some (), true, false⟩, { counter := 1, probed := (true, 1),
                               inBuf := { seg := emptySegment.fill (Fill.next 1 [7]) },
                               out := { seg := emptySegment } }, ?_⟩,
    ⟨some (), true, false⟩, { counter := 1, probed := (true, 1), isProbed := true, client := [([], [7])] }, ?_⟩
  · have hun : ¬ (⟨some 0, true, false⟩ : HandleUser Nat).HeaderCached tcpHandle
        { handles := fun _ => k, allocated := 1 } := by
      rintro ⟨h, b, hd, hb, hc, -⟩
      cases hd
      cases hb
      cases hc
    refine ⟨hun, hall tcp_caches ?_ fun h b hd hb hc hn => absurd ⟨h, b, hd, hb, hc, hn⟩ hun⟩
    intro h b hd hb
    cases hd
    cases hb
    exact ⟨fun _ => rfl, fun h => by cases h⟩
  · refine fun hund => (htcp ?_ ?_).1 hund ⟨_, _, rfl, rfl, rfl, Nat.one_ne_zero⟩
    · exact wellCached_header rfl rfl rfl
    · rintro - - id hid -
      cases hid
      refine ⟨false, [7], [], by decide, ⟨⟨⟨Nat.one_pos, rfl, Option.some_ne_none 3⟩, rfl, Int.one_pos⟩, rfl,
        List.cons_ne_nil _ _, hsend, Or.inr ⟨by decide, by decide, rfl⟩, fun _ => ⟨rfl, rfl⟩⟩, rfl⟩
  · refine fun hund => (hworker ?_ ?_).1 hund ⟨_, _, rfl, rfl, rfl, Nat.one_ne_zero⟩
    · exact wellCached_header rfl rfl rfl
    · rintro - - -
      refine ⟨false, 0, [7], [], by decide, ⟨⟨rfl, rfl, rfl, rfl, rfl⟩, rfl, List.cons_ne_nil _ _,
        ⟨Nat.one_pos, rfl, Option.some_ne_none 3⟩, hsend, Or.inr ⟨by decide, by decide, rfl⟩⟩, rfl⟩
  · refine ⟨⟨_, _, rfl, rfl, rfl, Nat.one_ne_zero⟩, (hshm ?_ ?_).2 fun _ => ⟨rfl, rfl⟩⟩
    · exact wellCached_header rfl rfl rfl
    · rintro - - -
      exact ⟨rfl, rfl, rfl⟩
  · refine fun hund => (hmqtt ?_ ?_).1 hund ⟨_, _, rfl, rfl, rfl, Nat.one_ne_zero⟩
    · exact wellCached_header rfl rfl rfl
    · exact fun _ => ⟨rfl, rfl⟩

/-- A message of one byte has arrived and its size has been looked at.  `receive` brings the message; after a
`sendrecv` it waits for a header that it has read already. -/
theorem sendrecv_loses :
    ∃ (s : App) (p' : Process), s.Reachable ∧
      (s.vars 0).sendrecvHandle tcpHandle s.proc = .ok (.error .EINVAL, p') ∧
      (HandleUser.perform tcpHandle (.receive 1) (s.vars 0, s.proc)).map Prod.fst = .ok (.received (.ok 1) [7]) ∧
      HandleUser.perform tcpHandle (.receive 1) (s.vars 0, p') = .error .blocked ∧
      ¬ (s.vars 0).Undisturbed tcpHandle s.proc := by
  have h0 : App.Reachable {} := .start ⟨fun _ => 0, rfl, fun _ => rfl⟩
  have h1 := Runs.Reach.next (Op.connect 0 (some { fd := 3, incoming := [.piece 0 [0, 0, 0, 0, 0, 0, 1, 7]] })) h0 rfl
  have h2 := Runs.Reach.next (Op.probe 0 0 true) h1 rfl
  refine ⟨_, _, h2, rfl, rfl, rfl, fun hund => ?_⟩
  have hcall := hund _ _ rfl [.receive 1]
  cases hcall

end Mtcl
