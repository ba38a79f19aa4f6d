import Mtcl.Tcp.Invariant

/-!
# Draining a connection

`ConnType::setAsClosed` sends EOS on a handle and, when it is told to wait, discards what the peer still sends
until its EOS comes.  `probe` has three outcomes here (an error, a header, the end of the stream), and only the
value it leaves in the size ends the loop by `break`; at the end of the stream that is the size of the message
before.

`Process.setAsClosed_drains` says for which streams the draining ends: those whose headers lead to an EOS header
(`ReachesEos`).  On a stream that ends without one the loop turns for ever.
-/

namespace Mtcl

open Arrivals

namespace ConnType

variable {W : Type}

/-- One turn of the loop of `setAsClosed`, once the size of the next message is known; `none` when the loop goes on. -/
def drainMessage (h : CommunicationHandle W) (sz : Nat) (w : W) : Except Stop (Option Bool × W) :=
  if sz = 0 then .ok (some true, w)
  else do
    let (r, _, w) ← h.receive sz w
    match r with
    | .error _ => return (some false, w)
    | .ok _ => return (none, h.setProbed (false, 0) w)

/-- The loop of `setAsClosed`, with at most `fuel` turns; it is left by `break` (`true`) or by `return` (`false`). -/
def drainLoop (h : CommunicationHandle W) : Nat → Nat → W → Except Stop (Bool × W)
  | 0, _, _ => .error .outOfFuel
  | fuel + 1, sz, w => do
    let b ← h.base w
    let (r, sz, w) ← (if b.probed.1 then .ok (.ok sizeofSizeT, b.probed.2, w) else h.probe sz true w)
    match r with
    | .error _ => return (false, w)
    | .ok _ =>
      let (left, w) ← drainMessage h sz w
      match left with
      | some left => return (left, w)
      | none => drainLoop h fuel sz w

/-- `ConnType::setAsClosed`. -/
def setAsClosed (h : CommunicationHandle W) (fuel : Nat) (blockflag : Bool) (w : W) : Except Stop W := do
  let b ← h.base w
  -- send EOS if not already sent
  let w ← (if b.closedWr then .ok w else h.close true false w)
  let b ← h.base w
  let (left, w) ← (if blockflag && !b.closedRd then drainLoop h fuel 1 w else .ok (true, w))
  if left then h.close false true w else return w

end ConnType

/-! ### What `setAsClosed` keeps -/

namespace ConnType

variable {W : Type} {h : CommunicationHandle W} {I : W → Prop}

private theorem drainLoop_keeps (hk : h.Keeps I) {fuel sz : Nat} {w w' : W} {left : Bool} (hw : I w)
    (he : drainLoop h fuel sz w = .ok (left, w')) : I w' := by
  induction fuel generalizing sz w with
  | zero => cases he
  | succ fuel ih =>
    unfold drainLoop at he
    obtain ⟨b, -, he⟩ := bind_eq_ok.1 he
    obtain ⟨⟨r, sz1, w1⟩, h1, he⟩ := bind_eq_ok.1 he
    have hw1 : I w1 := by
      split at h1
      · cases h1
        exact hw
      · exact hk.probe hw h1
    rcases r with e | n
    · cases he
      exact hw1
    · obtain ⟨⟨o, w2⟩, h2, he⟩ := bind_eq_ok.1 he
      have hw2 : I w2 := by
        unfold drainMessage at h2
        split at h2
        · cases h2
          exact hw1
        · obtain ⟨⟨r, bs, w3⟩, h3, h2⟩ := bind_eq_ok.1 h2
          have hw3 := hk.receive hw1 h3
          rcases r with e | k
          · cases h2
            exact hw3
          · cases h2
            exact hk.setProbed _ _ hw3
      cases o with
      | some left =>
        cases he
        exact hw2
      | none => exact ih hw2 he

/-- `setAsClosed` keeps what the virtual functions keep, from the moment at which the write side is closed. -/
theorem setAsClosed_keeps (hk : h.Keeps I) {fuel : Nat} {blockflag : Bool} {w w' : W}
    (he : setAsClosed h fuel blockflag w = .ok w')
    (hw : ∀ b w1, h.base w = .ok b → (if b.closedWr then .ok w else h.close true false w) = Except.ok w1 → I w1) :
    I w' := by
  unfold setAsClosed at he
  obtain ⟨b, hb, he⟩ := bind_eq_ok.1 he
  obtain ⟨w1, h1, he⟩ := bind_eq_ok.1 he
  have hw1 : I w1 := hw b w1 hb h1
  obtain ⟨b1, -, he⟩ := bind_eq_ok.1 he
  obtain ⟨⟨left, w2⟩, h2, he⟩ := bind_eq_ok.1 he
  have hw2 : I w2 := by
    split at h2
    · exact drainLoop_keeps hk hw1 h2
    · cases h2
      exact hw1
  dsimp only at he
  split at he
  · exact hk.close hw2 he
  · cases he
    exact hw2

private theorem drainLoop_mono {fuel fuel' sz : Nat} {w : W} {r : Bool × W} (hle : fuel ≤ fuel')
    (he : drainLoop h fuel sz w = .ok r) : drainLoop h fuel' sz w = .ok r := by
  induction fuel generalizing fuel' sz w with
  | zero => cases he
  | succ fuel ih =>
    obtain ⟨n, rfl⟩ : ∃ n, fuel' = n + 1 := ⟨fuel' - 1, by omega⟩
    unfold drainLoop at he ⊢
    obtain ⟨b, hb, he⟩ := bind_eq_ok.1 he
    obtain ⟨⟨r1, sz1, w1⟩, h1, he⟩ := bind_eq_ok.1 he
    rw [hb, bind_ok, h1, bind_ok]
    rcases r1 with e | k
    · exact he
    · obtain ⟨⟨o, w2⟩, h2, he⟩ := bind_eq_ok.1 he
      dsimp only
      rw [h2, bind_ok]
      cases o with
      | some left => exact he
      | none => exact ih (Nat.le_of_succ_le_succ hle) he

theorem setAsClosed_mono {fuel fuel' : Nat} {blockflag : Bool} {w w' : W} (hle : fuel ≤ fuel')
    (he : setAsClosed h fuel blockflag w = .ok w') : setAsClosed h fuel' blockflag w = .ok w' := by
  unfold setAsClosed at he ⊢
  obtain ⟨b, hb, he⟩ := bind_eq_ok.1 he
  obtain ⟨w1, h1, he⟩ := bind_eq_ok.1 he
  obtain ⟨b1, hb1, he⟩ := bind_eq_ok.1 he
  obtain ⟨r, h2, he⟩ := bind_eq_ok.1 he
  rw [hb, bind_ok, h1, bind_ok, hb1, bind_ok]
  by_cases hdrain : (blockflag && !b1.closedRd) = true
  · rw [if_pos hdrain] at h2 ⊢
    rw [drainLoop_mono hle h2]
    exact he
  · rw [if_neg hdrain] at h2 ⊢
    rw [h2]
    exact he

end ConnType

/-! ### Draining -/

/-- The bytes, cut into frames by their headers, lead to an EOS header.  When the stream ends (`eof`), a last
header may be cut short; its other bytes are what the memory held. -/
def ReachesEos (garbage : Nat → UInt8) (eof : Bool) (bs : Bytes) : Prop :=
  if bs.length < sizeofSizeT then
    eof = true ∧ bs ≠ [] ∧ Words.ofBE (overlay garbage sizeofSizeT bs) = 0
  else
    Words.ofBE (bs.take sizeofSizeT) = 0 ∨
      ReachesEos garbage eof ((bs.drop sizeofSizeT).drop (Words.ofBE (bs.take sizeofSizeT)))
termination_by bs.length
decreasing_by
  have : 0 < sizeofSizeT := by decide
  simp only [List.length_drop]
  omega

/-- The same for a handle, which may have read the header of the next message already. -/
def DrainsToEos (garbage : Nat → UInt8) (probed : Bool × Nat) (s : List SockArrival) : Prop :=
  if probed.1 then
    probed.2 = 0 ∨ ReachesEos garbage (!(afterLead s).isEmpty) ((lead s).drop probed.2)
  else ReachesEos garbage (!(afterLead s).isEmpty) (lead s)

/-- No error comes before the end of the stream. -/
def NoError (s : List SockArrival) : Prop := ∀ e t, afterLead s ≠ .error e :: t

/-- A read on a stream without errors waits for ever, or takes what there is of the bytes it asks for. -/
private theorem readn_noError (n : Nat) {s : List SockArrival} (hs : NoError s) :
    ((lead s).length < n ∧ afterLead s = [] ∧ readn n s = .error .blocked) ∨
      ((lead s).length < n → afterLead s ≠ []) ∧
      ∃ s', readn n s = .ok (.ok (min n (lead s).length), (lead s).take n, s') ∧ lead s' = (lead s).drop n ∧
        afterLead s' = afterLead s := by
  rw [readn_eq]
  by_cases hn : n ≤ (lead s).length
  · right
    obtain ⟨h1, h2⟩ := dropItems_lead hn
    refine ⟨fun h => absurd hn (Nat.not_le.2 h), dropItems n s, ?_, h1, h2⟩
    rw [if_pos hn, Nat.min_eq_left hn]
  · have hlt := Nat.lt_of_not_le hn
    rw [if_neg hn]
    rcases afterLead_cases s with h | ⟨t, h⟩ | ⟨e, t, h⟩
    · exact Or.inl ⟨hlt, h, by rw [h]⟩
    · right
      refine ⟨fun _ => by simp [h], .eof :: t, ?_, ?_, ?_⟩
      · rw [h, Nat.min_eq_right (Nat.le_of_lt hlt), List.take_of_length_le (Nat.le_of_lt hlt)]
      · rw [List.drop_eq_nil_of_le (Nat.le_of_lt hlt)]
        rfl
      · rw [h]
        rfl
    · exact absurd h (hs e t)

section

open ConnType

variable {p : Process} {id : Nat}

/-- Discarding a message waits for ever, or goes on behind it. -/
private theorem drainMessage_at' (h : p.Live id) (pr : Bool × Nat) {s : List SockArrival} (hs : NoError s) {sz : Nat}
    (hsz : sz ≠ 0) :
    ((lead s).length < sz ∧ afterLead s = [] ∧ drainMessage (tcpHandle id) sz
      (p.withIncoming id pr s) = .error .blocked) ∨
      ∃ s', drainMessage (tcpHandle id) sz (p.withIncoming id pr s) = .ok (none, p.withIncoming id (false, 0) s') ∧
        lead s' = (lead s).drop sz ∧ afterLead s' = afterLead s := by
  unfold drainMessage
  rw [if_neg hsz, (h.withIncoming pr s).receive, Process.withIncoming_handles]
  dsimp only
  rcases readn_noError sz hs with ⟨h1, h2, h3⟩ | ⟨-, s', h3, h4, h5⟩
  · left
    rw [h3]
    exact ⟨h1, h2, rfl⟩
  · right
    refine ⟨s', ?_, h4, h5⟩
    rw [h3]
    have hput : (tcpHandle id).setProbed (false, 0) ((p.withIncoming id pr s).put id
        { p.handles id with probed := pr, incoming := s' }) = p.withIncoming id (false, 0) s' := by
      rw [← p.setProbed_withIncoming id pr (false, 0) s', ← p.put_withIncoming id pr s s', Process.withIncoming_handles]
    exact congrArg (fun q => Except.ok (none, q)) hput

/-- The size of the next message as the loop sees it; at the end of the stream `probe` leaves the size as it was. -/
private def nextSize (garbage : Nat → UInt8) (sz : Nat) (bs : Bytes) : Nat :=
  if bs = [] then sz else Words.ofBE (overlay garbage sizeofSizeT (bs.take sizeofSizeT))

/-- One turn of the loop, once the size of the next message is known. -/
private def drainTurn (h : CommunicationHandle Process) (fuel n : Nat) (w : Process) : Except Stop (Bool × Process) :=
  drainMessage h n w >>= fun r =>
    match r.1 with
    | some left => pure (left, r.2)
    | none => drainLoop h fuel n r.2

private theorem drainLoop_probed (h : p.Live id) (fuel sz n : Nat) (s : List SockArrival) :
    drainLoop (tcpHandle id) (fuel + 1) sz (p.withIncoming id (true, n) s) =
      drainTurn (tcpHandle id) fuel n (p.withIncoming id (true, n) s) := by
  rw [drainLoop, (h.withIncoming (true, n) s).base, Process.withIncoming_handles]
  rfl

/-- A turn that has to read the header waits for ever, or gets what there is of it. -/
private theorem drainLoop_unprobed (h : p.Live id) (sz m : Nat) {s : List SockArrival} (hs : NoError s) :
    ((lead s).length < sizeofSizeT ∧ afterLead s = [] ∧
        ∀ fuel, drainLoop (tcpHandle id) (fuel + 1) sz (p.withIncoming id (false, m) s) = .error .blocked) ∨
      ((lead s).length < sizeofSizeT → afterLead s ≠ []) ∧
      ∃ s', lead s' = (lead s).drop sizeofSizeT ∧ afterLead s' = afterLead s ∧
        ∀ fuel, drainLoop (tcpHandle id) (fuel + 1) sz (p.withIncoming id (false, m) s) =
          drainTurn (tcpHandle id) fuel (nextSize p.garbage sz (lead s)) (p.withIncoming id (false, m) s') := by
  have hlive := h.withIncoming (false, m) s
  have hput : ∀ s', (p.withIncoming id (false, m) s).put id { p.handles id with probed := (false, m), incoming := s' } =
      p.withIncoming id (false, m) s' := by
    intro s'
    rw [← p.put_withIncoming id (false, m) s s', Process.withIncoming_handles]
  have hunfold : ∀ fuel, drainLoop (tcpHandle id) (fuel + 1) sz (p.withIncoming id (false, m) s) =
      ((tcpHandle id).probe sz true (p.withIncoming id (false, m) s) >>= fun r =>
        match r.1 with
        | .error _ => pure (false, r.2.2)
        | .ok _ => drainTurn (tcpHandle id) fuel r.2.1 r.2.2) := by
    intro fuel
    rw [drainLoop, hlive.base, Process.withIncoming_handles]
    rfl
  simp only [hunfold, hlive.probe_blocking, Process.withIncoming_handles]
  rcases readn_noError sizeofSizeT hs with ⟨h1, h2, h3⟩ | ⟨h1, s', h3, h4, h5⟩
  · left
    rw [h3]
    exact ⟨h1, h2, fun _ => rfl⟩
  · right
    refine ⟨h1, s', h4, h5, fun fuel => ?_⟩
    rw [h3, nextSize]
    by_cases hl : lead s = []
    · rw [if_pos hl, hl, List.length_nil, Nat.min_zero]
      exact congrArg (drainTurn (tcpHandle id) fuel sz) (hput s')
    · have hlen : 0 < (lead s).length := List.length_pos_iff.2 hl
      have hpos : min sizeofSizeT (lead s).length ≠ 0 := Nat.ne_of_gt (Nat.lt_min.2 ⟨by decide, hlen⟩)
      obtain ⟨k, hk⟩ := Nat.exists_eq_succ_of_ne_zero hpos
      rw [if_neg hl, hk]
      exact congrArg (drainTurn (tcpHandle id) fuel _) (hput s')

/-- What a turn does with the message: it leaves the loop at an EOS, waits for ever, or goes on behind the message. -/
private theorem drainTurn_cases (h : p.Live id) (n : Nat) (pr : Bool × Nat) {s : List SockArrival} (hs : NoError s) :
    (n = 0 ∧ ∀ fuel, drainTurn (tcpHandle id) fuel n (p.withIncoming id pr s) = .ok (true, p.withIncoming id pr s)) ∨
      (n ≠ 0 ∧ (lead s).length < n ∧ afterLead s = [] ∧
        ∀ fuel, drainTurn (tcpHandle id) fuel n (p.withIncoming id pr s) = .error .blocked) ∨
      n ≠ 0 ∧
      ∃ s', lead s' = (lead s).drop n ∧ afterLead s' = afterLead s ∧
        ∀ fuel, drainTurn (tcpHandle id) fuel n (p.withIncoming id pr s) = drainLoop (tcpHandle id) fuel n
          (p.withIncoming id (false, 0) s') := by
  by_cases hn : n = 0
  · left
    refine ⟨hn, fun fuel => ?_⟩
    rw [drainTurn, drainMessage, if_pos hn]
    rfl
  · right
    rcases drainMessage_at' h pr hs hn with ⟨h1, h2, h3⟩ | ⟨s', h3, h4, h5⟩
    · left
      refine ⟨hn, h1, h2, fun fuel => ?_⟩
      rw [drainTurn, h3]
      rfl
    · right
      refine ⟨hn, s', h4, h5, fun fuel => ?_⟩
      rw [drainTurn, h3]
      rfl

private theorem noError_of_afterLead {s s' : List SockArrival} (hs : NoError s) (h : afterLead s' = afterLead s) :
    NoError s' := by
  intro e t
  rw [h]
  exact hs e t

private theorem nextSize_full (garbage : Nat → UInt8) (sz : Nat) {bs : Bytes} (h : sizeofSizeT ≤ bs.length) :
    nextSize garbage sz bs = Words.ofBE (bs.take sizeofSizeT) := by
  have hlen : (bs.take sizeofSizeT).length = sizeofSizeT := by
    rw [List.length_take, Nat.min_eq_left h]
  have hover := overlay_full garbage (bs.take sizeofSizeT)
  have hne : bs ≠ [] := by
    rintro rfl
    exact absurd h (by decide)
  rw [nextSize, if_neg hne]
  rw [hlen] at hover
  rw [hover]

/-- The stream that is left when a message has been read. -/
private def restOf (garbage : Nat → UInt8) (sz : Nat) (bs : Bytes) : Bytes :=
  (bs.drop sizeofSizeT).drop (nextSize garbage sz bs)

/-- The headers of a stream lead to an EOS when the next one is one, or those behind the next message do. -/
private theorem reachesEos_iff (garbage : Nat → UInt8) {sz : Nat} (hsz : sz ≠ 0) (eof : Bool) (bs : Bytes)
    (heof : bs.length < sizeofSizeT → eof = true) :
    ReachesEos garbage eof bs ↔ nextSize garbage sz bs = 0 ∨
      (sizeofSizeT ≤ bs.length ∧ ReachesEos garbage eof (restOf garbage sz bs)) := by
  rw [ReachesEos, restOf]
  by_cases hlen : bs.length < sizeofSizeT
  · have hle : ¬ sizeofSizeT ≤ bs.length := Nat.not_le.2 hlen
    rw [if_pos hlen, nextSize]
    by_cases hbs : bs = []
    · simp [hbs, hsz]
    · rw [if_neg hbs, List.take_of_length_le (Nat.le_of_lt hlen)]
      simp [hle, hbs, heof hlen]
  · have hle := Nat.le_of_not_lt hlen
    rw [if_neg hlen, nextSize_full garbage sz hle]
    simp [hle]

/-- Behind a message that was there in full, what the headers lead to is unchanged, and less is left. -/
private theorem restOf_length (garbage : Nat → UInt8) (sz : Nat) {bs : Bytes} (h : sizeofSizeT ≤ bs.length) :
    (restOf garbage sz bs).length < bs.length := by
  have hpos : 0 < sizeofSizeT := by decide
  rw [restOf, List.length_drop, List.length_drop]
  omega

/-- When the headers lead to an EOS, enough turns leave the loop by `break`. -/
private theorem drainLoop_reaches (h : p.Live id) {sz m : Nat} (hsz : sz ≠ 0) {s : List SockArrival} (hs : NoError s)
    (hr : ReachesEos p.garbage (!(afterLead s).isEmpty) (lead s)) :
    ∃ fuel pr s', drainLoop (tcpHandle id) fuel sz
      (p.withIncoming id (false, m) s) = .ok (true, p.withIncoming id pr s') := by
  induction hl : (lead s).length using Nat.strong_induction_on generalizing s sz m with
  | _ k ih =>
    rcases drainLoop_unprobed h sz m hs with ⟨h1, h2, -⟩ | ⟨h1, s1, h4, h5, h6⟩
    · -- a header that never arrives in full is no EOS
      rw [ReachesEos, if_pos h1, h2] at hr
      cases hr.1
    · have heof : (lead s).length < sizeofSizeT → (!(afterLead s).isEmpty) = true := fun hlt => by simp [h1 hlt]
      have hs1 := noError_of_afterLead hs h5
      have hr' := (reachesEos_iff p.garbage hsz _ _ heof).1 hr
      rcases drainTurn_cases h (nextSize p.garbage sz (lead s)) (false, m) hs1 with ⟨-, h7⟩ | ⟨hn, hlt, hnil, -⟩ |
        ⟨hn, s2, h8, h9, h7⟩
      · exact ⟨1, (false, m), s1, (h6 0).trans (h7 0)⟩
      · -- the payload never arrives in full
        obtain ⟨hle, hrest⟩ := hr'.resolve_left hn
        have hrestNil : restOf p.garbage sz (lead s) = [] := by
          rw [restOf, ← h4]
          exact List.drop_eq_nil_of_le (Nat.le_of_lt hlt)
        rw [hrestNil, ReachesEos, if_pos (by decide)] at hrest
        exact absurd rfl hrest.2.1
      · obtain ⟨hle, hrest⟩ := hr'.resolve_left hn
        have hlead : lead s2 = restOf p.garbage sz (lead s) := by rw [h8, h4, restOf]
        have hlen := restOf_length p.garbage sz hle
        rw [← hlead, hl] at hlen
        rw [← hlead, ← h5, ← h9] at hrest
        obtain ⟨fuel, pr, s3, h10⟩ := @ih _ hlen _ 0 hn _ (noError_of_afterLead hs1 h9) hrest rfl
        exact ⟨fuel + 1, pr, s3, (h6 fuel).trans ((h7 fuel).trans h10)⟩

/-- When they do not, no number of turns does; if the stream ends, the loop never waits. -/
private theorem drainLoop_not_reaches (h : p.Live id) (fuel : Nat) {sz m : Nat} (hsz : sz ≠ 0) {s : List SockArrival}
    (hs : NoError s) (hr : ¬ ReachesEos p.garbage (!(afterLead s).isEmpty) (lead s)) :
    ∃ st, drainLoop (tcpHandle id) fuel sz (p.withIncoming id (false, m) s) = .error st ∧
      (afterLead s ≠ [] → st = .outOfFuel) := by
  induction fuel generalizing s sz m with
  | zero => exact ⟨_, rfl, fun _ => rfl⟩
  | succ fuel ih =>
    rcases drainLoop_unprobed h sz m hs with ⟨-, hnil, h1⟩ | ⟨h1, s1, h4, h5, h6⟩
    · exact ⟨_, h1 fuel, fun hne => absurd hnil hne⟩
    · have heof : (lead s).length < sizeofSizeT → (!(afterLead s).isEmpty) = true := fun hlt => by simp [h1 hlt]
      obtain ⟨hn, hrest⟩ := not_or.1 (mt (reachesEos_iff p.garbage hsz _ _ heof).2 hr)
      have hs1 := noError_of_afterLead hs h5
      rw [h6]
      rcases drainTurn_cases h (nextSize p.garbage sz (lead s)) (false, m) hs1 with ⟨h7, -⟩ | ⟨-, -, hnil, h7⟩ |
        ⟨-, s2, h8, h9, h7⟩
      · exact absurd h7 hn
      · exact ⟨_, h7 fuel, fun hne => absurd (h5.symm.trans hnil) hne⟩
      · rw [h7, ← h5, ← h9]
        refine ih hn (noError_of_afterLead hs1 h9) ?_
        have hlead : lead s2 = restOf p.garbage sz (lead s) := by rw [h8, h4, restOf]
        rw [h9, h5, hlead]
        by_cases hle : sizeofSizeT ≤ (lead s).length
        · exact fun hr' => hrest ⟨hle, hr'⟩
        · have hnil : restOf p.garbage sz (lead s) = [] := by
            rw [restOf, List.drop_eq_nil_of_le (Nat.le_of_not_le hle), List.drop_nil]
          rw [hnil, ReachesEos, if_pos (by decide)]
          rintro ⟨-, hne, -⟩
          exact hne rfl

private theorem drainLoop_drains (h : p.Live id) (hs : NoError (p.handles id).incoming) :
    (DrainsToEos p.garbage (p.handles id).probed (p.handles id).incoming →
      ∃ fuel pr s', drainLoop (tcpHandle id) fuel 1 p = .ok (true, p.withIncoming id pr s')) ∧
    (¬ DrainsToEos p.garbage (p.handles id).probed (p.handles id).incoming →
      ∀ fuel, ∃ st, drainLoop (tcpHandle id) fuel 1 p = .error st ∧
        (afterLead (p.handles id).incoming ≠ [] → st = .outOfFuel)) := by
  have hself := p.withIncoming_self id
  rcases hpr : (p.handles id).probed with ⟨b, n⟩
  rw [hpr] at hself
  generalize (p.handles id).incoming = s at hs hself
  rw [DrainsToEos]
  have hone : (1 : Nat) ≠ 0 := Nat.one_ne_zero
  cases b with
  | false =>
    refine ⟨fun hr => ?_, fun hr fuel => ?_⟩
    · obtain ⟨fuel, pr, s', he⟩ := drainLoop_reaches h (m := n) hone hs hr
      rw [hself] at he
      exact ⟨fuel, pr, s', he⟩
    · obtain ⟨st, he, hst⟩ := drainLoop_not_reaches h fuel (m := n) hone hs hr
      rw [hself] at he
      exact ⟨st, he, hst⟩
  | true =>
    have hturn := fun fuel => drainLoop_probed h fuel 1 n s
    rw [hself] at hturn
    have hcases := drainTurn_cases h n (true, n) hs
    rw [hself] at hcases
    rw [if_pos rfl]
    refine ⟨fun hr => ?_, fun hr fuel => ?_⟩
    · rcases hcases with ⟨-, h1⟩ | ⟨hn, hlt, hnil, -⟩ | ⟨hn, s', h2, h3, h1⟩
      · refine ⟨1, (true, n), s, ?_⟩
        rw [hself, hturn, h1]
      · have hrest := hr.resolve_left hn
        rw [List.drop_eq_nil_of_le (Nat.le_of_lt hlt), ReachesEos, if_pos (by decide)] at hrest
        exact absurd rfl hrest.2.1
      · have hrest := hr.resolve_left hn
        rw [← h2, ← h3] at hrest
        obtain ⟨fuel, pr, s2, h4⟩ := drainLoop_reaches h (m := 0) hn (noError_of_afterLead hs h3) hrest
        exact ⟨fuel + 1, pr, s2, (hturn fuel).trans ((h1 fuel).trans h4)⟩
    · cases fuel with
      | zero => exact ⟨_, rfl, fun _ => rfl⟩
      | succ fuel =>
        obtain ⟨hn, hrest⟩ := not_or.1 hr
        rw [hturn]
        rcases hcases with ⟨h1, -⟩ | ⟨-, -, hnil, h1⟩ | ⟨-, s', h2, h3, h1⟩
        · exact absurd h1 hn
        · exact ⟨_, h1 fuel, fun hne => absurd hnil hne⟩
        · rw [← h2, ← h3] at hrest
          rw [h1, ← h3]
          exact drainLoop_not_reaches h fuel hn (noError_of_afterLead hs h3) hrest

end

/-! ### `setAsClosed` with draining -/

namespace Process

/-- The handle is open for reading, no error is on its way, and the draining of it ends. -/
def Drains (p : Process) (id : Nat) : Prop := DrainsToEos p.garbage (p.handles id).probed (p.handles id).incoming

private theorem live_of_open {p : Process} (hi : p.Inv) {id : Nat} (hid : id < p.allocated)
    (hrd : (p.handles id).closedRd = false) : p.Live id := by
  obtain ⟨fd, hfd, -⟩ := hi.1.listed id hid hrd
  have hne : (p.handles id).fd ≠ none := by
    rw [show (p.handles id).fd = some fd from hfd]
    exact Option.some_ne_none fd
  refine ⟨hid, ?_, hne⟩
  cases hd : (p.handles id).deleted with
  | false => rfl
  | true => exact absurd (hi.1.deleted id hid hd) hne

/-- Sending EOS on a handle that is open for reading leaves it alive, and its incoming stream as it was. -/
private theorem closeWrite_open {p : Process} {id : Nat} (h : p.Live id) (hi : p.Inv)
    (hrd : (p.handles id).closedRd = false) :
    (p.closeHandle id true false).Live id ∧ (p.closeHandle id true false).garbage = p.garbage ∧
      ((p.closeHandle id true false).handles id).probed = (p.handles id).probed ∧
      ((p.closeHandle id true false).handles id).incoming = (p.handles id).incoming ∧
      ((p.closeHandle id true false).handles id).closedRd = false := by
  obtain ⟨fd, hfd⟩ := Option.ne_none_iff_exists'.1 h.fd
  obtain ⟨hrest, fd', wire, answers, eos, deleted, hh, hdel⟩ := p.closeHandle_handles id true false
  obtain ⟨-, -, -, hfd'⟩ := p.closeHandle_table hfd (fun hrd => by simp [hi.has_entry h.allocated hfd hrd]) true false
  rw [hrd] at hfd'
  have hdeleted : deleted = false := by
    cases deleted with
    | false => rfl
    | true =>
      rcases hdel rfl with e | ⟨-, -, e⟩
      · rw [h.deleted] at e
        cases e
      · rw [hrd] at e
        cases e
  refine ⟨⟨?_, ?_, ?_⟩, hrest.2.2.2, ?_, ?_, ?_⟩
  · rw [hrest.1]
    exact h.allocated
  · rw [hh, Function.update_self]
    exact hdeleted
  · rw [hfd']
    exact Option.some_ne_none fd
  · rw [hh, Function.update_self]
  · rw [hh, Function.update_self]
  · rw [hh, Function.update_self, hrd]
    rfl

/-- `setAsClosed` with draining, on a handle that is open for reading: it returns exactly when the draining
ends, and then the read side is closed. -/
theorem setAsClosed_drains {p : Process} (hi : p.Inv) {id : Nat} (hid : id < p.allocated)
    (hrd : (p.handles id).closedRd = false) (hs : NoError (p.handles id).incoming) :
    (p.Drains id → ∃ fuel p', ConnType.setAsClosed (tcpHandle id) fuel true p = .ok p' ∧
      (p'.handles id).closedRd = true) ∧
    (¬ p.Drains id → ∀ fuel, ∃ st, ConnType.setAsClosed (tcpHandle id) fuel true p = .error st ∧
      (afterLead (p.handles id).incoming ≠ [] → st = .outOfFuel)) := by
  have hlive := live_of_open hi hid hrd
  -- the process once EOS has been sent
  obtain ⟨q, hq, hqg, hqp, hqs, hqrd, hw⟩ : ∃ q : Process, q.Live id ∧ q.garbage = p.garbage ∧
      (q.handles id).probed = (p.handles id).probed ∧ (q.handles id).incoming = (p.handles id).incoming ∧
      (q.handles id).closedRd = false ∧
      (if (p.handles id).closedWr then .ok p else (tcpHandle id).close true false p) = Except.ok q := by
    by_cases hwr : (p.handles id).closedWr = true
    · exact ⟨p, hlive, rfl, rfl, rfl, hrd, by rw [if_pos hwr]⟩
    · obtain ⟨h1, h2, h3, h4, h5⟩ := closeWrite_open hlive hi hrd
      exact ⟨_, h1, h2, h3, h4, h5, by rw [if_neg hwr, hlive.close]⟩
  have hrun : ∀ fuel, ConnType.setAsClosed (tcpHandle id) fuel true p =
      (ConnType.drainLoop (tcpHandle id) fuel 1 q >>= fun r =>
        if r.1 then (tcpHandle id).close false true r.2 else pure r.2) := by
    intro fuel
    rw [ConnType.setAsClosed, hlive.base, bind_ok, hw, bind_ok, hq.base, bind_ok, hqrd]
    rfl
  obtain ⟨hyes, hno⟩ := drainLoop_drains hq (hqs ▸ hs)
  rw [hqg, hqp, hqs] at hyes hno
  constructor
  · intro hd
    obtain ⟨fuel, pr, s', he⟩ := hyes hd
    refine ⟨fuel, (q.withIncoming id pr s').closeHandle id false true, ?_, ?_⟩
    · rw [hrun, he, bind_ok, if_pos rfl, (hq.withIncoming pr s').close]
    · obtain ⟨-, fd, wire, answers, eos, deleted, hh, -⟩ := (q.withIncoming id pr s').closeHandle_handles id false true
      rw [hh, Function.update_self]
      exact Bool.or_true _
  · intro hd fuel
    obtain ⟨st, he, hst⟩ := hno hd fuel
    exact ⟨st, by rw [hrun, he, bind_error], hst⟩

end Process

end Mtcl
