import Mtcl.Tcp.Stream

/-!
# A frame of which a part was sent

`HandleTCP::writevn` returns `-1` when the kernel fails, whatever it has moved before, and `send` then leaves a
part of the frame on the stream.  On a broken connection nothing comes after it; where the kernel moves
something again, the next frame is put behind it (`Torn`).  `failed_send_iff` says that a failed
`HandleUser::send` harms the stream exactly then: otherwise after any number of sends the stream holds the
frames of the messages whose sends succeeded, and at most a part of one more frame behind which nothing comes
(`Remnant`), and a receiver reads it as these messages.
-/

namespace Mtcl

open Arrivals Sources

/-- The kernel moves nothing any more: it only fails, and in the end the connection is broken. -/
def Dead : List WriteAnswer → Prop
  | [] => False
  | .moved k :: as => k = 0 ∧ Dead as
  | .failed _ :: as => Dead as
  | .broken _ :: _ => True

/-- The kernel moves some of `n` bytes, and not all, and then fails, and it moves something again later. -/
def Torn (as : List WriteAnswer) (n : Nat) : Prop :=
  ∃ (ks : List Nat) (e : Errno) (post : List WriteAnswer), as = ks.map .moved ++ .failed e :: post ∧ 0 < ks.sum ∧
    ks.sum < n ∧ ¬ Dead post

/-- A `send` of the message leaves a part of its frame on the stream, and something will come behind it. -/
structure Process.Tears (p : Process) (id : Nat) (m : Bytes) : Prop where
  live : p.Live id
  closedWr : (p.handles id).closedWr = false
  torn : Torn (p.handles id).answers (frame m).length

/-- When the call fails, nothing of the message is on the stream, or nothing that is sent later comes onto it. -/
def FailsClean (id : Nat) (u : HandleUser Nat) (p : Process) (m : Bytes) : Prop :=
  ∀ e u' p', u.send tcpHandle m p = .ok (.error e, u', p') →
    (p'.handles id).wire = (p.handles id).wire ∨
      ∀ ms rs s, HandleUser.sends tcpHandle ms (u', p') = .ok (rs, s) → (s.2.handles id).wire = (p'.handles id).wire

/-- None of the calls for some messages leaves a part of a frame on the stream behind which something will come. -/
def NoneTears (id : Nat) (ms : List Bytes) (s : HandleUser Nat × Process) : Prop :=
  ∀ pre m post rs s', ms = pre ++ m :: post → HandleUser.sends tcpHandle pre s = .ok (rs, s') → ¬ s'.2.Tears id m

/-- The messages whose sends succeeded. -/
def succeeded : List Bytes → List Ret → List Bytes
  | m :: ms, .ok _ :: rs => m :: succeeded ms rs
  | _ :: ms, .error _ :: rs => succeeded ms rs
  | _, _ => []

/-- A part of the frame of one of the messages, behind which the kernel moves nothing any more; or nothing. -/
inductive Remnant (as : List WriteAnswer) (ms : List Bytes) : Bytes → List Bytes → Prop
  | none : Remnant as ms [] []
  | part {m : Bytes} {k : Nat} (hm : m ∈ ms) (hk : k < (frame m).length) (hdead : Dead as) :
      Remnant as ms ((frame m).take k) [m]

/-- What a receiver takes for messages: an empty one is the end. -/
def heard (ms : List Bytes) : List Bytes := ms.takeWhile (· ≠ [])

/-- What has been put on the stream is read as these messages: whatever the order of the calls, and whatever the
pieces in which the bytes arrive, a receiver on whose handle they arrive is answered as the reader of the
messages is. -/
def ReadAs (bs : Bytes) (ms : List Bytes) : Prop :=
  ∀ (p : Process) (u : HandleUser Nat) (id : Nat), p.Open id → (p.handles id).probed.1 = false →
    u.realHandle = some id →
    u.isReadable = true → lead (p.handles id).incoming = bs → afterLead (p.handles id).incoming = [] →
    ∀ (size : Nat) (rs : List Request) (as : List (Option (Answer Bytes))) (s : HandleUser Nat × Process),
      Runs.run (HandleUser.ask tcpHandle size) rs (u, p) = .ok (as, s) →
        ∃ as' ph, as = as'.map some ∧ Run (queue (decide ([] ∈ ms))) List.length rs (.idle (heard ms)) as' ph

variable {p p' : Process} {id : Nat} {u u' : HandleUser Nat} {m : Bytes}

/-! ### One call -/

private theorem length_frame (m : Bytes) : (frame m).length = sizeofSizeT + m.length := by
  rw [frame, List.length_append, Words.length_toBE]

private theorem frame_ne_nil (m : Bytes) : frame m ≠ [] := by
  have hlen := length_frame m
  intro hnil
  rw [hnil, sizeofSizeT, List.length_nil] at hlen
  omega

private theorem flatten_frame (m : Bytes) : [Words.toBE sizeofSizeT m.length, m].flatten = frame m := by
  simp [frame]

namespace HandleTCP

theorem send_failed {h : HandleTCP} (hfd : h.fd ≠ none) {ks : List Nat} {e : Errno} {as post : List WriteAnswer}
    (has : h.answers = ks.map .moved ++ as) (hfails : Fails as e post) (hsum : ks.sum < (frame m).length) :
    h.send m = (.error e, { h with wire := h.wire ++ (frame m).take ks.sum, answers := post }) := by
  rw [← flatten_frame] at hsum
  unfold send
  split
  · exact absurd ‹_› hfd
  · rw [has, writevn_failed hfails hsum, flatten_frame]

/-- `send` puts the whole frame on the stream, or the kernel fails before. -/
theorem send_cases {h : HandleTCP} (hfd : h.fd ≠ none) (m : Bytes) :
    (∃ (ks : List Nat) (as : List WriteAnswer), h.answers = ks.map .moved ++ as ∧ (as = [] ∨ 0 < ks.sum) ∧
        h.send m = (.ok m.length, { h with wire := h.wire ++ frame m, answers := as })) ∨
      ∃ (ks : List Nat) (e : Errno) (as post : List WriteAnswer), h.answers = ks.map .moved ++ as ∧ Fails as e post ∧
        ks.sum < (frame m).length := by
  have hne : [Words.toBE sizeofSizeT m.length, m].flatten ≠ [] := by
    rw [flatten_frame]
    exact frame_ne_nil m
  rcases writevn_cases h.answers hne with ⟨ks, as, has, hend, hwrite⟩ | hfailed
  · left
    have hpos : 0 < (frame m).length := List.length_pos_iff.2 (frame_ne_nil m)
    rw [flatten_frame] at hend hwrite
    refine ⟨ks, as, has, hend.imp_right fun hsum => Nat.lt_of_lt_of_le hpos hsum, ?_⟩
    unfold send
    split
    · exact absurd ‹_› hfd
    · rw [hwrite]
  · rw [flatten_frame] at hfailed
    exact Or.inr hfailed

end HandleTCP

/-- Counts of nothing say nothing about what comes behind them. -/
private theorem dead_counts {ks : List Nat} {as : List WriteAnswer} : Dead (ks.map .moved ++ as) ↔
    ks.sum = 0 ∧ Dead as := by
  induction ks with
  | nil => simp
  | cons k ks ih =>
    rw [List.map_cons, List.cons_append, Dead, ih, List.sum_cons, ← and_assoc]
    exact and_congr_left fun _ => by omega

private theorem Fails.dead_iff {as post : List WriteAnswer} {e : Errno} (h : Fails as e post) :
    Dead as ↔ Dead post := by
  cases h <;> rfl

private theorem HandleTCP.send_dead {h : HandleTCP} (hfd : h.fd ≠ none) (hdead : Dead h.answers) (m : Bytes) :
    ∃ e as, Dead as ∧ h.send m = (.error e, { h with answers := as }) := by
  rcases h.send_cases hfd m with ⟨ks, as, has, hend, -⟩ | ⟨ks, e, as, post, has, hfails, hsum⟩
  · rw [has, dead_counts] at hdead
    rcases hend with rfl | hpos
    · exact hdead.2.elim
    · omega
  · have hsend := send_failed hfd has hfails hsum
    rw [has, dead_counts] at hdead
    rw [hdead.1, List.take_zero, List.append_nil] at hsend
    exact ⟨e, post, hfails.dead_iff.1 hdead.2, hsend⟩

private theorem send_live (hu : u.realHandle = some id) (hlive : p.Live id) (hwr : (p.handles id).closedWr = false)
    {r : Ret} {h : HandleTCP} (hsend : (p.handles id).send m = (r, h)) :
    u.send tcpHandle m p = .ok (r, { u with newConnection := false }, p.put id h) := by
  refine HandleUser.send_of hu hlive.base hwr ?_
  change (p.deref id >>= fun h => .ok ((h.send m).1, p.put id (h.send m).2)) = _
  rw [hlive.deref, bind_ok, hsend]

/-- On a handle that is closed for writing, or has no descriptor any more, nothing is put on the stream. -/
private theorem send_shut (hu : u.realHandle = some id) (h : ¬ (p.Live id ∧ (p.handles id).closedWr = false)) {r : Ret}
    (hsend : u.send tcpHandle m p = .ok (r, u', p')) : (∃ e, r = .error e) ∧ p' = p := by
  unfold HandleUser.send at hsend
  dsimp only at hsend
  rw [hu] at hsend
  obtain ⟨b, hb, hsend⟩ := bind_eq_ok.1 hsend
  obtain ⟨k, hd, hb⟩ := bind_eq_ok.1 hb
  cases hb
  obtain ⟨hid, hdel, rfl⟩ := Process.deref_eq_ok.1 hd
  by_cases hwr : (p.handles id).closedWr = true
  · rw [if_pos hwr] at hsend
    cases hsend
    exact ⟨⟨_, rfl⟩, rfl⟩
  · rw [if_neg hwr] at hsend
    have hfd : (p.handles id).fd = none := by
      by_contra hfd
      exact h ⟨⟨hid, hdel, hfd⟩, Bool.eq_false_iff.2 hwr⟩
    obtain ⟨⟨r1, p1⟩, h1, hsend⟩ := bind_eq_ok.1 hsend
    cases hsend
    change (p.deref id >>= fun h => .ok ((h.send m).1, p.put id (h.send m).2)) = _ at h1
    rw [hd, bind_ok] at h1
    have hbad : (p.handles id).send m = (.error .EBADF, p.handles id) := by
      unfold HandleTCP.send
      rw [hfd]
    rw [hbad] at h1
    cases h1
    exact ⟨⟨_, rfl⟩, p.put_self id⟩

/-- A call puts the whole frame on the stream, or fails and leaves the stream alone, or puts a part of the frame
there behind which nothing comes, or tears the frame. -/
private theorem send_outcome (hu : u.realHandle = some id) {r : Ret} (h : u.send tcpHandle m p = .ok (r, u', p')) :
    (r = .ok m.length ∧ (p'.handles id).wire = (p.handles id).wire ++ frame m) ∨
      ((∃ e, r = .error e) ∧ (p'.handles id).wire = (p.handles id).wire) ∨
      ((∃ e, r = .error e) ∧ Dead (p'.handles id).answers ∧ ∃ k < (frame m).length,
        (p'.handles id).wire = (p.handles id).wire ++ (frame m).take k) ∨
      (∃ e, r = .error e) ∧ p.Tears id m := by
  by_cases hopen : p.Live id ∧ (p.handles id).closedWr = false
  · obtain ⟨hlive, hwr⟩ := hopen
    rcases HandleTCP.send_cases hlive.fd m with ⟨ks, as, -, -, hsend⟩ | ⟨ks, e, as, post, has, hfails, hsum⟩
    · left
      rw [send_live hu hlive hwr hsend] at h
      cases h
      rw [Process.put_handles_self]
      exact ⟨rfl, rfl⟩
    · right
      have hsend := HandleTCP.send_failed hlive.fd has hfails hsum
      rw [send_live hu hlive hwr hsend] at h
      cases h
      rw [Process.put_handles_self]
      by_cases hzero : ks.sum = 0
      · left
        refine ⟨⟨e, rfl⟩, ?_⟩
        dsimp only
        rw [hzero, List.take_zero, List.append_nil]
      · right
        by_cases hdead : Dead post
        · exact Or.inl ⟨⟨e, rfl⟩, hdead, ks.sum, hsum, rfl⟩
        · right
          cases hfails with
          | broken => exact absurd trivial hdead
          | failed => exact ⟨⟨e, rfl⟩, hlive, hwr, ks, e, post, has, Nat.pos_of_ne_zero hzero, hsum, hdead⟩
  · right
    left
    obtain ⟨he, rfl⟩ := send_shut hu hopen h
    exact ⟨he, rfl⟩

/-! ### Later sends -/

/-- Where the kernel is not through, a send comes onto the stream: so some sends of empty messages do. -/
private theorem sends_reach (hu : u.realHandle = some id) (hlive : p.Live id) (hwr : (p.handles id).closedWr = false)
    (hdead : ¬ Dead (p.handles id).answers) :
    ∃ ms rs s, HandleUser.sends tcpHandle ms (u, p) = .ok (rs, s) ∧
      (p.handles id).wire.length < (s.2.handles id).wire.length := by
  obtain ⟨n, hn⟩ : ∃ n, (p.handles id).answers.length = n := ⟨_, rfl⟩
  induction n using Nat.strong_induction_on generalizing u p with
  | _ n ih =>
    rcases HandleTCP.send_cases hlive.fd [] with ⟨ks, as, -, -, hsend⟩ | ⟨ks, e, as, post, has, hfails, hsum⟩
    · have hcall := send_live hu hlive hwr hsend
      refine ⟨[[]], _, _, HandleUser.sends_cons hcall rfl, ?_⟩
      dsimp only
      rw [Process.put_handles_self, List.length_append, length_frame, sizeofSizeT]
      omega
    · have hsend := HandleTCP.send_failed hlive.fd has hfails hsum
      have hcall := send_live hu hlive hwr hsend
      by_cases hzero : ks.sum = 0
      · -- nothing of this one: the next ones will do
        rw [has, dead_counts, hfails.dead_iff, not_and] at hdead
        have hpost : post.length < n := by
          cases hfails with
          | broken => exact absurd trivial (hdead hzero)
          | failed =>
            rw [← hn, has, List.length_append, List.length_cons]
            omega
        obtain ⟨ms, rs, s, hrun, hlen⟩ := ih post.length hpost (u := { u with newConnection := false }) hu
          (p := p.put id { p.handles id with wire := (p.handles id).wire ++ (frame []).take ks.sum, answers := post })
          (hlive.put rfl rfl) (by rw [Process.put_handles_self]; exact hwr)
          (by rw [Process.put_handles_self]; exact hdead hzero) (by rw [Process.put_handles_self])
        refine ⟨[] :: ms, _, s, HandleUser.sends_cons hcall hrun, ?_⟩
        rw [Process.put_handles_self, List.length_append] at hlen
        omega
      · refine ⟨[[]], _, _, HandleUser.sends_cons hcall rfl, ?_⟩
        dsimp only
        rw [Process.put_handles_self, List.length_append, List.length_take]
        omega

/-- Once the kernel moves nothing any more, no send succeeds, and the stream stays as it is. -/
private theorem sends_dead (hu : u.realHandle = some id) (hdead : Dead (p.handles id).answers) {ms : List Bytes}
    {rs : List Ret} {s : HandleUser Nat × Process} (h : HandleUser.sends tcpHandle ms (u, p) = .ok (rs, s)) :
    succeeded ms rs = [] ∧ (s.2.handles id).wire = (p.handles id).wire ∧ Dead (s.2.handles id).answers := by
  induction ms generalizing u p rs with
  | nil =>
    cases h
    exact ⟨rfl, rfl, hdead⟩
  | cons m ms ih =>
    obtain ⟨r, u1, p1, rs1, hcall, hrest, rfl⟩ := HandleUser.sends_cons_eq_ok h
    have hu1 : u1.realHandle = some id := by
      rw [HandleUser.send_user hcall]
      exact hu
    have hone : (∃ e, r = .error e) ∧ (p1.handles id).wire = (p.handles id).wire ∧ Dead (p1.handles id).answers := by
      by_cases hopen : p.Live id ∧ (p.handles id).closedWr = false
      · obtain ⟨e, as, has, hsend⟩ := HandleTCP.send_dead hopen.1.fd hdead m
        rw [send_live hu hopen.1 hopen.2 hsend] at hcall
        cases hcall
        rw [Process.put_handles_self]
        exact ⟨⟨e, rfl⟩, rfl, has⟩
      · obtain ⟨he, rfl⟩ := send_shut hu hopen hcall
        exact ⟨he, rfl, hdead⟩
    obtain ⟨⟨e, rfl⟩, hwire, hdead1⟩ := hone
    obtain ⟨h1, h2, h3⟩ := ih hu1 hdead1 hrest
    exact ⟨h1, h2.trans hwire, h3⟩

private theorem Remnant.cons {as : List WriteAnswer} {ms : List Bytes} {part : Bytes} {torn : List Bytes}
    (h : Remnant as ms part torn) (m : Bytes) : Remnant as (m :: ms) part torn := by
  cases h with
  | none => exact .none
  | part hm hk hdead => exact .part (List.mem_cons_of_mem _ hm) hk hdead

/-- After sends of which none tears a frame, the frames of the messages whose sends succeeded are on the stream,
and at most a part of one more behind which nothing comes. -/
private theorem sends_wire (hu : u.realHandle = some id) {ms : List Bytes} {rs : List Ret}
    {s : HandleUser Nat × Process} (h : HandleUser.sends tcpHandle ms (u, p) = .ok (rs, s))
    (hnone : NoneTears id ms (u, p)) : ∃ part torn, Remnant (s.2.handles id).answers ms part torn ∧
      (s.2.handles id).wire = (p.handles id).wire ++ (encode false (succeeded ms rs) ++ part) := by
  induction ms generalizing u p rs with
  | nil =>
    cases h
    exact ⟨[], [], .none, (List.append_nil _).symm⟩
  | cons m ms ih =>
    obtain ⟨r, u1, p1, rs1, hcall, hrest, rfl⟩ := HandleUser.sends_cons_eq_ok h
    have hu1 : u1.realHandle = some id := by
      rw [HandleUser.send_user hcall]
      exact hu
    have hnone1 : NoneTears id ms (u1, p1) := by
      intro pre m' post rs' s' hsplit hrun
      exact hnone (m :: pre) m' post _ s' (by rw [hsplit]; rfl) (HandleUser.sends_cons hcall hrun)
    obtain ⟨part, torn, hpart, hwire⟩ := ih hu1 hrest hnone1
    rcases send_outcome hu hcall with ⟨rfl, hput⟩ | ⟨⟨e, rfl⟩, hsame⟩ | ⟨⟨e, rfl⟩, hdead, k, hk, hput⟩ | ⟨-, htears⟩
    · refine ⟨part, torn, hpart.cons m, ?_⟩
      rw [hwire, hput, succeeded, encode_cons, frame]
      simp only [List.append_assoc]
    · refine ⟨part, torn, hpart.cons m, ?_⟩
      rw [hwire, hsame]
      rfl
    · -- nothing comes behind this part
      obtain ⟨hnil, hsame, hdead'⟩ := sends_dead hu1 hdead hrest
      refine ⟨(frame m).take k, [m], .part (List.mem_cons_self ..) hk hdead', ?_⟩
      rw [hsame, hput, succeeded, hnil]
      rfl
    · exact absurd htears (hnone [] m ms [] (u, p) rfl rfl)

private theorem succeeded_subset {ms : List Bytes} {rs : List Ret} (h : m ∈ succeeded ms rs) : m ∈ ms := by
  induction ms generalizing rs with
  | nil => cases h
  | cons m' ms ih =>
    rcases rs with _ | ⟨_ | n, rs⟩
    · cases h
    · exact List.mem_cons_of_mem _ (ih h)
    · rcases List.mem_cons.1 h with rfl | h
      · exact List.mem_cons_self ..
      · exact List.mem_cons_of_mem _ (ih h)

/-! ### The receiver -/

private theorem heard_cons (hm : m ≠ []) (ms : List Bytes) : heard (m :: ms) = m :: heard ms := by
  unfold heard
  rw [List.takeWhile_cons, if_pos (decide_eq_true hm)]

private theorem heard_of_not_mem {ms : List Bytes} (h : [] ∉ ms) : heard ms = ms := by
  induction ms with
  | nil => rfl
  | cons m ms ih =>
    rw [List.mem_cons, not_or] at h
    rw [heard_cons (Ne.symm h.1), ih h.2]

/-- The bytes of some messages begin with those of what is heard of them. -/
private theorem encode_heard {ms : List Bytes} (h : [] ∈ ms) : encode true (heard ms) <+: encode false ms := by
  induction ms with
  | nil => cases h
  | cons m ms ih =>
    by_cases hm : m = []
    · -- the header of an empty message is that of EOS
      subst hm
      exact ⟨encode false ms, rfl⟩
    · rcases List.mem_cons.1 h with hnil | h
      · exact absurd hnil.symm hm
      · rw [heard_cons hm, encode_cons, encode_cons, List.prefix_append_right_inj, List.prefix_append_right_inj]
        exact ih h

/-- A stream that begins with some bytes has them for `readn`. -/
private theorem front_supplies : Supplies true (fun s bs => bs <+: lead s) False where
  readn := by
    rintro s x rest h
    have hx : x <+: lead s := (List.prefix_append x rest).trans h
    refine Or.inl ⟨dropItems x.length s, ?_, ?_⟩
    · rw [readn_eq, if_pos hx.length_le, ← List.prefix_iff_eq_take.1 hx]
    · rw [(dropItems_lead hx.length_le).1]
      have hdrop := h.drop x.length
      rw [List.drop_left] at hdrop
      exact hdrop
  dry := nofun

private theorem short_supplies (closed : Bool) :
    Supplies closed (fun s bs => lead s <+: bs ∧ afterLead s = []) True where
  readn := by
    rintro s x rest ⟨h, hafter⟩
    by_cases hlen : x.length ≤ (lead s).length
    · obtain ⟨hlead, ha⟩ := dropItems_lead hlen
      have htake : (lead s).take x.length = x :=
        (List.prefix_iff_eq_take.1 (List.prefix_of_prefix_length_le (List.prefix_append x rest) h hlen)).symm
      refine Or.inl ⟨dropItems x.length s, ?_, ?_, ha.trans hafter⟩
      · rw [readn_eq, if_pos hlen, htake]
      · have hdrop := h.drop x.length
        rw [List.drop_left] at hdrop
        rwa [hlead]
    · refine Or.inr ⟨trivial, ?_⟩
      rw [readn_eq, if_neg hlen, hafter]
  dry := by
    rintro - s n ⟨h, hafter⟩ hn
    rw [readn_eq, List.prefix_nil.1 h, List.length_nil, if_neg (Nat.not_le.2 hn), hafter]

/-- The frames of some messages, or the first bytes of them, are read as these messages. -/
theorem readAs_prefix {ms : List Bytes} (hlt : ∀ m ∈ ms, m.length < 2 ^ 63) {bs : Bytes}
    (hbs : bs <+: encode false ms) : ReadAs bs ms := by
  intro q v j hopen hprobed hv hread hlead hafter size rs as s hrun
  have hheard : ∀ m ∈ heard ms, Sendable m := by
    intro m hm
    refine ⟨?_, hlt m ((List.takeWhile_prefix _).subset hm)⟩
    have hall := List.all_takeWhile (l := ms) (p := (· ≠ []))
    simpa using List.all_eq_true.1 hall m hm
  have hread_of : ∀ {A : List SockArrival → Bytes → Prop} {closed mayWait}, Supplies closed A mayWait →
      A (q.handles j).incoming (encode closed (heard ms)) →
        ∃ as' ph, as = as'.map some ∧ Run (queue closed) List.length rs (.idle (heard ms)) as' ph := by
    intro A closed mayWait hA ha
    have howns : Owns (ReceivingOf A closed j) j (.idle (heard ms)) (v, q) :=
      ⟨hv, ⟨hopen, hprobed, hheard, ha⟩, fun _ => hread⟩
    obtain ⟨as', ph, has, hsteps, -⟩ := run_answered (receivingOf_hears hA j) howns hrun
    exact ⟨as', ph, has, hsteps⟩
  by_cases hempty : [] ∈ ms
  · -- an empty message ends what is heard: its header is there, or the stream breaks off before
    rw [decide_eq_true hempty]
    rcases List.prefix_or_prefix_of_prefix (encode_heard hempty) hbs with hfront | hshort
    · exact hread_of front_supplies (by rw [hlead]; exact hfront)
    · exact hread_of (short_supplies true) ⟨by rw [hlead]; exact hshort, hafter⟩
  · rw [decide_eq_false hempty]
    refine hread_of (short_supplies false) ⟨?_, hafter⟩
    rw [hlead, heard_of_not_mem hempty]
    exact hbs

/-- The frames of some messages and a part of one more are the first bytes of the frames of all. -/
private theorem Remnant.part_le {as : List WriteAnswer} {ms : List Bytes} {part : Bytes} {torn : List Bytes}
    (h : Remnant as ms part torn) (done : List Bytes) : encode false done ++ part <+: encode false (done ++ torn) := by
  cases h with
  | none =>
    rw [List.append_nil, List.append_nil]
  | @part m k _ _ _ =>
    have henc : encode false (done ++ [m]) = encode false done ++ frame m := by
      simp [encode]
    rw [henc, List.prefix_append_right_inj]
    exact List.take_prefix _ _

private theorem Remnant.subset {as : List WriteAnswer} {ms : List Bytes} {part : Bytes} {torn : List Bytes}
    (h : Remnant as ms part torn) : ∀ m ∈ torn, m ∈ ms := by
  cases h with
  | none => exact nofun
  | part hm _ _ =>
    intro m hmem
    rwa [List.mem_singleton.1 hmem]

/-! ### The result -/

/-- A torn frame stays on the stream, and something comes after it. -/
private theorem not_failsClean (hu : u.realHandle = some id) (h : p.Tears id m) : ¬ FailsClean id u p m := by
  intro hclean
  obtain ⟨hlive, hwr, ks, e, post, has, hpos, hsum, hdead⟩ := h
  have hcall := send_live hu hlive hwr (HandleTCP.send_failed hlive.fd has .failed hsum)
  rcases hclean _ _ _ hcall with hsame | hnever
  · have hlen := congrArg List.length hsame
    rw [Process.put_handles_self, List.length_append, List.length_take] at hlen
    omega
  · obtain ⟨ms, rs, s, hrun, hlonger⟩ := sends_reach (u := { u with newConnection := false }) hu
      (p := p.put id { p.handles id with wire := (p.handles id).wire ++ (frame m).take ks.sum, answers := post })
      (hlive.put rfl rfl) (by rw [Process.put_handles_self]; exact hwr) (by rw [Process.put_handles_self]; exact hdead)
    rw [hnever ms rs s hrun] at hlonger
    exact absurd hlonger (Nat.lt_irrefl _)

/-- A failed `HandleUser::send` leaves nothing of its message on the stream, or nothing comes onto the stream
any more, just when the kernel does not fail between the first byte of the frame and the last and move something
again later; and in a run of sends of which none meets such a failure, the frames of the messages whose sends
succeeded are on the stream, and at most a part of one more behind which nothing comes, and a receiver reads
these messages. -/
theorem failed_send_iff (hu : u.realHandle = some id) :
    (FailsClean id u p m ↔ ¬ p.Tears id m) ∧
      ∀ (ms : List Bytes) (rs : List Ret) (s : HandleUser Nat × Process),
        HandleUser.sends tcpHandle ms (u, p) = .ok (rs, s) → NoneTears id ms (u, p) →
          ∃ part torn, Remnant (s.2.handles id).answers ms part torn ∧
            (s.2.handles id).wire = (p.handles id).wire ++ (encode false (succeeded ms rs) ++ part) ∧
            ((∀ m ∈ ms, m.length < 2 ^ 63) →
              ReadAs (encode false (succeeded ms rs) ++ part) (succeeded ms rs ++ torn)) := by
  refine ⟨⟨fun h ht => not_failsClean hu ht h, fun h e u' p' hcall => ?_⟩, fun ms rs s hrun hnone => ?_⟩
  · rcases send_outcome hu hcall with ⟨hok, -⟩ | ⟨-, hsame⟩ | ⟨-, hdead, -⟩ | ⟨-, htears⟩
    · cases hok
    · exact Or.inl hsame
    · right
      intro ms rs s hrun
      have hu' : u'.realHandle = some id := by
        rw [HandleUser.send_user hcall]
        exact hu
      exact (sends_dead hu' hdead hrun).2.1
    · exact absurd htears h
  · obtain ⟨part, torn, hpart, hwire⟩ := sends_wire hu hrun hnone
    refine ⟨part, torn, hpart, hwire, fun hlt => readAs_prefix (fun m hm => ?_) (hpart.part_le _)⟩
    rcases List.mem_append.1 hm with hm | hm
    · exact hlt m (succeeded_subset hm)
    · exact hlt m (hpart.subset m hm)

/-- A process with one socket, whose kernel answers the writes so. -/
private def sender (answers : List WriteAnswer) : Process where
  handles id := if id = 0 then { fd := some 3, answers := answers } else {}
  allocated := 1

/-- A failure that meets nothing of a message, a message that the kernel takes in two pieces, and one of which
nine bytes come onto the stream before the connection is broken. -/
theorem failed_send_run :
    ∃ (u : HandleUser Nat) (p : Process) (s : HandleUser Nat × Process),
      HandleUser.sends tcpHandle [[7], [8], [9, 9], [6]] (u, p) =
          .ok ([.error .EINTR, .ok 1, .error .EPIPE, .error .EPIPE], s) ∧
        FailsClean 0 u p [7] ∧
        (s.2.handles 0).wire = (p.handles 0).wire ++ (encode false [[8]] ++ (frame [9, 9]).take 9) ∧
        ReadAs (encode false [[8]] ++ (frame [9, 9]).take 9) [[8], [9, 9]] := by
  let u : HandleUser Nat := { realHandle := some 0 }
  let p : Process := sender [.failed .EINTR, .moved 3, .moved 6, .moved 9, .broken .EPIPE]
  obtain ⟨s, hrun, hwire⟩ : ∃ s, HandleUser.sends tcpHandle [[7], [8], [9, 9], [6]] (u, p) =
      .ok ([.error .EINTR, .ok 1, .error .EPIPE, .error .EPIPE], s) ∧
      (s.2.handles 0).wire = [] ++ (encode false [[8]] ++ (frame [9, 9]).take 9) := ⟨_, rfl, rfl⟩
  have hfirst : ∀ m, ¬ p.Tears 0 m := by
    rintro m ⟨-, -, ks, e, post, has, hpos, -⟩
    have has : [.failed .EINTR, .moved 3, .moved 6, .moved 9, .broken .EPIPE] = ks.map .moved ++
        .failed e :: post := has
    cases ks with
    | nil => exact absurd hpos (Nat.lt_irrefl 0)
    | cons k ks => cases has
  have hlater : ∀ {q : Process} {m : Bytes} (ks : List Nat),
      (q.handles 0).answers = ks.map .moved ++ [.broken .EPIPE] → ¬ q.Tears 0 m := by
    rintro q m ks hks ⟨-, -, ks', e, post, has, -⟩
    have hmem : WriteAnswer.failed e ∈ ks.map .moved ++ [.broken .EPIPE] := by
      rw [← hks, has]
      simp
    simp at hmem
  have hnone : NoneTears 0 [[7], [8], [9, 9], [6]] (u, p) := by
    intro pre m post rs s' hsplit hpre
    rcases pre with _ | ⟨m1, _ | ⟨m2, _ | ⟨m3, _ | ⟨m4, pre⟩⟩⟩⟩
    · cases hpre
      exact hfirst m
    · cases hsplit
      cases hpre
      exact hlater [3, 6, 9] rfl
    · cases hsplit
      cases hpre
      exact hlater [9] rfl
    · cases hsplit
      cases hpre
      exact hlater [] rfl
    · have hlen := congrArg List.length hsplit
      simp only [List.length_cons, List.length_append, List.length_nil] at hlen
      omega
  obtain ⟨hclean, hruns⟩ := failed_send_iff (p := p) (m := [7]) (rfl : u.realHandle = some 0)
  obtain ⟨part, torn, hpart, hwire', hreads⟩ := hruns _ _ s hrun hnone
  have hsame : part = (frame [9, 9]).take 9 := by
    rw [hwire] at hwire'
    exact (List.append_cancel_left (List.append_cancel_left hwire')).symm
  have hreads := hreads (by decide)
  cases hpart with
  | none => exact absurd hsame (by decide)
  | @part m k hm hk _ =>
    have hlen := congrArg List.length hsame
    rw [List.length_take, Nat.min_eq_left (Nat.le_of_lt hk)] at hlen
    obtain rfl : k = 9 := hlen
    rw [hsame] at hreads
    have hmsg : m = [9, 9] := by
      simp only [List.mem_cons, List.not_mem_nil, or_false] at hm
      rcases hm with rfl | rfl | rfl | rfl
      · exact absurd hk (by decide)
      · exact absurd hk (by decide)
      · rfl
      · exact absurd hk (by decide)
    rw [hmsg] at hreads
    exact ⟨u, p, s, hrun, hclean.2 (hfirst [7]), hwire, hreads⟩

/-- The kernel takes the header and one byte of a message of two bytes and then fails; what is sent next goes onto the
stream behind that byte, and a receiver reads a message that nobody has sent. -/
theorem failed_send_torn :
    ∃ (u u' : HandleUser Nat) (p p' : Process), u.send tcpHandle [1, 1] p = .ok (.error .EINTR, u', p') ∧
      ¬ FailsClean 0 u p [1, 1] ∧
      ∃ s, HandleUser.sends tcpHandle [[2]] (u', p') = .ok ([.ok 1], s) ∧
        ∃ t, Runs.run (HandleUser.ask tcpHandle 0) [.receive 2]
          ({ realHandle := some 0, isReadable := true },
            { handles := fun _ => { fd := some 3, incoming := [.piece 0
              (s.2.handles 0).wire.tail] }, allocated := 1 }) =
          .ok ([some (.message [1, 0])], t) := by
  have htears : (sender [.moved 9, .failed .EINTR]).Tears 0 [1, 1] :=
    ⟨⟨Nat.one_pos, rfl, Option.some_ne_none _⟩, rfl, [9], .EINTR, [], rfl, by decide, by decide, id⟩
  exact ⟨{ realHandle := some 0 }, _, _, _, rfl, not_failsClean rfl htears, _, rfl, _, rfl⟩

end Mtcl
