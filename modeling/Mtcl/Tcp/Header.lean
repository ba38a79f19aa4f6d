import Mtcl.Framing
import Mtcl.Collective.FanIn
import Mtcl.Tcp.Stream

/-!
# Headers on a TCP stream

`HandleTCP::probe` takes any positive count of bytes for a header.  `headerRead_iff` says when a call reads a
whole header or nothing: a blocking one when the next end of file or error does not fall inside the header, a
non-blocking one when what is there is at least a header (`WholeHeader`).

`header_right` carries this over to runs.  Whatever order `HandleUser`, `CollectiveImpl` and the root of a
fan-in call their handles in, as long as no call meets a part of a header or a payload that is cut, every header
they read is the next one that the sender wrote, with its value.
-/

namespace Mtcl

open Arrivals

/-! ### One call -/

/-- `probe` has read one header and its value is in `size`, or it has no success to report and has left the
stream alone. -/
def HeaderRead (s : List SockArrival) (r : Ret) (size : Nat) (s' : List SockArrival) : Prop :=
  (r = .ok sizeofSizeT ∧ ∃ hdr : Bytes, hdr.length = sizeofSizeT ∧ incoming s = hdr ++ incoming s' ∧
      size = Words.ofBE hdr) ∨
    (∀ n, r ≠ .ok (n + 1)) ∧ incoming s' = incoming s

namespace HandleTCP

/-- What a `probe` would read is a whole header, or nothing. -/
def WholeHeader (h : HandleTCP) (blocking : Bool) : Prop :=
  h.fd = none ∨ if blocking then lead h.incoming = [] ∨ sizeofSizeT ≤ (lead h.incoming).length
    else present h.incoming = [] ∨ sizeofSizeT ≤ (present h.incoming).length

/-- A payload of `n` bytes can be read whole, or nothing comes after what there is of it. -/
def WholePayload (h : HandleTCP) (n : Nat) : Prop :=
  h.fd = none ∨ n ≤ (lead h.incoming).length ∨ Arrivals.incoming (afterLead h.incoming) = []

end HandleTCP

private theorem overlay_of_length (garbage : Nat → UInt8) {k : Nat} {bs : Bytes} (h : bs.length = k) :
    overlay garbage k bs = bs := by
  subst h
  exact overlay_full garbage bs

private theorem headerRead_whole {s : List SockArrival} {k : Nat} {bs : Bytes} (hk : k = sizeofSizeT)
    (hbs : bs = (incoming s).take k) (hle : k ≤ (lead s).length) (garbage : Nat → UInt8) :
    HeaderRead s (.ok sizeofSizeT) (Words.ofBE (overlay garbage sizeofSizeT bs)) (dropItems k s) := by
  have hlen : (lead s).length ≤ (incoming s).length := by
    rw [incoming_eq s, List.length_append]
    exact Nat.le_add_right ..
  have hbs' : bs.length = sizeofSizeT := by
    rw [hbs, List.length_take, Nat.min_eq_left (hle.trans hlen), hk]
  refine Or.inl ⟨rfl, bs, hbs', ?_, by rw [overlay_of_length garbage hbs']⟩
  rw [incoming_dropItems hle, hbs, List.take_append_drop]

private theorem not_headerRead {s s' : List SockArrival} {size k : Nat} (hk : k < sizeofSizeT)
    (hlen : (incoming s).length = k + (incoming s').length) : ¬ HeaderRead s (.ok sizeofSizeT) size s' := by
  rintro (⟨-, hdr, hhdr, hs, -⟩ | ⟨hr, -⟩)
  · rw [hs, List.length_append, hhdr] at hlen
    omega
  · exact hr 7 rfl

/-- `readn` either gets all the bytes, or what there is before the end of file or the error, which it takes if there
is nothing else. -/
private theorem readn_cases {n : Nat} {s s' : List SockArrival} {r : Ret} {bs : Bytes}
    (h : readn n s = .ok (r, bs, s')) :
    (n ≤ (lead s).length ∧ r = .ok n ∧ bs = (lead s).take n ∧ s' = dropItems n s) ∨
      (lead s).length < n ∧ incoming s = lead s ++ incoming s' ∧ incoming s' = incoming (afterLead s) ∧
        ((lead s = [] ∧ ∀ k, r ≠ .ok (k + 1)) ∨ lead s ≠ [] ∧ r = .ok (lead s).length) := by
  rw [readn_eq] at h
  by_cases hle : n ≤ (lead s).length
  · rw [if_pos hle] at h
    cases h
    exact Or.inl ⟨hle, rfl, rfl, rfl⟩
  · rw [if_neg hle] at h
    refine Or.inr ⟨Nat.lt_of_not_le hle, ?_⟩
    have hin := incoming_eq s
    rcases afterLead_cases s with ha | ⟨t, ha⟩ | ⟨e, t, ha⟩
    · rw [ha] at h
      cases h
    · rw [ha] at h hin
      cases h
      refine ⟨hin, by rw [ha], ?_⟩
      by_cases hl : lead s = []
      · exact Or.inl ⟨hl, by simp [hl]⟩
      · exact Or.inr ⟨hl, rfl⟩
    · rw [ha] at h hin
      cases h
      refine ⟨hin, by rw [ha]; rfl, ?_⟩
      by_cases hl : lead s = []
      · exact Or.inl ⟨hl, by simp [hl]⟩
      · exact Or.inr ⟨hl, if_neg (by simpa using hl)⟩

/-- A call of `probe` reads one header, or reports no success and takes nothing, just when it does not meet a part of a
header. -/
theorem headerRead_iff {garbage : Nat → UInt8} {h h' : HandleTCP} {size size' : Nat} {blocking : Bool} {r : Ret}
    (he : h.probe garbage size blocking = .ok (r, size', h')) :
    HeaderRead h.incoming r size' h'.incoming ↔ h.WholeHeader blocking := by
  by_cases hfd : h.fd = none
  · refine iff_of_true ?_ (Or.inl hfd)
    unfold HandleTCP.probe at he
    rw [hfd] at he
    cases he
    exact Or.inr ⟨nofun, rfl⟩
  cases blocking with
  | true =>
    rw [HandleTCP.probe_blocking hfd] at he
    rcases hread : readn sizeofSizeT h.incoming with st | ⟨r0, bs, s⟩
    · rw [hread] at he
      cases he
    · rw [hread] at he
      have hwhole : h.WholeHeader true ↔ lead h.incoming = [] ∨ sizeofSizeT ≤ (lead h.incoming).length :=
        ⟨fun hw => hw.resolve_left hfd, Or.inr⟩
      rw [hwhole]
      rcases readn_cases hread with ⟨hle, rfl, hbs, rfl⟩ | ⟨hlt, hin, -, ⟨hnil, hr⟩ | ⟨hne, rfl⟩⟩
      · cases he
        refine iff_of_true (headerRead_whole rfl ?_ hle garbage) (Or.inr hle)
        rw [hbs, incoming_eq h.incoming, List.take_append_of_le_length hle]
      · refine iff_of_true (Or.inr ?_) (Or.inl hnil)
        rw [hnil, List.nil_append] at hin
        rcases r0 with e | _ | n
        · cases he
          exact ⟨nofun, hin.symm⟩
        · cases he
          exact ⟨nofun, hin.symm⟩
        · exact absurd rfl (hr n)
      · obtain ⟨k, hk⟩ : ∃ k, (lead h.incoming).length = k + 1 :=
          Nat.exists_eq_succ_of_ne_zero fun e => hne (List.length_eq_zero_iff.1 e)
        rw [hk] at he
        cases he
        refine iff_of_false (not_headerRead hlt ?_) (by rintro (e | hle); exacts [hne e, absurd hle (Nat.not_le.2 hlt)])
        rw [hin, List.length_append]
  | false =>
    rw [HandleTCP.probe_nonblocking hfd] at he
    have hwhole : h.WholeHeader false ↔ present h.incoming = [] ∨ sizeofSizeT ≤ (present h.incoming).length :=
      ⟨fun hw => hw.resolve_left hfd, Or.inr⟩
    rw [hwhole]
    by_cases hp : present h.incoming = []
    · refine iff_of_true (Or.inr ?_) (Or.inl hp)
      obtain ⟨hin, hitems⟩ := poll_absent (n := sizeofSizeT) hp
      rcases hpoll : poll sizeofSizeT h.incoming with ⟨_ | bs | _ | e, s⟩
      · rw [hpoll] at he hin
        cases he
        exact ⟨nofun, hin⟩
      · rw [hpoll] at hitems
        exact absurd rfl (hitems bs)
      · rw [hpoll] at he hin
        cases he
        exact ⟨nofun, hin⟩
      · rw [hpoll] at he hin
        cases he
        exact ⟨nofun, hin⟩
    · rw [poll_present (by decide) hp] at he
      cases he
      have hpre := present_prefix h.incoming
      by_cases hle : sizeofSizeT ≤ (present h.incoming).length
      · refine iff_of_true ?_ (Or.inr hle)
        rw [Nat.min_eq_left hle]
        refine headerRead_whole rfl ?_ (hle.trans hpre.length_le) garbage
        obtain ⟨t, ht⟩ := hpre
        rw [incoming_eq h.incoming, ← ht, List.append_assoc, List.take_append_of_le_length hle]
      · refine iff_of_false ?_ (by rintro (e | h); exacts [hp e, hle h])
        rw [Nat.min_eq_right (Nat.le_of_not_le hle)]
        refine not_headerRead (Nat.lt_of_not_le hle) ?_
        rw [incoming_dropItems hpre.length_le, List.length_drop]
        have hlen : (present h.incoming).length ≤ (incoming h.incoming).length := by
          rw [incoming_eq h.incoming, List.length_append]
          exact hpre.length_le.trans (Nat.le_add_right ..)
        omega

/-! ### One handle -/

namespace Process

variable (ms : Nat → List Bytes) (all : Nat → Bytes)

/-- Of the bytes `all id` that arrive on the handle, whole frames of `ms id` have been taken; or nothing is left
to take. -/
def AtFrame (id : Nat) (p : Process) : Prop :=
  (p.handles id).fd = none ∨ incoming (p.handles id).incoming = [] ∨
    ∃ pre q, ms id = pre ++ q ∧ all id = pre.flatMap frame ++ incoming (p.handles id).incoming

/-- Whole frames have been taken, and the header of a message of `n` bytes. -/
def BehindHeader (id n : Nat) (p : Process) : Prop :=
  (p.handles id).fd = none ∨ ∃ pre m q, ms id = pre ++ m :: q ∧ m.length = n ∧
    all id = pre.flatMap frame ++ (Words.toBE sizeofSizeT n ++ incoming (p.handles id).incoming)

/-- The call does not meet a part of a header, or a payload that is cut. -/
def Uncut : Call Nat Process → Prop
  | .probe id blocking p _ _ _ => (p.handles id).WholeHeader blocking
  | .receive id n p _ _ _ => (p.handles id).WholePayload n

/-- The call is a `receive`, or a `probe` that reads the next header of the sender or takes nothing. -/
def HeaderRight : Call Nat Process → Prop
  | .probe id _ p r size p' => HeaderRead (p.handles id).incoming r size (p'.handles id).incoming ∧
      (r = .ok sizeofSizeT → ∃ pre q, ms id = pre ++ q ∧
        all id = pre.flatMap frame ++ incoming (p.handles id).incoming ∧ size = (q.head?.map List.length).getD 0)
  | .receive .. => True

variable {ms all} {id : Nat} {p p' : Process}

theorem AtFrame.congr (h : (p'.handles id).incoming = (p.handles id).incoming)
    (hfd : (p.handles id).fd = none → (p'.handles id).fd = none) (ha : p.AtFrame ms all id) : p'.AtFrame ms all id := by
  unfold AtFrame
  rw [h]
  exact ha.imp_left hfd

theorem BehindHeader.congr {n : Nat} (h : (p'.handles id).incoming = (p.handles id).incoming)
    (hfd : (p.handles id).fd = none → (p'.handles id).fd = none) (ha : p.BehindHeader ms all id n) :
    p'.BehindHeader ms all id n := by
  unfold BehindHeader
  rw [h]
  exact ha.imp_left hfd

/-- A `probe` before a frame that does not meet a part of a header. -/
private theorem probe_atFrame (hall : all id <+: encode true (ms id)) (hlt : ∀ m ∈ ms id, m.length < 256 ^ sizeofSizeT)
    {size size' : Nat} {blocking : Bool} {r : Ret} (hat : p.AtFrame ms all id)
    (hw : (p.handles id).WholeHeader blocking) (h : (tcpHandle id).probe size blocking p = .ok (r, size', p')) :
    HeaderRight ms all (.probe id blocking p r size' p') ∧
      ((∃ k, r = .ok (k + 1)) → size' ≠ 0 → p'.BehindHeader ms all id size') ∧
      ((∀ k, r ≠ .ok (k + 1)) → p'.AtFrame ms all id) := by
  obtain ⟨s, hp'⟩ := probe_eq_ok h
  obtain ⟨k, hd, h⟩ := bind_eq_ok.1 h
  obtain ⟨-, -, rfl⟩ := deref_eq_ok.1 hd
  obtain ⟨⟨r1, s1, k1⟩, h1, h⟩ := bind_eq_ok.1 h
  cases h
  have hfd : ((p.put id k1).handles id).fd = (p.handles id).fd := by
    rw [hp', put_handles_self]
  have hread := (headerRead_iff h1).2 hw
  have hin : k1.incoming = ((p.put id k1).handles id).incoming := by rw [put_handles_self]
  rw [hin] at hread
  rcases hread with ⟨rfl, hdr, hlen, hs, hsize⟩ | ⟨hr, hs⟩
  · rcases hat with hnone | hnil | ⟨pre, q, hms, hpre⟩
    · unfold HandleTCP.probe at h1
      rw [hnone] at h1
      cases h1
    · rw [hnil] at hs
      have hzero := congrArg List.length hs
      have hpos : 0 < sizeofSizeT := by decide
      rw [List.length_append, hlen, List.length_nil] at hzero
      omega
    · -- the bytes read are the header of the next frame
      have hnext : hdr ++ incoming ((p.put id k1).handles id).incoming <+: encode true q := by
        rw [hpre, hs, hms] at hall
        have hsplit : encode true (pre ++ q) = pre.flatMap frame ++ encode true q := by
          simp [encode, List.flatMap_append]
        rw [hsplit] at hall
        exact (List.prefix_append_right_inj _).1 hall
      have hval : size' = (q.head?.map List.length).getD 0 ∧
          ∀ m q', q = m :: q' → hdr = Words.toBE sizeofSizeT m.length := by
        cases q with
        | nil =>
          have hzero : encode true [] = List.replicate sizeofSizeT 0 := rfl
          rw [hzero] at hnext
          have : hdr = List.replicate sizeofSizeT 0 :=
            ((List.prefix_append _ _).trans hnext).eq_of_length (by rw [hlen, List.length_replicate])
          refine ⟨?_, fun m q' e => absurd e (List.cons_ne_nil m q').symm⟩
          rw [hsize, this]
          decide
        | cons m q' =>
          rw [encode_cons] at hnext
          have : hdr = Words.toBE sizeofSizeT m.length :=
            List.prefix_of_prefix_length_le ((List.prefix_append _ _).trans hnext) (List.prefix_append _ _)
              (by rw [hlen, Words.length_toBE]) |>.eq_of_length (by rw [hlen, Words.length_toBE])
          refine ⟨?_, ?_⟩
          · rw [hsize, this, Words.ofBE_toBE (hlt m (by rw [hms]; simp))]
            rfl
          · rintro m' q'' ⟨⟩
            exact this
      refine ⟨⟨Or.inl ⟨rfl, hdr, hlen, hs, hsize⟩, fun _ => ⟨pre, q, hms, hpre, hval.1⟩⟩, fun _ hne => Or.inr ?_,
        fun hr => absurd rfl (hr 7)⟩
      cases q with
      | nil => exact absurd hval.1 hne
      | cons m q' =>
        refine ⟨pre, m, q', hms, hval.1.symm, ?_⟩
        rw [hpre, hs, hval.2 m q' rfl, hval.1]
        rfl
  · refine ⟨⟨Or.inr ⟨hr, hs⟩, fun e => absurd e (hr 7)⟩, fun h => absurd h (not_exists.2 hr), fun _ => ?_⟩
    unfold AtFrame
    rw [hs, hfd]
    exact hat

/-- A `receive` behind a header whose payload is not cut. -/
private theorem receive_atFrame (hall : all id <+: encode true (ms id)) {n : Nat} {r : Ret} {bs : Bytes}
    (hb : p.BehindHeader ms all id n) (hw : (p.handles id).WholePayload n)
    (h : (tcpHandle id).receive n p = .ok (r, bs, p')) : p'.AtFrame ms all id := by
  obtain ⟨s, hp'⟩ := receive_eq_ok h
  obtain ⟨k, hd, h⟩ := bind_eq_ok.1 h
  obtain ⟨-, -, rfl⟩ := deref_eq_ok.1 hd
  obtain ⟨⟨r1, s1, k1⟩, h1, h⟩ := bind_eq_ok.1 h
  cases h
  by_cases hfd : (p.handles id).fd = none
  · refine Or.inl ?_
    rw [hp', put_handles_self]
    exact hfd
  · obtain ⟨pre, m, q, hms, hlen, hpre⟩ := hb.resolve_left hfd
    rw [HandleTCP.receive_socket hfd] at h1
    rcases hread : readn n (p.handles id).incoming with st | ⟨r0, bs0, s0⟩
    · rw [hread] at h1
      cases h1
    · rw [hread] at h1
      cases h1
      unfold AtFrame
      rw [put_handles_self]
      rcases readn_cases hread with ⟨hle, -, -, rfl⟩ | ⟨hlt, -, hin, -⟩
      · refine Or.inr (Or.inr ⟨pre ++ [m], q, by simp [hms], ?_⟩)
        have hsplit : encode true (pre ++ m :: q) =
            pre.flatMap frame ++ (Words.toBE sizeofSizeT n ++ (m ++ encode true q)) := by
          simp [encode, List.flatMap_append, frame, hlen]
        rw [hpre, hms, hsplit, List.prefix_append_right_inj, List.prefix_append_right_inj] at hall
        have hin : n ≤ (incoming (p.handles id).incoming).length := by
          rw [incoming_eq, List.length_append]
          exact hle.trans (Nat.le_add_right ..)
        have htake : (incoming (p.handles id).incoming).take n = m := by
          obtain ⟨t, ht⟩ := hall
          have := congrArg (List.take n) ht
          rwa [List.take_append_of_le_length hin, ← hlen, List.take_left' rfl, hlen] at this
        rw [hpre, incoming_dropItems hle, List.flatMap_append, List.append_assoc]
        have hframe : [m].flatMap frame = Words.toBE sizeofSizeT n ++ m := by simp [frame, hlen]
        rw [hframe, List.append_assoc, ← htake, List.take_append_drop]
      · refine Or.inr (Or.inl ?_)
        change incoming s0 = []
        rw [hin]
        exact (hw.resolve_left hfd).resolve_left (Nat.not_le.2 hlt)

private theorem close_streams {wr rd : Bool} (h : (tcpHandle id).close wr rd p = .ok p') (i : Nat) :
    (p'.handles i).incoming = (p.handles i).incoming ∧ (p'.handles i).probed = (p.handles i).probed ∧
      ((p.handles i).fd = none → (p'.handles i).fd = none) ∧ (i = id → rd = true → (p'.handles i).closedRd = true) := by
  obtain ⟨k, -, h⟩ := bind_eq_ok.1 h
  cases h
  obtain ⟨-, fd, wire, answers, eos, deleted, hh, -⟩ := p.closeHandle_handles id wr rd
  by_cases hi : i = id
  · subst hi
    refine ⟨by rw [hh, Function.update_self], by rw [hh, Function.update_self],
      fun hfd => (p.closeHandle_noFd hfd wr rd).2.2.2, fun _ hrd => ?_⟩
    rw [hh, Function.update_self, hrd]
    exact Bool.or_true _
  · rw [hh, Function.update_of_ne hi]
    exact ⟨rfl, rfl, fun e => e, fun e => absurd e hi⟩

/-- As long as no call has met a part of a header or of a payload, the headers are right and `A` holds. -/
def Kept (ms : Nat → List Bytes) (all : Nat → Bytes) (A : Process → Prop)
    (s : Process × List (Call Nat Process)) : Prop :=
  (∀ c ∈ s.2, Uncut c) → (∀ c ∈ s.2, HeaderRight ms all c) ∧ A s.1

theorem kept_nil {A : Process → Prop} (h : A p) : Kept ms all A (p, []) := fun _ =>
    ⟨fun _ hc => absurd hc List.not_mem_nil, h⟩

private theorem Kept.imp {A B : Process → Prop} {s s' : Process × List (Call Nat Process)} (h : Kept ms all A s)
    (hlog : s'.2 = s.2) (hAB : A s.1 → B s'.1) : Kept ms all B s' := by
  intro hu
  rw [hlog] at hu ⊢
  exact ⟨(h hu).1, hAB (h hu).2⟩

private theorem Kept.call {A B : Process → Prop} {s : Process × List (Call Nat Process)} (h : Kept ms all A s)
    {c : Call Nat Process} {p' : Process} (hAB : A s.1 → Uncut c → HeaderRight ms all c ∧ B p') :
    Kept ms all B (p', c :: s.2) := by
  intro hu
  obtain ⟨h1, h2⟩ := h fun c hc => hu c (List.mem_cons_of_mem _ hc)
  obtain ⟨h3, h4⟩ := hAB h2 (hu c (List.mem_cons_self ..))
  exact ⟨fun d hd => (List.mem_cons.1 hd).elim (fun e => e ▸ h3) (h1 d), h4⟩

private theorem watch_probe {s s' : Process × List (Call Nat Process)} {size size' : Nat} {blocking : Bool} {r : Ret}
    (h : (watch tcpHandle id).probe size blocking s = .ok (r, size', s')) :
    (tcpHandle id).probe size blocking s.1 = .ok (r, size', s'.1) ∧
      s' = (s'.1, .probe id blocking s.1 r size' s'.1 :: s.2) := by
  obtain ⟨⟨r1, s1, w1⟩, h1, h⟩ := bind_eq_ok.1 h
  cases h
  exact ⟨h1, rfl⟩

private theorem watch_receive {s s' : Process × List (Call Nat Process)} {n : Nat} {r : Ret} {bs : Bytes}
    (h : (watch tcpHandle id).receive n s = .ok (r, bs, s')) :
    (tcpHandle id).receive n s.1 = .ok (r, bs, s'.1) ∧ s' = (s'.1, .receive id n s.1 r bs s'.1 :: s.2) := by
  obtain ⟨⟨r1, b1, w1⟩, h1, h⟩ := bind_eq_ok.1 h
  cases h
  exact ⟨h1, rfl⟩

private theorem watch_close {s s' : Process × List (Call Nat Process)} {wr rd : Bool}
    (h : (watch tcpHandle id).close wr rd s = .ok s') :
    (tcpHandle id).close wr rd s.1 = .ok s'.1 ∧ s'.2 = s.2 := by
  obtain ⟨w1, h1, h⟩ := bind_eq_ok.1 h
  cases h
  exact ⟨h1, rfl⟩

private theorem base_eq_ok {b : CommBase} (h : (tcpHandle id).base p = .ok b) :
    p.deref id = .ok (p.handles id) ∧ b = (p.handles id).toCommBase := by
  obtain ⟨k, hd, h⟩ := bind_eq_ok.1 h
  obtain ⟨-, -, rfl⟩ := deref_eq_ok.1 hd
  exact ⟨hd, (Except.ok.inj h).symm⟩

private theorem base_of_deref (h : p.deref id = .ok (p.handles id)) :
    (tcpHandle id).base p = .ok (p.handles id).toCommBase := by
  change (p.deref id >>= _) = _
  rw [h]
  rfl

/-- A TCP handle keeps to the frames as long as no call is cut. -/
theorem watch_framed (hall : all id <+: encode true (ms id)) (hlt : ∀ m ∈ ms id, m.length < 256 ^ sizeofSizeT) :
    Framed (watch tcpHandle id) (Kept ms all (AtFrame ms all id)) (fun n => Kept ms all (BehindHeader ms all id n))
      (Kept ms all fun _ => True) where
  at_over h := h.imp rfl fun _ => trivial
  behind_over h := h.imp rfl fun _ => trivial
  probe := by
    intro size blocking s r size' s' hat h
    obtain ⟨h1, hs'⟩ := watch_probe h
    rw [hs']
    exact ⟨hat.call fun ha hu => ⟨(probe_atFrame hall hlt ha hu h1).1, trivial⟩,
      fun hr hne => hat.call fun ha hu =>
      ⟨(probe_atFrame hall hlt ha hu h1).1, (probe_atFrame hall hlt ha hu h1).2.1 hr hne⟩,
      fun hr => hat.call fun ha hu => ⟨(probe_atFrame hall hlt ha hu h1).1, (probe_atFrame hall hlt ha hu h1).2.2 hr⟩⟩
  receive := by
    intro n s r bs s' hb h
    obtain ⟨h1, hs'⟩ := watch_receive h
    rw [hs']
    exact hb.call fun ha hu => ⟨trivial, receive_atFrame hall ha hu h1⟩
  setProbed := by
    intro pr s
    have hh : (((tcpHandle id).setProbed pr s.1).handles id).incoming = (s.1.handles id).incoming ∧
        (((tcpHandle id).setProbed pr s.1).handles id).fd = (s.1.handles id).fd := by
      change ((s.1.put id _).handles id).incoming = _ ∧ ((s.1.put id _).handles id).fd = _
      rw [put_handles_self]
      exact ⟨rfl, rfl⟩
    exact ⟨fun ha => ha.imp rfl fun h => h.congr hh.1 (fun e => hh.2.trans e),
      fun n hb => hb.imp rfl fun h => h.congr hh.1 (fun e => hh.2.trans e), fun ho => ho.imp rfl fun _ => trivial⟩
  close := by
    intro wr rd s s' h
    obtain ⟨h1, hlog⟩ := watch_close h
    obtain ⟨h2, -, h3, -⟩ := close_streams h1 id
    exact ⟨fun ha => ha.imp hlog fun h => h.congr h2 h3, fun ho => ho.imp hlog fun _ => trivial⟩
  base_setProbed := by
    intro pr s b hb
    obtain ⟨-, rfl⟩ := base_eq_ok hb
    change ((s.1.put id _).handles id).probed = pr
    rw [put_handles_self]
  base_probe := by
    intro size blocking s r size' s' b' h hb
    obtain ⟨h1, -⟩ := watch_probe h
    obtain ⟨k, hd, -⟩ := bind_eq_ok.1 h1
    obtain ⟨s0, hs0⟩ := probe_eq_ok h1
    obtain ⟨-, rfl⟩ := base_eq_ok hb
    have hk := (deref_eq_ok.1 hd).2.2
    rw [← hk] at hd
    refine ⟨_, base_of_deref hd, ?_⟩
    rw [hs0, put_handles_self]
  base_receive := by
    intro n s r bs s' b' h hb
    obtain ⟨h1, -⟩ := watch_receive h
    obtain ⟨k, hd, -⟩ := bind_eq_ok.1 h1
    obtain ⟨s0, hs0⟩ := receive_eq_ok h1
    obtain ⟨-, rfl⟩ := base_eq_ok hb
    have hk := (deref_eq_ok.1 hd).2.2
    rw [← hk] at hd
    refine ⟨_, base_of_deref hd, ?_⟩
    rw [hs0, put_handles_self]
  base_close := by
    intro wr rd s s' b' h hb
    obtain ⟨h1, -⟩ := watch_close h
    obtain ⟨k, hd, -⟩ := bind_eq_ok.1 h1
    obtain ⟨-, rfl⟩ := base_eq_ok hb
    have hk := (deref_eq_ok.1 hd).2.2
    rw [← hk] at hd
    obtain ⟨-, h2, -, h3⟩ := close_streams h1 id
    exact ⟨⟨_, base_of_deref hd, h2⟩, h3 rfl⟩

/-! ### The participants of a fan-in -/

variable (ms all) in
/-- Every participant stands before a header. -/
def AllAtFrame (c : FanInGeneric Nat) (p : Process) : Prop := ∀ h ∈ c.participants, p.AtFrame ms all h

variable (ms all) in
/-- The participant whose header has been read stands behind it, and every other one before a header. -/
def OneBehind (c : FanInGeneric Nat) (n : Nat) (p : Process) : Prop :=
  ∃ h, c.probedIdx.bind (c.participants[·]?) = some h ∧ p.BehindHeader ms all h n ∧
    ∀ j ∈ c.participants, j ≠ h → p.AtFrame ms all j

private theorem AtFrame.of_put {i : Nat} {h : HandleTCP} (hp : p' = p.put id h) (hi : i ≠ id)
    (ha : p.AtFrame ms all i) : p'.AtFrame ms all i := by
  subst hp
  exact ha.congr (by rw [put_handles_ne _ _ hi]) fun e => by rw [put_handles_ne _ _ hi, e]

private theorem AtFrame.close {wr rd : Bool} (h : (tcpHandle id).close wr rd p = .ok p') {i : Nat}
    (ha : p.AtFrame ms all i) : p'.AtFrame ms all i :=
  ha.congr (close_streams h i).1 (close_streams h i).2.2.1

private theorem setProbed_streams (pr : Bool × Nat) (p : Process) (id i : Nat) :
    (((tcpHandle id).setProbed pr p).handles i).incoming = (p.handles i).incoming ∧
      ((p.handles i).fd = none → (((tcpHandle id).setProbed pr p).handles i).fd = none) := by
  change ((p.put id { p.handles id with probed := pr }).handles i).incoming = (p.handles i).incoming ∧
    ((p.handles i).fd = none → ((p.put id { p.handles id with probed := pr }).handles i).fd = none)
  by_cases hi : i = id
  · subst hi
    rw [put_handles_self]
    exact ⟨rfl, fun e => e⟩
  · rw [put_handles_ne _ _ hi]
    exact ⟨rfl, fun e => e⟩

variable (ms all) in
/-- What a call of `FanInGeneric::probe` leaves, when it returns. -/
private def FanInLeft (r : Ret) (size : Nat) (c : FanInGeneric Nat) (s : Process × List (Call Nat Process)) : Prop :=
  c.participants.Nodup ∧ Kept ms all (fun _ => True) s ∧
    ((∃ k, r = .ok (k + 1)) → size ≠ 0 → Kept ms all (OneBehind ms all c size) s) ∧
    ((∀ k, r ≠ .ok (k + 1)) → Kept ms all (AllAtFrame ms all c) s)

private theorem fanInLeft_leave {c c' : FanInGeneric Nat} {s s' : Process × List (Call Nat Process)} {r r' : Ret}
    {size size' : Nat} (hn : c.participants.Nodup) (hr : ∀ k, r ≠ .ok (k + 1))
    (hk : Kept ms all (AllAtFrame ms all c) s) (h : c.leave r size s = (r', size', c', s')) :
    FanInLeft ms all r' size' c' s' := by
  unfold FanInGeneric.leave at h
  split at h
  · cases h
    exact ⟨hn, hk.imp rfl fun _ => trivial, fun _ e => absurd rfl e, fun hr => absurd rfl (hr 7)⟩
  · cases h
    exact ⟨hn, hk.imp rfl fun _ => trivial, fun ⟨k, e⟩ => absurd e (hr k), fun _ => hk⟩

/-- The loop of `FanInGeneric::probe` keeps to the frames of every participant. -/
private theorem probeLoop_left (hall : ∀ id, all id <+: encode true (ms id))
    (hlt : ∀ id, ∀ m ∈ ms id, m.length < 256 ^ sizeofSizeT) {blocking : Bool} {fuel iter : Nat} {errno : Errno}
    {size size' : Nat} {c c' : FanInGeneric Nat} {s s' : Process × List (Call Nat Process)} {r : Ret}
    (hn : c.participants.Nodup) (hk : Kept ms all (AllAtFrame ms all c) s)
    (h : FanInGeneric.probeLoop (watch tcpHandle) blocking fuel iter errno size c s = .ok (r, size', c', s')) :
    FanInLeft ms all r size' c' s' := by
  induction fuel generalizing iter errno size c s with
  | zero =>
    unfold FanInGeneric.probeLoop at h
    split at h
    · exact fanInLeft_leave hn (error_ne_succ errno) hk (Except.ok.inj h)
    · cases h
  | succ fuel ih =>
    unfold FanInGeneric.probeLoop at h
    split at h
    · exact fanInLeft_leave hn (error_ne_succ errno) hk (Except.ok.inj h)
    · rcases hx : c.participants[iter]? with _ | x
      · rw [hx] at h
        cases h
      · rw [hx] at h
        dsimp only at h
        obtain ⟨⟨r1, size1, s1⟩, h1, h⟩ := bind_eq_ok.1 h
        obtain ⟨hcall, hs1⟩ := watch_probe h1
        obtain ⟨stream, hput⟩ := probe_eq_ok hcall
        have hmem := List.mem_of_getElem? hx
        -- the other participants keep their place, and `x` too if nothing has been read
        have hothers : AllAtFrame ms all c s.1 → ∀ j ∈ c.participants, j ≠ x → s1.1.AtFrame ms all j :=
          fun ha j hj hne => (ha j hj).of_put hput hne
        have hstay : (∀ k, r1 ≠ .ok (k + 1)) → Kept ms all (AllAtFrame ms all c) s1 := by
          intro hr
          rw [hs1]
          refine hk.call fun ha hu => ?_
          obtain ⟨hright, -, hat⟩ := probe_atFrame (hall x) (hlt x) (ha x hmem) hu hcall
          refine ⟨hright, fun j hj => ?_⟩
          by_cases hjx : j = x
          · exact hjx ▸ hat hr
          · exact hothers ha j hj hjx
        rcases r1 with e | _ | n
        · dsimp only at h
          split at h
          · exact ih hn (hstay (error_ne_succ e)) h
          · exact fanInLeft_leave hn (error_ne_succ e) (hstay (error_ne_succ e)) (Except.ok.inj h)
        · exact fanInLeft_leave hn zero_ne_succ (hstay zero_ne_succ) (Except.ok.inj h)
        · dsimp only at h
          by_cases hsize : size1 = 0
          · -- EOS: the participant is closed and erased
            rw [if_pos hsize] at h
            obtain ⟨s2, h2, h⟩ := bind_eq_ok.1 h
            obtain ⟨hclose, hlog⟩ := watch_close h2
            have hn' : (c.participants.eraseIdx iter).Nodup := hn.eraseIdx iter
            have hk1 : Kept ms all (AllAtFrame ms all { c with participants := c.participants.eraseIdx iter }) s1 := by
              rw [hs1]
              refine hk.call fun ha hu => ⟨(probe_atFrame (hall x) (hlt x) (ha x hmem) hu hcall).1, fun j hj => ?_⟩
              exact hothers ha j (List.mem_of_mem_eraseIdx hj) fun e => FanInGeneric.not_mem_eraseIdx hn hx (e ▸ hj)
            have hk2 : Kept ms all (AllAtFrame ms all { c with participants := c.participants.eraseIdx iter }) s2 :=
              hk1.imp hlog fun ha j hj => (ha j hj).close hclose
            split at h
            · split at h
              · exact ih hn' hk2 h
              · exact fanInLeft_leave hn' (error_ne_succ errno) hk2 (Except.ok.inj h)
            · split at h
              · exact ih hn' hk2 h
              · exact fanInLeft_leave hn' (error_ne_succ errno) hk2 (Except.ok.inj h)
          · rw [if_neg hsize] at h
            have hne : c.participants ≠ [] := List.ne_nil_of_mem hmem
            have hleave := Except.ok.inj h
            unfold FanInGeneric.leave at hleave
            rw [if_neg (by simpa using hne)] at hleave
            cases hleave
            have hb : Kept ms all (OneBehind ms all { c with probedIdx := some iter } size') s1 := by
              rw [hs1]
              refine hk.call fun ha hu => ?_
              obtain ⟨hright, hbehind, -⟩ := probe_atFrame (hall x) (hlt x) (ha x hmem) hu hcall
              exact ⟨hright, x, hx, hbehind ⟨n, rfl⟩ hsize, hothers ha⟩
            have hstreams := setProbed_streams (true, size') s1.1 x
            have hb' : Kept ms all (OneBehind ms all { c with probedIdx := some iter } size')
                ((watch tcpHandle x).setProbed (true, size') s1) := by
              refine hb.imp rfl ?_
              rintro ⟨y, hy, hbehind, hat⟩
              exact ⟨y, hy, hbehind.congr (hstreams y).1 (hstreams y).2,
                fun j hj hne => (hat j hj hne).congr (hstreams j).1 (hstreams j).2⟩
            exact ⟨hn, hb'.imp rfl fun _ => trivial, fun _ _ => hb', fun hr => absurd rfl (hr n)⟩

private theorem fanIn_receive_left (hall : ∀ id, all id <+: encode true (ms id)) {errno : Errno} {n : Nat}
    {c c' : FanInGeneric Nat} {s s' : Process × List (Call Nat Process)} {r : Ret} {bs : Bytes}
    (hk : Kept ms all (OneBehind ms all c n) s)
    (h : FanInGeneric.receive (watch tcpHandle) errno n c s = .ok (r, bs, c', s')) :
    c'.participants = c.participants ∧ Kept ms all (AllAtFrame ms all c') s' := by
  unfold FanInGeneric.receive at h
  rcases hx : c.probedIdx.bind (c.participants[·]?) with _ | x
  · rw [hx] at h
    cases h
  · rw [hx] at h
    obtain ⟨⟨r1, bs1, s1⟩, h1, h⟩ := bind_eq_ok.1 h
    obtain ⟨hcall, hs1⟩ := watch_receive h1
    obtain ⟨stream, hput⟩ := receive_eq_ok hcall
    have hk1 : Kept ms all (AllAtFrame ms all c) s1 := by
      rw [hs1]
      refine hk.call fun ⟨y, hy, hbehind, hat⟩ hu => ⟨trivial, fun j hj => ?_⟩
      obtain rfl : x = y := Option.some.inj (hx.symm.trans hy)
      by_cases hjx : j = x
      · subst hjx
        exact receive_atFrame (hall j) hbehind hu hcall
      · exact (hat j hj hjx).of_put hput hjx
    rcases r1 with e | _ | k
    · cases h
      exact ⟨rfl, hk1⟩
    · cases h
      exact ⟨rfl, hk1⟩
    · cases h
      have hstreams := setProbed_streams (false, 0) s1.1 x
      exact ⟨rfl, hk1.imp rfl fun ha j hj => (ha j hj).congr (hstreams j).1 (hstreams j).2⟩

/-- The context of a fan-in keeps to the frames of its participants as long as no call is cut. -/
theorem fanIn_framed (hall : ∀ id, all id <+: encode true (ms id))
    (hlt : ∀ id, ∀ m ∈ ms id, m.length < 256 ^ sizeofSizeT) (fuel : Nat) (errno : Errno) :
    Framed (contextHandle (fanInGeneric (watch tcpHandle) fuel errno))
      (fun w => w.1.coll.participants.Nodup ∧ Kept ms all (AllAtFrame ms all w.1.coll) w.2)
      (fun n w => w.1.canReceive = true ∧ w.1.coll.participants.Nodup ∧ Kept ms all (OneBehind ms all w.1.coll n) w.2)
      (fun w => Kept ms all (fun _ => True) w.2) where
  at_over h := h.2.imp rfl fun _ => trivial
  behind_over h := h.2.2.imp rfl fun _ => trivial
  probe := by
    rintro size blocking s r size' s' ⟨hn, hk⟩ h
    obtain ⟨-, coll, hs', ⟨-, rfl, rfl⟩ | ⟨hcan, h1⟩⟩ := contextHandle_probe h
    · exact ⟨hk.imp rfl fun _ => trivial, fun ⟨k, e⟩ => (nomatch e), fun _ => ⟨hn, hk⟩⟩
    · obtain ⟨hn', hover, hbehind, hat⟩ := probeLoop_left hall hlt hn hk h1
      rw [hs']
      exact ⟨hover, fun hr hne => ⟨hcan, hn', hbehind hr hne⟩, fun hr => ⟨hn', hat hr⟩⟩
  receive := by
    rintro n s r bs s' ⟨hcan, hn, hk⟩ h
    obtain ⟨-, coll, hs', ⟨hcan', -⟩ | ⟨-, h1⟩⟩ := contextHandle_receive h
    · rw [hcan] at hcan'
      cases hcan'
    · obtain ⟨hparts, hk'⟩ := fanIn_receive_left hall hk h1
      rw [hs']
      exact ⟨hparts ▸ hn, hk'⟩
  setProbed := ⟨fun h => h, fun _ h => h, fun h => h⟩
  close := by
    intro wr rd s s' h
    obtain ⟨-, coll, hs', h1⟩ := contextHandle_close h
    rw [hs']
    change FanInGeneric.close (watch tcpHandle) s.1.coll s.2 = .ok (coll, s'.2) at h1
    unfold FanInGeneric.close at h1
    split at h1
    · rcases hx : s.1.coll.participants[0]? with _ | x
      · rw [hx] at h1
        cases h1
      · rw [hx] at h1
        obtain ⟨s2, h2, h1⟩ := bind_eq_ok.1 h1
        cases h1
        obtain ⟨hclose, hlog⟩ := watch_close h2
        exact ⟨fun ⟨hn, hk⟩ => ⟨hn, hk.imp hlog fun ha j hj => (ha j hj).close hclose⟩,
          fun ho => ho.imp hlog fun _ => trivial⟩
    · obtain ⟨rfl, hw⟩ := Prod.mk.inj (Except.ok.inj h1)
      rw [← hw]
      exact ⟨fun h => h, fun h => h⟩
  base_setProbed h := by
    obtain ⟨-, rfl⟩ := contextHandle_base.1 h
    rfl
  base_probe h hb := by
    obtain ⟨hdel, coll, hs', -⟩ := contextHandle_probe h
    obtain ⟨-, rfl⟩ := contextHandle_base.1 hb
    exact ⟨_, contextHandle_base.2 ⟨hdel, rfl⟩, by rw [hs']⟩
  base_receive h hb := by
    obtain ⟨hdel, coll, hs', -⟩ := contextHandle_receive h
    obtain ⟨-, rfl⟩ := contextHandle_base.1 hb
    exact ⟨_, contextHandle_base.2 ⟨hdel, rfl⟩, by rw [hs']⟩
  base_close h hb := by
    obtain ⟨hdel, coll, hs', -⟩ := contextHandle_close h
    obtain ⟨-, rfl⟩ := contextHandle_base.1 hb
    refine ⟨⟨_, contextHandle_base.2 ⟨hdel, rfl⟩, by rw [hs']⟩, fun hrd => ?_⟩
    rw [hs', hrd]
    exact Bool.or_true _

end Process

/-! ### Whole runs -/

open Process

section

variable {ms : Nat → List Bytes} {all : Nat → Bytes} {p : Process}

variable (ms all) in
/-- The user of a handle is in step with its frames. -/
private def TcpInStep (id : Nat) : HandleUser Nat × Process × List (Call Nat Process) → Prop :=
  UserInStep (watch tcpHandle) id (Kept ms all (AtFrame ms all id)) (fun n => Kept ms all (BehindHeader ms all id n))
    (Kept ms all fun _ => True)

private theorem tcpInStep {id : Nat} (hat : p.AtFrame ms all id) {u : HandleUser Nat} (hu : u.realHandle = some id)
    (hp : (p.handles id).probed.1 = false) : TcpInStep ms all id (u, (p, [])) := by
  refine ⟨hu, kept_nil trivial, fun b hb => Or.inl ⟨?_, kept_nil hat⟩⟩
  rw [(Process.base_eq_ok hb).2]
  exact hp

private theorem tcp_turn {id : Nat} (hall : all id <+: encode true (ms id))
    (hlt : ∀ m ∈ ms id, m.length < 256 ^ sizeofSizeT) {t : Turn}
    {s s' : HandleUser Nat × Process × List (Call Nat Process)} {r : Ret} (hi : TcpInStep ms all id s)
    (h : turn (watch tcpHandle) id t s = .ok (r, s')) : TcpInStep ms all id s' :=
  turn_framed (watch_framed hall hlt) hi h

variable (ms all) in
/-- The user of a fan-in is in step with the frames of the participants. -/
private def FanInInStep :
    HandleUser Unit × CollectiveContext (FanInGeneric Nat) × Process × List (Call Nat Process) → Prop :=
  UserInStep (fun _ => contextHandle (fanInGeneric (watch tcpHandle) 0 .EINVAL)) ()
    (fun w => w.1.coll.participants.Nodup ∧ Kept ms all (AllAtFrame ms all w.1.coll) w.2)
    (fun n w => w.1.canReceive = true ∧ w.1.coll.participants.Nodup ∧ Kept ms all (OneBehind ms all w.1.coll n) w.2)
    (fun w => Kept ms all (fun _ => True) w.2)

private theorem fanInInStep {c : CollectiveContext (FanInGeneric Nat)} (hat : AllAtFrame ms all c.coll p)
    {u : HandleUser Unit} (hu : u.realHandle = some ()) (hp : c.probed.1 = false) (hn : c.coll.participants.Nodup) :
    FanInInStep ms all (u, (c, (p, []))) := by
  refine ⟨hu, kept_nil trivial, fun b hb => Or.inl ⟨?_, hn, kept_nil hat⟩⟩
  rw [(contextHandle_base.1 hb).2]
  exact hp

private theorem fanIn_turn (hall : ∀ id, all id <+: encode true (ms id))
    (hlt : ∀ id, ∀ m ∈ ms id, m.length < 256 ^ sizeofSizeT) {t : Nat × Errno × Turn}
    {s s' : HandleUser Unit × CollectiveContext (FanInGeneric Nat) × Process × List (Call Nat Process)} {r : Ret}
    (hi : FanInInStep ms all s)
    (h : turn (fun _ => contextHandle (fanInGeneric (watch tcpHandle) t.1 t.2.1)) () t.2.2 s = .ok (r, s')) :
    FanInInStep ms all s' :=
  @turn_framed _ _ _ _ _ (fun _ => contextHandle (fanInGeneric (watch tcpHandle) t.1 t.2.1)) ()
    (fanIn_framed hall hlt t.1 t.2.1) _ _ _ _ hi h

end

/-- In a process whose handles receive what their senders wrote, each up to some point: every call of
`HandleTCP::probe` reads one header or takes nothing just when it does not meet a part of one; and in every run
of calls of `HandleUser` and `CollectiveImpl` on a handle, and of calls on the context of a fan-in, with every
call of `probe` and `receive` below them written down, if none of these meets a part of a header or a payload
that is cut, then each `probe` has read the next header that the sender wrote, with its value, or has taken
nothing. -/
theorem header_right (ms : Nat → List Bytes) (hlt : ∀ id, ∀ m ∈ ms id, m.length < 256 ^ sizeofSizeT) (p : Process)
    (hall : ∀ id, incoming (p.handles id).incoming <+: encode true (ms id)) :
    (∀ (garbage : Nat → UInt8) (h h' : HandleTCP) (size size' : Nat) (blocking : Bool) (r : Ret),
      h.probe garbage size blocking = .ok (r, size', h') →
        (HeaderRead h.incoming r size' h'.incoming ↔ h.WholeHeader blocking)) ∧
    (∀ (id : Nat) (u u' : HandleUser Nat) (ts : List Turn) (rs : List Ret) (p' : Process)
      (log : List (Call Nat Process)), u.realHandle = some id → (p.handles id).probed.1 = false →
      Runs.run (turn (watch tcpHandle) id) ts (u, (p, [])) = .ok (rs, (u', (p', log))) → (∀ c ∈ log, Uncut c) →
        ∀ c ∈ log, HeaderRight ms (fun id => incoming (p.handles id).incoming) c) ∧
    ∀ (c c' : CollectiveContext (FanInGeneric Nat)) (u u' : HandleUser Unit) (ts : List (Nat × Errno × Turn))
      (rs : List Ret) (p' : Process) (log : List (Call Nat Process)),
      u.realHandle = some () → c.probed.1 = false → c.coll.participants.Nodup →
      Runs.run (fun t => turn (fun _ => contextHandle (fanInGeneric (watch tcpHandle) t.1 t.2.1)) () t.2.2) ts
        (u, (c, (p, []))) = .ok (rs, (u', (c', (p', log)))) → (∀ c ∈ log, Uncut c) →
        ∀ c ∈ log, HeaderRight ms (fun id => incoming (p.handles id).incoming) c := by
  have hat : ∀ id, p.AtFrame ms (fun id => incoming (p.handles id).incoming) id :=
    fun id => Or.inr (Or.inr ⟨[], ms id, rfl, rfl⟩)
  refine ⟨fun _ _ _ _ _ _ _ h => headerRead_iff h, ?_, ?_⟩
  · intro id u u' ts rs p' log hu hp h hu'
    have hstart : TcpInStep ms _ id (u, (p, [])) := tcpInStep (hat id) hu hp
    have hend := Runs.run_invariant _ (tcp_turn (hall id) (hlt id)) hstart h
    exact (hend.2.1 hu').1
  · intro c c' u u' ts rs p' log hu hp hn h hu'
    have hstart : FanInInStep ms _ (u, (c, (p, []))) := fanInInStep (fun j _ => hat j) hu hp hn
    have hend := Runs.run_invariant _ (fanIn_turn hall hlt) hstart h
    exact (hend.2.1 hu').1

/-- A process with one socket, on which `stream` arrives. -/
private def receiver (stream : List SockArrival) : Process where
  handles id := if id = 0 then { fd := some 3, incoming := stream } else {}
  allocated := 1
  garbage _ := 0

/-- A message of one byte whose header arrives in two pieces, read by blocking calls. -/
theorem header_right_run :
    ∃ u' p' log, Runs.run (turn (watch tcpHandle) 0) [.probe 0 true, .receive 4]
        ({ realHandle := some 0, isReadable := true },
          (receiver [.piece 0 [0, 0], .quiet, .piece 0 [0, 0, 0, 1, 97]], [])) =
          .ok ([.ok 8, .ok 1], (u', (p', log))) ∧
      ∀ c ∈ log, HeaderRight (fun id => if id = 0 then [[97]] else [])
        (fun id => if id = 0 then [0, 0, 0, 0, 0, 0, 0, 1, 97] else []) c := by
  have hall : ∀ id, incoming ((receiver [.piece 0 [0, 0], .quiet, .piece 0 [0, 0, 0, 1, 97]]).handles id).incoming =
      if id = 0 then [0, 0, 0, 0, 0, 0, 0, 1, 97] else [] := by
    intro id
    by_cases h : id = 0 <;> simp [receiver, h, incoming]
  have hright := header_right (fun id => if id = 0 then [[97]] else [])
    (by intro id m hm; by_cases h : id = 0 <;> simp_all [sizeofSizeT])
    (receiver [.piece 0 [0, 0], .quiet, .piece 0 [0, 0, 0, 1, 97]])
    (by
      intro id
      rw [hall]
      by_cases h : id = 0
      · rw [if_pos h, if_pos h]
        decide
      · rw [if_neg h]
        exact List.nil_prefix)
  simp only [hall] at hright
  refine ⟨_, _, _, rfl, hright.2.1 0 { realHandle := some 0, isReadable := true } _ [.probe 0 true, .receive 4] _ _ _
    rfl rfl rfl ?_⟩
  intro c hc
  rcases List.mem_cons.1 hc with rfl | hc
  · exact Or.inr (Or.inl (by decide))
  · rcases List.mem_singleton.1 hc with rfl
    exact Or.inr (Or.inr (by decide))

/-- Three bytes of a header are taken for EOS. -/
theorem header_cut :
    ∃ (h : HandleTCP) (h' : HandleTCP) (size : Nat), incoming h.incoming = encode true [[97]] ∧
      h.probe (fun _ => 0) 0 false = .ok (.ok sizeofSizeT, size, h') ∧ size = 0 ∧
      ¬ HeaderRead h.incoming (.ok sizeofSizeT) size h'.incoming := by
  let h : HandleTCP :=
    { fd := some 3, incoming := [.piece 0 [0, 0], .quiet, .piece 0 [0, 0, 0, 1, 97, 0, 0, 0, 0, 0, 0, 0, 0]] }
  have hprobe : h.probe (fun _ => 0) 0 false = .ok (.ok sizeofSizeT, 0, { h with incoming := h.incoming.tail }) := by
    decide
  refine ⟨h, _, 0, by decide, hprobe, rfl, fun hread => ?_⟩
  rcases (headerRead_iff hprobe).1 hread with hfd | hp | hlen
  · cases hfd
  · cases hp
  · exact absurd hlen (by decide)

end Mtcl
