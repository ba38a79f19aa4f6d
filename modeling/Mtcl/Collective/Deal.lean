import Mtcl.Collective.FanOut
import Mtcl.Collective.Merge

/-!
# A fan-out deals its messages out

The two sides of a fan-out over TCP: the root puts the frames of its messages and then EOS on the streams of its
workers, and a stream brings a worker its messages, in any pieces when the worker only waits, and with no header
cut when it also looks whether something has come.  `fanOut_deals` puts them together: every worker receives its
share of the messages, whatever the order of the calls of all the workers, as long as none of them reads EOS;
`fanOut_deleted` is a worker that does.
-/

namespace Mtcl

open Arrivals Shares Sources

/-! ### The root -/

/-- The context of the root, open for writing, that has sent some messages over TCP. -/
structure Dealing (p : Process) (ps : List Nat) (ms : List Bytes)
    (s : CollectiveContext (FanOutGeneric Nat) × (Process × List (Sent Nat))) : Prop where
  deleted : s.1.deleted = false
  closedWr : s.1.closedWr = false
  canSend : s.1.canSend = true
  shared : s.1.coll.Shared ps ms s.2.2
  wired : Wired p ps s.2

section

variable {p : Process} {ps : List Nat} {errno : Errno} {ms : List Bytes} {u : HandleUser Unit}
  {s : CollectiveContext (FanOutGeneric Nat) × (Process × List (Sent Nat))}

private theorem intRes_of_lt {n : Nat} (h : n < 2 ^ 31) : FanOutGeneric.intRes errno (.ok n) = .ok n := by
  unfold FanOutGeneric.intRes
  dsimp only
  rw [Nat.mod_eq_of_lt (by omega), if_pos h]

private theorem Dealing.send (hs : Dealing p ps ms s) (hn : ps.Nodup) (hps : ps ≠ []) (hu : u.realHandle = some ())
    {m : Bytes} (hm : m.length < 2 ^ 31) :
    ∃ s', u.send (fun _ => contextHandle (fanOutGeneric (record tcpHandle) errno)) m s =
        .ok (.ok m.length, { u with newConnection := false }, s') ∧ Dealing p ps (ms ++ [m]) s' := by
  have hlt : s.1.coll.current < ps.length := by
    rw [hs.shared.current]
    exact Nat.mod_lt _ (List.length_pos_iff.2 hps)
  have hh : ps[s.1.coll.current]? = some ps[s.1.coll.current] := List.getElem?_eq_getElem hlt
  generalize ps[s.1.coll.current] = h at hh
  obtain ⟨q, hcall, hw⟩ := hs.wired.send (List.mem_of_getElem? hh) (hs.shared.closed h) m
  have hcoll : (fanOutGeneric (record tcpHandle) errno).send m s.1.coll s.2 = .ok (.ok m.length,
      { s.1.coll with current := (s.1.coll.current + 1) % s.1.coll.participants.length },
      (q, s.2.2 ++ [.message h m (.ok m.length)])) := by
    change FanOutGeneric.send (record tcpHandle) errno m s.1.coll s.2 = _
    unfold FanOutGeneric.send
    rw [show s.1.coll.participants[s.1.coll.current]? = some h by rw [hs.shared.participants, hh]]
    dsimp only
    rw [hcall, bind_ok]
    dsimp only
    rw [intRes_of_lt hm]
    rfl
  refine ⟨_, HandleUser.send_of hu (contextHandle_base.2 ⟨hs.deleted, rfl⟩) hs.closedWr
    (contextHandle_send_of hs.deleted hs.canSend hcoll), hs.deleted, hs.closedWr, hs.canSend, ?_, hw⟩
  exact hs.shared.send hn hcoll

private theorem Dealing.sends (hs : Dealing p ps ms s) (hn : ps.Nodup) (hps : ps ≠ []) (hu : u.realHandle = some ())
    {ms' : List Bytes} (hms : ∀ m ∈ ms', m.length < 2 ^ 31) :
    ∃ u' s', HandleUser.sends (fun _ => contextHandle (fanOutGeneric (record tcpHandle) errno)) ms' (u, s) =
        .ok (ms'.map fun m => .ok m.length, (u', s')) ∧ u'.realHandle = some () ∧ Dealing p ps (ms ++ ms') s' := by
  induction ms' generalizing ms s u with
  | nil => exact ⟨u, s, rfl, hu, by rwa [List.append_nil]⟩
  | cons m ms' ih =>
    obtain ⟨s1, h1, hs1⟩ := hs.send hn hps hu (hms m (List.mem_cons_self ..))
    obtain ⟨u2, s2, h2, hu2, hs2⟩ := ih (u := { u with newConnection := false }) hs1 hu
      fun m' hm' => hms m' (List.mem_cons_of_mem _ hm')
    refine ⟨u2, s2, ?_, hu2, ?_⟩
    · unfold HandleUser.sends at h2 ⊢
      rw [Runs.run]
      dsimp only
      rw [h1]
      change (Runs.run _ ms' (_, s1) >>= fun x => .ok (_ :: x.1, x.2)) = _
      rw [h2]
      rfl
    · rw [List.append_assoc] at hs2
      exact hs2

/-- Over TCP, when the kernel always moves something, a root that sends its messages and closes has put on the
stream of every participant its share and then EOS. -/
private theorem root_deals {c : CollectiveContext (FanOutGeneric Nat)} (hw : ∀ h ∈ c.coll.participants, p.Writable h)
    (hd : c.deleted = false) (hwr : c.closedWr = false) (hcan : c.canSend = true) (hroot : c.coll.root = true)
    (hcur : c.coll.current = 0) (hn : c.coll.participants.Nodup) (hps : c.coll.participants ≠ [])
    (hu : u.realHandle = some ()) (hms : ∀ m ∈ ms, m.length < 2 ^ 31) (errno : Errno) :
    ∃ s', HandleUser.sendAll (fun _ => contextHandle (fanOutGeneric (record tcpHandle) errno)) true ms
          (u, (c, (p, []))) = .ok (ms.map fun m => .ok m.length, s') ∧
      ∀ i h, c.coll.participants[i]? = some h →
        (s'.2.1.handles h).wire = (p.handles h).wire ++ encode true (share c.coll.participants.length i ms) := by
  have h0 : Dealing p c.coll.participants [] (c, (p, [])) := ⟨hd, hwr, hcan, .start rfl hcur hroot, .start hw⟩
  obtain ⟨u1, s1, h1, hu1, hs1⟩ := h0.sends hn hps hu hms
  obtain ⟨s2, hall, hw2⟩ := hs1.wired.closeAll hn fun k hk => ⟨hk, hs1.shared.closed k⟩
  have hcoll : (fanOutGeneric (record tcpHandle) errno).close (true && !s1.1.closedWr) false s1.1.coll s1.2 =
      .ok (s1.1.coll, s2) := by
    change FanOutGeneric.close (record tcpHandle) s1.1.coll s1.2 = _
    unfold FanOutGeneric.close
    rw [if_pos hs1.shared.root, hs1.shared.participants, hall]
    rfl
  have hclose := contextHandle_close_of hs1.deleted hcoll
  have hsend : HandleUser.sendAll (fun _ => contextHandle (fanOutGeneric (record tcpHandle) errno)) true ms
      (u, (c, (p, []))) = .ok (ms.map fun m => .ok m.length, ({ s1.1 with
        closedRd := s1.1.closedRd || false, closedWr := s1.1.closedWr || true }, s2)) := by
    unfold HandleUser.sendAll
    rw [h1, bind_ok]
    dsimp only
    rw [if_pos rfl, HandleUser.close, hu1]
    dsimp only
    rw [hclose]
    rfl
  refine ⟨_, hsend, fun i h hh => ?_⟩
  have hshare := sendAll_shares hn hcur hroot hu hsend (fun r hr => ?_) hh
  · dsimp only at hshare ⊢
    rw [(hw2 h (List.mem_of_getElem? hh)).1, hshare.1, hshare.2]
  · obtain ⟨m, -, rfl⟩ := List.mem_map.1 hr
    exact ⟨_, rfl⟩

end

/-! ### The handle of a worker -/

/-- The messages of `q` and then EOS arrive. -/
def PouringIdle (whole : Bool) (id : Nat) (q : List Bytes) (p : Process) : Prop :=
  p.Live id ∧ (∀ m ∈ q, Sendable m) ∧ Delivers (p.handles id).incoming (framed whole q)

/-- The bytes of a message arrive, and then the messages of `q` and EOS. -/
def PouringOpened (whole : Bool) (id : Nat) (m : Bytes) (q : List Bytes) (p : Process) : Prop :=
  p.Live id ∧ (∀ m ∈ q, Sendable m) ∧ Delivers (p.handles id).incoming (loose m ++ framed whole q)

private theorem poll_header {whole blocking : Bool} {id : Nat} {p : Process} (h : p.Live id) {hdr : Bytes}
    (hlen : hdr.length = sizeofSizeT) {w : List (UInt8 × Bool)} (hb : blocking = false → whole = true)
    (hd : Delivers (p.handles id).incoming (header whole hdr ++ w)) (size : Nat) :
    (blocking = false ∧ ∃ s, (tcpHandle id).probe size blocking p =
          .ok (.error .EWOULDBLOCK, size, p.withIncoming id (p.handles id).probed s) ∧
        Delivers s (header whole hdr ++ w)) ∨
      ∃ s, (tcpHandle id).probe size blocking p =
          .ok (.ok sizeofSizeT, Words.ofBE hdr, p.withIncoming id (p.handles id).probed s) ∧ Delivers s w := by
  cases blocking with
  | false =>
    obtain rfl := hb rfl
    rcases h.poll_header hlen hd size with ⟨s, hcall, -, hs⟩ | ⟨s, hcall, -, hs⟩
    · exact Or.inl ⟨rfl, s, hcall, hs⟩
    · exact Or.inr ⟨s, hcall, hs⟩
  | true =>
    right
    obtain ⟨s, hread, hs⟩ := readn_delivers hd
    have hmap := map_fst_header whole hdr
    have hlen' : (header whole hdr).length = sizeofSizeT := by rw [← hlen, ← hmap, List.length_map, hmap]
    have hover := overlay_full p.garbage hdr
    rw [hlen', hmap] at hread
    rw [hlen] at hover
    refine ⟨s, ?_, hs⟩
    rw [h.probe_blocking, hread]
    dsimp only
    rw [hover]
    rfl

private theorem base_cases (id : Nat) (p : Process) :
    (tcpHandle id).base p = .error .useAfterFree ∨ ∃ b, (tcpHandle id).base p = .ok b := by
  by_cases hd : p.allocated ≤ id ∨ (p.handles id).deleted = true
  · left
    change (p.deref id >>= _) = _
    rw [Process.deref, if_pos hd]
    rfl
  · right
    refine ⟨(p.handles id).toCommBase, ?_⟩
    change (p.deref id >>= _) = _
    rw [Process.deref, if_neg hd]
    rfl

/-- A TCP handle on which messages and EOS arrive brings them. -/
theorem tcp_pours (whole : Bool) (id : Nat) :
    Pours (tcpHandle id) (whole = true) (PouringIdle whole id) (PouringOpened whole id) where
  probe := by
    rintro q p ⟨hlive, hq, hd⟩ blocking hb size
    cases q with
    | nil =>
      right
      have hframed : framed whole [] = header whole (List.replicate sizeofSizeT 0) ++ [] := (List.append_nil _).symm
      rw [hframed] at hd
      rcases poll_header hlive List.length_replicate hb hd size with ⟨hb, s, hcall, hs⟩ | ⟨s, hcall, hs⟩
      · refine Or.inr ⟨hb, _, hcall, hlive.withIncoming _ _, hq, ?_⟩
        rw [Process.withIncoming_handles, hframed]
        exact hs
      · have hzero : Words.ofBE (List.replicate sizeofSizeT 0) = 0 := by decide
        rw [hzero] at hcall
        exact Or.inl ⟨rfl, _, _, hcall, (hlive.withIncoming _ _).close true true, base_cases _ _⟩
    | cons m q =>
      obtain ⟨hm, hlt⟩ := hq m (List.mem_cons_self ..)
      have hlt' : m.length < 256 ^ sizeofSizeT := Nat.lt_trans hlt (by decide)
      have hframed : framed whole (m :: q) =
          header whole (Words.toBE sizeofSizeT m.length) ++ (loose m ++ framed whole q) := by
        simp [framed]
      rw [hframed] at hd
      rcases poll_header hlive (Words.length_toBE _ _) hb hd size with ⟨hb, s, hcall, hs⟩ | ⟨s, hcall, hs⟩
      · refine Or.inr (Or.inr ⟨hb, _, hcall, hlive.withIncoming _ _, hq, ?_⟩)
        rw [Process.withIncoming_handles, hframed]
        exact hs
      · left
        rw [Words.ofBE_toBE hlt'] at hcall
        refine ⟨m, q, _, rfl, hm, hcall, ?_⟩
        rw [Process.setProbed_withIncoming]
        refine ⟨hlive.withIncoming _ _, fun m' hm' => hq m' (List.mem_cons_of_mem _ hm'), ?_⟩
        rw [Process.withIncoming_handles]
        exact hs
  receive := by
    rintro m q p ⟨hlive, hq, hd⟩
    obtain ⟨s, hread, hs⟩ := readn_delivers hd
    rw [length_loose, map_fst_loose] at hread
    refine ⟨p.withIncoming id (p.handles id).probed s, ?_, ?_⟩
    · rw [hlive.receive, hread]
      rfl
    · rw [Process.setProbed_withIncoming]
      refine ⟨hlive.withIncoming _ _, hq, ?_⟩
      rw [Process.withIncoming_handles]
      exact hs

/-- Such a handle that nobody owns, which is how a worker gets it, is deleted at EOS. -/
theorem tcp_pours_unowned (whole : Bool) (id : Nat) :
    Pours (tcpHandle id) (whole = true) (fun q p => PouringIdle whole id q p ∧ (p.handles id).counter = 0)
        (fun m q p => PouringOpened whole id m q p ∧ (p.handles id).counter = 0) ∧
      DeletedAtEos (tcpHandle id) fun q p => PouringIdle whole id q p ∧ (p.handles id).counter = 0 := by
  have hput : ∀ {p : Process} {k : HandleTCP}, k.counter = 0 → ((p.put id k).handles id).counter = 0 := by
    intro p k hk
    rwa [Process.put_handles_self]
  constructor
  · refine Pours.and (K := fun p : Process => (p.handles id).counter = 0) (tcp_pours whole id) ?_ ?_ ?_
    · exact fun pr p h => hput h
    · intro size blocking r size' p p' h hcall
      obtain ⟨s, rfl⟩ := Process.probe_eq_ok hcall
      exact hput h
    · intro n r bs p p' h hcall
      obtain ⟨s, rfl⟩ := Process.receive_eq_ok hcall
      exact hput h
  · intro p p' p'' size blocking hidle hcall hclose
    obtain ⟨s, rfl⟩ := Process.probe_eq_ok hcall
    obtain ⟨k, -, hclose⟩ := bind_eq_ok.1 hclose
    cases hclose
    have hdeleted :
        (((p.put id { p.handles id with incoming := s }).closeHandle id true true).handles id).deleted = true :=
      Process.closeHandle_deletes _ (hput hidle.2) (Bool.or_true _) (Bool.or_true _)
    change (Process.deref _ id >>= _) = _
    rw [Process.deref, if_pos (Or.inr hdeleted)]
    rfl

/-! ### The fan-out -/

/-- A worker that has not called yet: its object, its context, and its handle `h`, which brings the messages `q`
and EOS. -/
def Employed {H W : Type} (h : H) (idle : List Bytes → W → Prop) (q : List Bytes)
    (s : HandleUser Unit × (CollectiveContext (FanOutGeneric H) × W)) : Prop :=
  s.1.realHandle = some () ∧ s.1.isReadable = true ∧ FanOutGeneric.Serves h s.2.1 ∧
    s.2.1.probed.1 = false ∧ idle q s.2.2

/-- What a worker has got, and that it has got all of it when it has been told the end. -/
def GotSoFar (q : List Bytes) (as : List (Option (Answer Bytes))) : Prop :=
  ∃ rest, q = received (as.filterMap fun a => a) ++ rest ∧ (some .finished ∈ as → rest = [])

/-- A call of one of several workers. -/
abbrev workerCall {H W ι : Type} [DecidableEq ι] (vt : H → CommunicationHandle W) (errno : Errno) (size : Nat) :
    ι × Try → (ι → HandleUser Unit × (CollectiveContext (FanOutGeneric H) × W)) →
      Except Stop ((ι × Option (Answer Bytes)) × (ι → HandleUser Unit × (CollectiveContext (FanOutGeneric H) × W))) :=
  Runs.each (HandleUser.attempt (fun _ => contextHandle (fanOutGeneric vt errno)) size)

/-- The calls of the workers have returned, and each worker has been answered as the reader of its share and of
the end. -/
def Dealt {H W ι : Type} [DecidableEq ι] (vt : H → CommunicationHandle W) (errno : Errno) (size : Nat)
    (q : ι → List Bytes) (ts : List (ι × Try))
    (s : ι → HandleUser Unit × (CollectiveContext (FanOutGeneric H) × W)) : Prop :=
  ∃ as s', Runs.run (workerCall vt errno size) ts s = .ok (as, s') ∧
    ∀ i, ∃ ph, Attempts (queue true) (Runs.partOf i ts) (.idle (q i)) (Runs.partOf i as) ph ∧
      GotSoFar (q i) (Runs.partOf i as)

/-- Any order of the calls of all the workers, each of which reads what its handle brings: they return exactly
when none of them reads EOS. -/
private theorem workers_read {H W ι : Type} [DecidableEq ι] {vt : H → CommunicationHandle W} {h : ι → H} {polls : Prop}
    {idle : ι → List Bytes → W → Prop} {opened : ι → Bytes → List Bytes → W → Prop}
    (hp : ∀ i, Pours (vt (h i)) polls (idle i) (opened i)) (hgone : ∀ i, DeletedAtEos (vt (h i)) (idle i))
    (errno : Errno) {q : ι → List Bytes} {s : ι → HandleUser Unit × (CollectiveContext (FanOutGeneric H) × W)}
    (hs : ∀ i, Employed (h i) (idle i) (q i) (s i)) (size : Nat) (ts : List (ι × Try))
    (hts : ∀ t ∈ ts, t.2 = .poll → polls) :
    (Dealt vt errno size q ts s ↔ Runs.Always (workerCall vt errno size)
      (fun s t => ¬ FindsEos vt size t.2 (s t.1)) ts s) ∧
      (¬ Dealt vt errno size q ts s → Runs.run (workerCall vt errno size) ts s = .error .useAfterFree) := by
  let vt' : Unit → CommunicationHandle (CollectiveContext (FanOutGeneric H) × W) :=
    fun _ => contextHandle (fanOutGeneric vt errno)
  have hopen : ∀ i, true = false → DeletedAtEos (vt (h i)) (idle i) := fun i _ => hgone i
  have hreads : ∀ i, Furnishes .useAfterFree (vt' ()) (queue true) (WorkerReading (h i) (idle i) (opened i))
      (· = .idle []) :=
    fun i => fanOut_furnishes (hp i) (hopen i) errno
  have hstart : ∀ i, Owns (WorkerReading (h i) (idle i) (opened i)) () (.idle (q i)) (s i) := by
    intro i
    obtain ⟨hu, hread, hserves, hc, hw⟩ := hs i
    exact ⟨hu, ⟨hserves, hc, hw⟩, fun _ => hread⟩
  have hstep : ∀ i t s, (i, t) ∈ ts → (∃ ph, Owns (WorkerReading (h i) (idle i) (opened i)) () ph s) →
      (¬ FindsEos vt size t s ∧ ∃ a s', HandleUser.attempt vt' size t s = .ok (a, s') ∧
        ∃ ph, Owns (WorkerReading (h i) (idle i) (opened i)) () ph s') ∨
      ¬ ¬ FindsEos vt size t s ∧ HandleUser.attempt vt' size t s = .error .useAfterFree := by
    rintro i t s hm ⟨ph, howns⟩
    exact worker_attempt (hp i) (hgone i) errno howns size (hts _ hm)
  rcases Runs.run_each hstep fun i => ⟨_, hstart i⟩ with ⟨halways, as, s', hrun, hparts⟩ | ⟨hnot, hrun⟩
  · have hdealt : Dealt vt errno size q ts s := by
      refine ⟨as, s', hrun, fun i => ?_⟩
      obtain ⟨ph, hatt, -⟩ := run_attempted (hreads i) (hstart i)
        (fun hm => fanOut_polls (hp i) (hopen i) errno (hts _ (Runs.mem_partOf.1 hm) rfl)) (hparts i)
      obtain ⟨rs, hsteps⟩ := hatt.run
      have hpath := queue_path hsteps.path
      refine ⟨ph, hatt, ph.pending ++ ph.state, ?_, fun hend => ?_⟩
      · rw [← List.append_assoc]
        exact hpath
      · obtain ⟨q', rfl, hfin, -⟩ := hsteps.finished nofun (List.mem_filterMap.2 ⟨_, hend, rfl⟩)
        exact hfin
    exact ⟨⟨fun _ => halways, fun _ => hdealt⟩, fun hno => absurd hdealt hno⟩
  · refine ⟨⟨fun hdealt => ?_, fun halways => absurd halways hnot⟩, fun _ => hrun⟩
    obtain ⟨as, s', hok, -⟩ := hdealt
    cases hok.symm.trans hrun

/-- A fan-out deals its messages out as long as no worker reads EOS.  A root that has sent its messages
successfully and has closed has sent to the participant `i` those whose index is `i` modulo the number of
participants, and then the end; over TCP they are on the stream, and such a stream brings a worker its messages,
on a handle that is deleted at EOS.  Over any handles that bring messages and are deleted at EOS, an order of
the calls of all the workers returns, with each of them answered as the reader of its messages, exactly when no
call reads EOS; else it ends in the use of a deleted handle.  The shares of the workers are all the messages,
each once, and have the same length up to one. -/
theorem fanOut_deals {H W : Type} [DecidableEq H] (vt : H → CommunicationHandle W) (errno : Errno) :
    (∀ {c : CollectiveContext (FanOutGeneric H)} {w : W} {u : HandleUser Unit} {ms : List Bytes} {rs : List Ret}
      {s' : CollectiveContext (FanOutGeneric H) × (W × List (Sent H))}, c.coll.participants.Nodup → c.coll.current = 0 →
      c.coll.root = true → u.realHandle = some () →
      HandleUser.sendAll (fun _ => contextHandle (fanOutGeneric (record vt) errno)) true ms (u, (c, (w, []))) =
        .ok (rs, s') → (∀ r ∈ rs, ∃ n, r = .ok n) → ∀ {i : Nat} {h : H}, c.coll.participants[i]? = some h →
      sentTo h s'.2.2 = share c.coll.participants.length i ms ∧ closedTo h s'.2.2 = true) ∧
    (∀ {p : Process} {c : CollectiveContext (FanOutGeneric Nat)} {u : HandleUser Unit} {ms : List Bytes},
      (∀ h ∈ c.coll.participants, p.Writable h) → c.deleted = false → c.closedWr = false → c.canSend = true →
      c.coll.root = true → c.coll.current = 0 → c.coll.participants.Nodup → c.coll.participants ≠ [] →
      u.realHandle = some () → (∀ m ∈ ms, m.length < 2 ^ 31) → ∀ errno : Errno,
      ∃ s', HandleUser.sendAll (fun _ => contextHandle (fanOutGeneric (record tcpHandle) errno)) true ms
            (u, (c, (p, []))) = .ok (ms.map fun m => .ok m.length, s') ∧
        ∀ i h, c.coll.participants[i]? = some h →
          (s'.2.1.handles h).wire = (p.handles h).wire ++ encode true (share c.coll.participants.length i ms)) ∧
    (∀ whole id, (Pours (tcpHandle id) (whole = true) (fun q p => PouringIdle whole id q p ∧ (p.handles id).counter = 0)
          (fun m q p => PouringOpened whole id m q p ∧ (p.handles id).counter = 0) ∧
        DeletedAtEos (tcpHandle id) fun q p => PouringIdle whole id q p ∧ (p.handles id).counter = 0) ∧
      ∀ q, (framed whole q).map Prod.fst = encode true q) ∧
    (∀ {ι : Type} [DecidableEq ι] {h : ι → H} {polls : Prop}
      {idle : ι → List Bytes → W → Prop} {opened : ι → Bytes → List Bytes → W → Prop},
      (∀ i, Pours (vt (h i)) polls (idle i) (opened i)) → (∀ i, DeletedAtEos (vt (h i)) (idle i)) →
      ∀ {q : ι → List Bytes} {s : ι → HandleUser Unit × (CollectiveContext (FanOutGeneric H) × W)},
      (∀ i, Employed (h i) (idle i) (q i) (s i)) → ∀ (size : Nat) (ts : List (ι × Try)),
        (∀ t ∈ ts, t.2 = .poll → polls) →
      (Dealt vt errno size q ts s ↔ Runs.Always (workerCall vt errno size)
        (fun s t => ¬ FindsEos vt size t.2 (s t.1)) ts s) ∧
        (¬ Dealt vt errno size q ts s → Runs.run (workerCall vt errno size) ts s = .error .useAfterFree)) ∧
    ∀ (c : Nat) (ms : List Bytes), 0 < c →
      ((List.range c).flatMap fun i => share c i ms).Perm ms ∧
      ∀ i j, i < c → j < c → (share c i ms).length ≤ (share c j ms).length + 1 :=
  ⟨fun hn hcur hroot hu he hrs => sendAll_shares hn hcur hroot hu he hrs, root_deals,
    fun whole id => ⟨tcp_pours_unowned whole id, map_fst_framed whole⟩,
    fun hp hgone => workers_read hp hgone errno,
    fun _ ms hc => ⟨share_perm hc ms, fun _ _ hi hj => share_length_le hi hj ms⟩⟩

/-- A worker over TCP on whose stream this arrives. -/
private def tcpWorker (id : Nat) (incoming : List SockArrival) :
    HandleUser Unit × (CollectiveContext (FanOutGeneric Nat) × Process) :=
  (⟨some (), true, true⟩, (.mk' false true { participants := [id], root := false },
    { handles := fun _ => { fd := some 3, incoming := incoming }, allocated := id + 1 }))

private theorem tcpWorker_employed {id : Nat} {incoming : List SockArrival} {q : List Bytes} (hq : ∀ m ∈ q, Sendable m)
    (h : Delivers incoming (framed true q)) :
    Employed id (fun q p => PouringIdle true id q p ∧ (p.handles id).counter = 0) q (tcpWorker id incoming) :=
  ⟨rfl, rfl, ⟨rfl, rfl, rfl, rfl, rfl⟩, rfl, ⟨⟨Nat.lt_succ_self id, rfl, Option.some_ne_none _⟩, hq, h⟩, rfl⟩

private def dealtShare (i : Nat) : List Bytes := if i = 0 then [[1], [3]] else if i = 1 then [[2]] else []

private def dealtStream (i : Nat) : List SockArrival :=
  if i = 0 then [.piece 0 [0, 0, 0, 0, 0, 0, 1, 1], .piece 0 [0, 0, 0, 0, 0, 0, 1], .piece 3 [0, 0, 0, 0, 0, 0, 0, 0]]
  else if i = 1 then [.quiet, .piece 0 [0, 0, 0, 0, 0, 0, 1, 2], .piece 0 [0, 0, 0, 0, 0, 0, 0]]
  else [.piece 0 [0, 0, 0, 0, 0, 0, 0]]

private theorem dealtStream_delivers (i : Nat) : Delivers (dealtStream i) (framed true (dealtShare i)) := by
  unfold dealtStream dealtShare
  split
  · exact Or.inr ⟨by decide, by decide, Or.inr ⟨by decide, by decide, Or.inr ⟨by decide, by decide, rfl⟩⟩⟩
  · split
    · exact Or.inr ⟨by decide, by decide, Or.inr ⟨by decide, by decide, rfl⟩⟩
    · exact Or.inr ⟨by decide, by decide, rfl⟩

private theorem dealtShare_sendable (i : Nat) : ∀ m ∈ dealtShare i, Sendable m := by
  have hone : ∀ b : UInt8, Sendable [b] := fun b => ⟨List.cons_ne_nil _ _, Nat.one_lt_two_pow (by decide)⟩
  unfold dealtShare
  intro m hm
  split at hm
  · rcases List.mem_cons.1 hm with rfl | hm
    · exact hone 1
    · rw [List.mem_singleton.1 hm]
      exact hone 3
  · split at hm
    · rw [List.mem_singleton.1 hm]
      exact hone 2
    · exact absurd hm List.not_mem_nil

/-- Three messages and two workers over TCP; the second worker looks before anything has come, and nobody reads EOS. -/
theorem fanOut_deals_run :
    (∃ s' : CollectiveContext (FanOutGeneric Nat) × (Process × List (Sent Nat)),
      (s'.2.1.handles 0).wire = encode true [[1], [3]] ∧ (s'.2.1.handles 1).wire = encode true [[2]]) ∧
    Dealt tcpHandle .EINVAL 0 dealtShare [(0, .ask (.receive 5)), (1, .poll), (1, .ask (.receive 5)), (0, .ask .probe)]
      (fun i => tcpWorker i (dealtStream i)) ∧
    (Runs.run (workerCall tcpHandle .EINVAL 0)
      [(0, .ask (.receive 5)), (1, .poll), (1, .ask (.receive 5)), (0, .ask .probe)]
      (fun i => tcpWorker i (dealtStream i))).map Prod.fst =
        .ok [(0, some (.message [1])), (1, none), (1, some (.message [2])), (0, some (.size 1))] := by
  obtain ⟨-, hroot, htcp, hworkers, -⟩ := fanOut_deals tcpHandle .EINVAL
  let c : CollectiveContext (FanOutGeneric Nat) := .mk' true false { participants := [0, 1], root := true }
  let p : Process := { handles := fun _ => { fd := some 3 }, allocated := 2 }
  have hp : ∀ h ∈ c.coll.participants, p.Writable h := by
    intro h hh
    refine ⟨⟨?_, rfl, Option.some_ne_none _⟩, rfl, fun _ ha => absurd ha List.not_mem_nil⟩
    rcases List.mem_cons.1 hh with rfl | hh
    · exact Nat.zero_lt_two
    · rw [List.mem_singleton.1 hh]
      exact Nat.one_lt_two
  obtain ⟨s', -, hwire⟩ := @hroot p c ⟨some (), true, true⟩ [[1], [2], [3]] hp rfl rfl rfl rfl rfl
    (by decide) (by decide)
    rfl (by decide) .EINVAL
  have h0 : share 2 0 [[(1 : UInt8)], [2], [3]] = [[1], [3]] := by decide
  have h1 : share 2 1 [[(1 : UInt8)], [2], [3]] = [[2]] := by decide
  have hanswers : (Runs.run (workerCall tcpHandle .EINVAL 0)
      [(0, .ask (.receive 5)), (1, .poll), (1, .ask (.receive 5)), (0, .ask .probe)]
      (fun i => tcpWorker i (dealtStream i))).map Prod.fst =
        .ok [(0, some (.message [1])), (1, none), (1, some (.message [2])), (0, some (.size 1))] := rfl
  refine ⟨⟨s', h0 ▸ hwire 0 0 rfl, h1 ▸ hwire 1 1 rfl⟩, ?_, hanswers⟩
  by_contra hno
  have hstop := (@hworkers Nat _ (fun i => i) (true = true) _ _ (fun i => (htcp true i).1.1)
    (fun i => (htcp true i).1.2) dealtShare (fun i => tcpWorker i (dealtStream i))
    (fun i => tcpWorker_employed (dealtShare_sendable i) (dealtStream_delivers i)) 0
    [(0, .ask (.receive 5)), (1, .poll), (1, .ask (.receive 5)), (0, .ask .probe)] fun _ _ _ => rfl).2 hno
  rw [hstop] at hanswers
  cases hanswers

/-- One message and one worker over TCP: it receives the message, and its next `probe` reads EOS and then writes
to the handle that has been deleted. -/
theorem fanOut_deleted :
    Employed 0 (fun q p => PouringIdle true 0 q p ∧ (p.handles 0).counter = 0) [[1]]
      (tcpWorker 0 [.piece 0 [0, 0, 0, 0, 0, 0, 1, 1], .piece 0 [0, 0, 0, 0, 0, 0, 0]]) ∧
    (Runs.run (workerCall tcpHandle .EINVAL 0) [((), .ask (.receive 5))]
      (fun _ => tcpWorker 0 [.piece 0 [0, 0, 0, 0, 0, 0, 1, 1], .piece 0 [0, 0, 0, 0, 0, 0, 0]])).map Prod.fst =
        .ok [((), some (.message [1]))] ∧
    Runs.run (workerCall tcpHandle .EINVAL 0) [((), .ask (.receive 5)), ((), .ask .probe)]
      (fun _ => tcpWorker 0 [.piece 0 [0, 0, 0, 0, 0, 0, 1, 1], .piece 0 [0, 0, 0, 0, 0, 0, 0]]) =
        .error .useAfterFree ∧
    ¬ Dealt tcpHandle .EINVAL 0 (fun _ => [[1]]) [((), .ask (.receive 5)), ((), .ask .probe)]
      (fun _ => tcpWorker 0 [.piece 0 [0, 0, 0, 0, 0, 0, 1, 1], .piece 0 [0, 0, 0, 0, 0, 0, 0]]) := by
  have hstop : Runs.run (workerCall tcpHandle .EINVAL 0) [((), .ask (.receive 5)), ((), .ask .probe)]
      (fun _ => tcpWorker 0 [.piece 0 [0, 0, 0, 0, 0, 0, 1, 1], .piece 0 [0, 0, 0, 0, 0, 0, 0]]) =
        .error .useAfterFree := rfl
  refine ⟨tcpWorker_employed ?_ ?_, rfl, hstop, ?_⟩
  · intro m hm
    rw [List.mem_singleton.1 hm]
    exact ⟨List.cons_ne_nil _ _, by decide⟩
  · exact Or.inr ⟨by decide, by decide, Or.inr ⟨by decide, by decide, rfl⟩⟩
  · intro hdealt
    obtain ⟨as, s', hok, -⟩ := hdealt
    cases hok.symm.trans hstop

end Mtcl
