import Mtcl.Collective.FanIn
import Mtcl.Tcp.Stream

/-!
# A fan-in is a merge

The two sides of a fan-in over TCP: a worker puts the frames of its messages and then EOS on its stream, and the
root's handles are fed when every header arrives as a whole.  `fanIn_merge` puts them together: whatever the
order in which the messages of the workers come, the root receives a merge of what they have sent, and is told
the end when all of them have ended.
-/

namespace Mtcl

open Arrivals Sources

/-! ### A worker -/

section

variable {H W : Type} {vt : H → CommunicationHandle W} {fuel : Nat} {errno : Errno}

/-- The context of a worker, open for writing, with its handle to the root. -/
structure CollectiveContext.Worker (c : CollectiveContext (FanInGeneric H)) (i : H) : Prop where
  deleted : c.deleted = false
  closedWr : c.closedWr = false
  canSend : c.canSend = true
  root : c.coll.root = false
  participants : c.coll.participants = [i]

/-- `HandleUser::send` on the context of a worker is `send` on its handle to the root. -/
theorem CollectiveContext.Worker.send {c : CollectiveContext (FanInGeneric H)} {i : H} (hc : c.Worker i)
    {v : HandleUser Unit} (hv : v.realHandle = some ()) {m : Bytes} {w w' : W}
    (hsend : (vt i).send m w = .ok (.ok m.length, w')) :
    v.send (fun _ => contextHandle (fanInGeneric vt fuel errno)) m (c, w) =
      .ok (.ok m.length, { v with newConnection := false }, (c, w')) := by
  have hbase : (contextHandle (fanInGeneric vt fuel errno)).base (c, w) = .ok c.toCommBase := by
    change (c.deref >>= _) = _
    rw [CollectiveContext.deref_of hc.deleted]
    rfl
  have hloop : FanInGeneric.sendLoop vt m c.coll.participants w = .ok (.ok m.length, w') := by
    rw [hc.participants, FanInGeneric.sendLoop, hsend]
    rfl
  have hcall : (contextHandle (fanInGeneric vt fuel errno)).send m (c, w) = .ok (.ok m.length, (c, w')) := by
    change (c.deref >>= fun c => c.send (fanInGeneric vt fuel errno) w m >>= _) = _
    rw [CollectiveContext.deref_of hc.deleted, bind_ok, CollectiveContext.send, if_neg (by simp [hc.canSend])]
    change ((FanInGeneric.send vt m c.coll w >>= _) >>= _) = _
    rw [FanInGeneric.send, hloop]
    rfl
  unfold HandleUser.send
  dsimp only
  rw [hv]
  dsimp only
  rw [hbase, bind_ok, if_neg (by simp [hc.closedWr]), hcall]
  rfl

/-- `HandleUser::close` on the context of a worker closes the write side of its handle to the root. -/
theorem CollectiveContext.Worker.close {c : CollectiveContext (FanInGeneric H)} {i : H} (hc : c.Worker i)
    {v : HandleUser Unit} (hv : v.realHandle = some ()) {w w' : W} (hclose : (vt i).close true false w = .ok w') :
    ∃ c', v.close (fun _ => contextHandle (fanInGeneric vt fuel errno)) (c, w) = .ok (c', w') := by
  have hcoll : FanInGeneric.close vt c.coll w = .ok (c.coll, w') := by
    rw [FanInGeneric.close, if_pos (by simp [hc.root]), hc.participants]
    dsimp only [List.getElem?_cons_zero]
    rw [hclose]
    rfl
  refine ⟨{ c with closedRd := c.closedRd || false, closedWr := c.closedWr || true }, ?_⟩
  unfold HandleUser.close
  rw [hv]
  change (c.deref >>= fun c => c.close (fanInGeneric vt fuel errno) w true false) = _
  rw [CollectiveContext.deref_of hc.deleted, bind_ok, CollectiveContext.close]
  change (FanInGeneric.close vt c.coll w >>= _) = _
  rw [hcoll]
  rfl

end

/-- A worker that sends some messages and closes puts their frames and EOS on its stream. -/
private theorem worker_sendAll {p : Process} {i : Nat} {c : CollectiveContext (FanInGeneric Nat)} {v : HandleUser Unit}
    (hw : p.Writable i) (hc : c.Worker i) (hv : v.realHandle = some ()) (fuel : Nat) (errno : Errno) (ms : List Bytes) :
    ∃ c' p', HandleUser.sendAll (fun _ => contextHandle (fanInGeneric tcpHandle fuel errno)) true ms (v, (c, p)) =
        .ok (ms.map fun m => .ok m.length, (c', p')) ∧
      (p'.handles i).wire = (p.handles i).wire ++ encode true ms := by
  let vt : Unit → CommunicationHandle _ := fun _ => contextHandle (fanInGeneric tcpHandle fuel errno)
  let J : HandleUser Unit × (CollectiveContext (FanInGeneric Nat) × Process) → Prop := fun s =>
    s.1.realHandle = some () ∧ s.2.1.Worker i ∧ s.2.2.Writable i
  have hstep : ∀ {u s}, J (u, s) → ∀ m, ∃ u' s', u.send vt m s = .ok (.ok m.length, u', s') ∧ J (u', s') ∧
      (s'.2.handles i).wire = (s.2.handles i).wire ++ frame m := by
    rintro u ⟨c, p⟩ ⟨hu, hc, hw⟩ m
    obtain ⟨p', hcall, hw', hwire⟩ := hw.handle_send m
    exact ⟨_, (c, p'), hc.send hu hcall, ⟨hu, hc, hw'⟩, hwire⟩
  have hstart : J (v, (c, p)) := ⟨hv, hc, hw⟩
  obtain ⟨v', ⟨c1, p1⟩, hsends, ⟨hv', hc1, hw1⟩, hwire⟩ := run_sends hstep hstart ms
  obtain ⟨p2, hcall, hwire2⟩ := hw1.handle_close
  obtain ⟨c2, hclose⟩ := @CollectiveContext.Worker.close _ _ tcpHandle fuel errno _ _ hc1 _ hv' _ _ hcall
  refine ⟨c2, p2, ?_, ?_⟩
  · unfold HandleUser.sendAll
    rw [hsends, bind_ok]
    dsimp only
    rw [if_pos rfl, hclose]
    rfl
  · rw [hwire2, hwire, List.append_assoc]
    rfl

/-! ### The handles of the root -/

/-- The items of a header that arrives as a whole, or in any pieces. -/
def header (whole : Bool) (bs : Bytes) : List (UInt8 × Bool) := if whole then glued bs else loose bs

/-- The bytes of some messages and of EOS. -/
def framed (whole : Bool) (q : List Bytes) : List (UInt8 × Bool) :=
  q.flatMap (fun m => header whole (Words.toBE sizeofSizeT m.length) ++ loose m) ++
    header whole (List.replicate sizeofSizeT 0)

theorem map_fst_header (whole : Bool) (bs : Bytes) : (header whole bs).map Prod.fst = bs := by
  cases whole
  · exact map_fst_loose bs
  · exact map_fst_glued bs

theorem map_fst_framed (whole : Bool) (q : List Bytes) : (framed whole q).map Prod.fst = encode true q := by
  have hmap : (fun m : Bytes => (header whole (Words.toBE sizeofSizeT m.length) ++ loose m).map Prod.fst) = frame := by
    funext m
    rw [List.map_append, map_fst_header, map_fst_loose]
    rfl
  rw [framed, List.map_append, List.map_flatMap, hmap, map_fst_header]
  rfl

/-- How TCP feeds a handle: the bytes of the messages and of EOS arrive in any pieces that do not cut a header. -/
def tcpFeed : Feed Nat Process where
  idle id q p := p.Live id ∧ (∀ m ∈ q, Sendable m) ∧ Delivers (p.handles id).incoming (framed true q)
  begun id m q p := p.Live id ∧ (∀ m ∈ q, Sendable m) ∧ Delivers (p.handles id).incoming (loose m ++ framed true q)
  left id p := (p.handles id).incoming.length

private theorem tcpFeed_withIncoming (p : Process) (id : Nat) (pr : Bool × Nat) {s : List SockArrival}
    (hs : s.length ≤ (p.handles id).incoming.length) : tcpFeed.Apart id p (p.withIncoming id pr s) := by
  intro j
  by_cases hj : j = id
  · subst hj
    refine ⟨?_, fun h => absurd rfl h⟩
    change ((p.withIncoming j pr s).handles j).incoming.length ≤ _
    rw [Process.withIncoming_handles]
    exact hs
  · have hsame : (p.withIncoming id pr s).handles j = p.handles j := Function.update_of_ne hj ..
    refine ⟨?_, fun _ q hq => ?_⟩
    · change ((p.withIncoming id pr s).handles j).incoming.length ≤ _
      rw [hsame]
      exact Nat.le_refl _
    · obtain ⟨⟨hid, hd, hfd⟩, hq, ha⟩ := hq
      exact ⟨⟨hid, by rw [hsame]; exact hd, by rw [hsame]; exact hfd⟩, hq, by rw [hsame]; exact ha⟩

private theorem tcpFeed_close (p : Process) (id : Nat) : tcpFeed.Apart id p (p.closeHandle id true true) := by
  obtain ⟨hrest, fd, wire, answers, eos, deleted, hh, -⟩ := p.closeHandle_handles id true true
  intro j
  by_cases hj : j = id
  · subst hj
    refine ⟨?_, fun h => absurd rfl h⟩
    change ((p.closeHandle j true true).handles j).incoming.length ≤ _
    rw [hh, Function.update_self]
    exact Nat.le_refl _
  · have hsame : (p.closeHandle id true true).handles j = p.handles j := by
      rw [hh]
      exact Function.update_of_ne hj ..
    refine ⟨?_, fun _ q hq => ?_⟩
    · change ((p.closeHandle id true true).handles j).incoming.length ≤ _
      rw [hsame]
      exact Nat.le_refl _
    · obtain ⟨⟨hid, hd, hfd⟩, hq, ha⟩ := hq
      exact ⟨⟨by rw [hrest.1]; exact hid, by rw [hsame]; exact hd, by rw [hsame]; exact hfd⟩, hq,
        by rw [hsame]; exact ha⟩

/-- A non-blocking `probe` of a handle on which a header is to come. -/
theorem Process.Live.poll_header {p : Process} {id : Nat} (h : p.Live id) {hdr : Bytes}
    (hlen : hdr.length = sizeofSizeT) {w : List (UInt8 × Bool)}
    (hd : Delivers (p.handles id).incoming (glued hdr ++ w)) (size : Nat) :
    (∃ s, (tcpHandle id).probe size false p =
          .ok (.error .EWOULDBLOCK, size, p.withIncoming id (p.handles id).probed s) ∧
        s.length < (p.handles id).incoming.length ∧ Delivers s (glued hdr ++ w)) ∨
      ∃ s, (tcpHandle id).probe size false p =
          .ok (.ok sizeofSizeT, Words.ofBE hdr, p.withIncoming id (p.handles id).probed s) ∧
        s.length ≤ (p.handles id).incoming.length ∧ Delivers s w := by
  have hne : hdr ≠ [] := by
    rintro rfl
    cases hlen
  rw [h.probe_nonblocking]
  rcases hd.poll hne with ⟨s, hs, hd'⟩ | ⟨hpoll, hd'⟩
  · left
    refine ⟨s, ?_, ?_, hd'⟩
    · rw [hs]
      rfl
    · rw [hs]
      exact Nat.lt_succ_self _
  · right
    have hover := overlay_full p.garbage hdr
    rw [hlen] at hpoll hd' hover
    refine ⟨_, ?_, length_dropItems_le _ _, hd'⟩
    rw [hpoll]
    dsimp only
    rw [hover]
    rfl

/-- TCP feeds the handles of the root. -/
theorem tcp_feeds : Feeds tcpHandle tcpFeed where
  poll := by
    rintro id q p ⟨hlive, hq, ha⟩ size
    have hstall : ∀ {s : List SockArrival}, s.length < (p.handles id).incoming.length → Delivers s (framed true q) →
        tcpFeed.idle id q (p.withIncoming id (p.handles id).probed s) ∧
        tcpFeed.left id (p.withIncoming id (p.handles id).probed s) < tcpFeed.left id p ∧
        tcpFeed.Apart id p (p.withIncoming id (p.handles id).probed s) := by
      intro s hlt hd
      refine ⟨⟨hlive.withIncoming _ _, hq, ?_⟩, ?_, tcpFeed_withIncoming p id _ (Nat.le_of_lt hlt)⟩
      · rw [Process.withIncoming_handles]
        exact hd
      · change ((p.withIncoming id _ s).handles id).incoming.length < _
        rw [Process.withIncoming_handles]
        exact hlt
    cases q with
    | nil =>
      have hhdr : framed true [] = glued (List.replicate sizeofSizeT 0) ++ [] := (List.append_nil _).symm
      rw [hhdr] at ha
      rcases hlive.poll_header List.length_replicate ha size with ⟨s, hcall, hlt, hd⟩ | ⟨s, hcall, hle, hd⟩
      · exact Or.inl ⟨_, hcall, hstall hlt (hhdr ▸ hd)⟩
      · right
        right
        have hzero : Words.ofBE (List.replicate sizeofSizeT 0) = 0 := by decide
        rw [hzero] at hcall
        refine ⟨rfl, _, _, hcall, (hlive.withIncoming _ _).close true true, fun j => ?_⟩
        have h1 := tcpFeed_withIncoming p id (p.handles id).probed hle j
        have h2 := tcpFeed_close (p.withIncoming id (p.handles id).probed s) id j
        exact ⟨h2.1.trans h1.1, fun hj r hr => h2.2 hj r (h1.2 hj r hr)⟩
    | cons m q =>
      obtain ⟨hm, hlt⟩ := hq m (List.mem_cons_self ..)
      have hlt' : m.length < 256 ^ sizeofSizeT := Nat.lt_trans hlt (by decide)
      have hhdr : framed true (m :: q) = glued (Words.toBE sizeofSizeT m.length) ++ (loose m ++ framed true q) := by
        simp [framed, header]
      rw [hhdr] at ha
      rcases hlive.poll_header (Words.length_toBE _ _) ha size with ⟨s, hcall, hlt, hd⟩ | ⟨s, hcall, hle, hd⟩
      · exact Or.inl ⟨_, hcall, hstall hlt (hhdr ▸ hd)⟩
      · right
        left
        rw [Words.ofBE_toBE hlt'] at hcall
        refine ⟨m, q, _, rfl, hm, hcall, ?_, ?_⟩
        · rw [Process.setProbed_withIncoming]
          refine ⟨hlive.withIncoming _ _, fun m' hm' => hq m' (List.mem_cons_of_mem _ hm'), ?_⟩
          rw [Process.withIncoming_handles]
          exact hd
        · rw [Process.setProbed_withIncoming]
          exact tcpFeed_withIncoming p id _ hle
  receive := by
    rintro id m q p ⟨hlive, hq, ha⟩
    obtain ⟨h1, h2, h3⟩ := ha.take (n := m.length) (by simp)
    have hread : readn m.length (p.handles id).incoming =
        .ok (.ok m.length, m, dropItems m.length (p.handles id).incoming) := by
      rw [readn_eq, if_pos h1, h2, List.map_append, map_fst_loose, List.take_left' rfl]
    rw [List.drop_left' (length_loose m)] at h3
    refine ⟨p.withIncoming id (p.handles id).probed (dropItems m.length (p.handles id).incoming), ?_, ?_, ?_⟩
    · rw [hlive.receive, hread]
      rfl
    · rw [Process.setProbed_withIncoming]
      refine ⟨hlive.withIncoming _ _, hq, ?_⟩
      rw [Process.withIncoming_handles]
      exact h3
    · rw [Process.setProbed_withIncoming]
      exact tcpFeed_withIncoming p id _ (length_dropItems_le _ _)

/-! ### The fan-in -/

/-- What a run of the root has received: a merge of the workers' messages, each from its own worker and in its
order; the end is answered only when all the workers have ended, and a message of which the root knows the size
is the next one on the handle that the index names. -/
def MergedSoFar {H W : Type} [DecidableEq H] (F : Feed H W) (qs : H → List Bytes) (as : List (Answer Bytes))
    (ph : Phase (H → List Bytes) Bytes) (s : CollectiveContext (FanInGeneric H) × W) : Prop :=
  (∃ l : List (H × Bytes), l.map Prod.snd = received as ++ ph.pending ∧ ∀ h, qs h = ofTag h l ++ ph.state h) ∧
  (.finished ∈ as → s.1.coll.participants = [] ∧ ph.pending = [] ∧ ∀ h, ph.state h = []) ∧
  ∀ m rest, ph = .opened m rest → ∃ h, s.1.coll.Begun F rest h m s.2

private theorem root_merges {H W : Type} [DecidableEq H] {vt : H → CommunicationHandle W} {F : Feed H W}
    (hf : Feeds vt F) {fuel : Nat} {errno : Errno} {qs : H → List Bytes}
    {c : CollectiveContext (FanInGeneric H)} {w : W} {u : HandleUser Unit} (hc : c.Root)
    (hp : c.probed.1 = false) (hw : c.coll.Waiting F qs w) (hfuel : c.coll.turns F w ≤ fuel)
    (hu : u.realHandle = some ()) (hread : u.isReadable = true) (size : Nat) (rs : List Request) :
    ∃ as ph v s, Runs.run (HandleUser.ask (fun _ => contextHandle (fanInGeneric vt fuel errno)) size) rs (u, (c, w)) =
        .ok (as.map some, (v, s)) ∧ Run merge List.length rs (.idle qs) as ph ∧ MergedSoFar F qs as ph s := by
  have hreads := fanIn_reads hf fuel errno
  have howns : Owns (RootReading F fuel) () (.idle qs) (u, (c, w)) := ⟨hu, ⟨hc, hp, hw, hfuel⟩, fun _ => hread⟩
  have hsrc : ∀ s : H → List Bytes, merge.finished s ∨ ∃ m s', merge.next s m s' := by
    intro s
    by_cases hs : ∀ h, s h = []
    · exact Or.inl hs
    · obtain ⟨h, hh⟩ := not_forall.1 hs
      obtain ⟨m, q, hq⟩ := List.exists_cons_of_ne_nil hh
      refine Or.inr ⟨m, FanInGeneric.taken s h, h, ?_, fun j hj => Function.update_of_ne hj ..⟩
      rw [FanInGeneric.taken, Function.update_self, hq]
      rfl
  obtain ⟨as, ph, ⟨v, s⟩, hrun, hsteps, howns'⟩ :=
    @run_asks _ _ _ (fun _ => contextHandle (fanInGeneric vt fuel errno)) _ _ () hreads _ _ howns size hsrc rs
  refine ⟨as, ph, v, s, hrun, hsteps, merge_path hsteps.path, fun hend => ?_, fun m rest hph => ?_⟩
  · obtain ⟨st, rfl, hfin⟩ := hsteps.finished (by rintro _ ⟨⟩) hend
    exact ⟨howns'.2.1.2.2.2, rfl, hfin⟩
  · subst hph
    exact howns'.2.1.2.2.2.1

/-- A fan-in delivers everything exactly once.  A worker's messages and its EOS go to its stream; TCP feeds the
handles on which such bytes arrive with no header cut; and over any handles that are fed, however many there are
and whatever the order in which the messages come, every sequence of blocking calls of the root is answered as
the reader of a merge of what the workers have sent. -/
theorem fanIn_merge :
    (∀ {p : Process} {i : Nat} {c : CollectiveContext (FanInGeneric Nat)} {v : HandleUser Unit}, p.Writable i →
      c.Worker i → v.realHandle = some () → ∀ (fuel : Nat) (errno : Errno) (ms : List Bytes),
      ∃ c' p', HandleUser.sendAll (fun _ => contextHandle (fanInGeneric tcpHandle fuel errno)) true ms (v, (c, p)) =
          .ok (ms.map fun m => .ok m.length, (c', p')) ∧
        (p'.handles i).wire = (p.handles i).wire ++ encode true ms) ∧
    (Feeds tcpHandle tcpFeed ∧ ∀ q, (framed true q).map Prod.fst = encode true q) ∧
    ∀ {H W : Type} [DecidableEq H] {vt : H → CommunicationHandle W} {F : Feed H W}, Feeds vt F →
      ∀ {fuel : Nat} {errno : Errno} {qs : H → List Bytes} {c : CollectiveContext (FanInGeneric H)} {w : W}
        {u : HandleUser Unit}, c.Root → c.probed.1 = false → c.coll.Waiting F qs w → c.coll.turns F w ≤ fuel →
      u.realHandle = some () → u.isReadable = true → ∀ (size : Nat) (rs : List Request),
      ∃ as ph v s,
        Runs.run (HandleUser.ask (fun _ => contextHandle (fanInGeneric vt fuel errno)) size) rs (u, (c, w)) =
          .ok (as.map some, (v, s)) ∧
        Run merge List.length rs (.idle qs) as ph ∧ MergedSoFar F qs as ph s :=
  ⟨worker_sendAll, ⟨tcp_feeds, map_fst_framed true⟩, root_merges⟩

/-- What two workers send. -/
private def twoWorkers (i : Nat) : List Bytes := if i = 0 then [[7], [9]] else if i = 1 then [[8, 8]] else []

/-- Two workers over TCP, the headers of the first one coming late: the root gets the message of the second one
first. -/
theorem fanIn_merge_run : ∃ (p : Process) (c : CollectiveContext (FanInGeneric Nat))
    (ph : Phase (Nat → List Bytes) Bytes) (v : HandleUser Unit)
    (s : CollectiveContext (FanInGeneric Nat) × Process),
    let rs : List Request := [.receive 5, .probe, .receive 5, .receive 5, .probe]
    let as : List (Answer Bytes) := [.message [8, 8], .size 1, .message [7], .message [9], .finished]
    Runs.run (HandleUser.ask (fun _ => contextHandle (fanInGeneric tcpHandle 10 .EINVAL)) 0) rs
        (⟨some (), true, true⟩, (c, p)) = .ok (as.map some, (v, s)) ∧
      Run merge List.length rs (.idle twoWorkers) as ph := by
  let incoming : Nat → List SockArrival := fun i =>
    if i = 0 then [.quiet, .piece 0 [0, 0, 0, 0, 0, 0, 1, 7], .quiet, .piece 0 [0, 0, 0, 0, 0, 0, 1, 9],
      .piece 0 [0, 0, 0, 0, 0, 0, 0]]
    else [.piece 0 [0, 0, 0, 0, 0, 0, 2, 8, 8], .piece 0 [0, 0, 0, 0, 0, 0, 0]]
  let p : Process := { handles := fun i => { fd := some (3 + i), incoming := incoming i }, allocated := 2 }
  let c : CollectiveContext (FanInGeneric Nat) :=
    .mk' false true { participants := [0, 1], root := true }
  have hsend : ∀ i, ∀ m ∈ twoWorkers i, Sendable m := by
    have hshort : ∀ m : Bytes, m = [7] ∨ m = [9] ∨ m = [8, 8] → Sendable m := by
      rintro m (rfl | rfl | rfl)
      · exact ⟨List.cons_ne_nil _ _, by decide⟩
      · exact ⟨List.cons_ne_nil _ _, by decide⟩
      · exact ⟨List.cons_ne_nil _ _, by decide⟩
    intro i m hm
    refine hshort m ?_
    unfold twoWorkers at hm
    split at hm
    · rcases List.mem_cons.1 hm with hm | hm
      · exact .inl hm
      · exact .inr (.inl (List.mem_singleton.1 hm))
    · split at hm
      · exact .inr (.inr (List.mem_singleton.1 hm))
      · cases hm
  have hw : c.coll.Waiting tcpFeed twoWorkers p := by
    refine ⟨by decide, fun h hh => ?_, fun h hh => ?_⟩
    · rcases List.mem_cons.1 hh with rfl | hh
      · refine ⟨⟨Nat.zero_lt_two, rfl, Option.some_ne_none _⟩, hsend 0, ?_⟩
        exact Or.inr ⟨by decide, by decide, Or.inr ⟨by decide, by decide, Or.inr ⟨by decide, by decide, rfl⟩⟩⟩
      · rw [List.mem_singleton.1 hh]
        refine ⟨⟨Nat.one_lt_two, rfl, Option.some_ne_none _⟩, hsend 1, ?_⟩
        exact Or.inr ⟨by decide, by decide, Or.inr ⟨by decide, by decide, rfl⟩⟩
    · have h0 : h ≠ 0 := fun e => hh (e ▸ List.mem_cons_self ..)
      have h1 : h ≠ 1 := fun e => hh (e ▸ List.mem_cons_of_mem _ (List.mem_singleton_self _))
      exact (if_neg h0).trans (if_neg h1)
  obtain ⟨-, ⟨hfeeds, -⟩, hroot⟩ := fanIn_merge
  obtain ⟨as, ph, v, s, hrun, hpath, -⟩ := @hroot Nat Process _ tcpHandle tcpFeed hfeeds 10 .EINVAL twoWorkers c p
    ⟨some (), true, true⟩ ⟨rfl, rfl, rfl, rfl⟩ rfl hw (by decide) rfl rfl 0
      [.receive 5, .probe, .receive 5, .receive 5, .probe]
  have hanswers : (Runs.run (HandleUser.ask (fun _ => contextHandle (fanInGeneric tcpHandle 10 .EINVAL)) 0)
      [.receive 5, .probe, .receive 5, .receive 5, .probe] (⟨some (), true, true⟩, (c, p))).map Prod.fst =
        .ok ([Answer.message [8, 8], .size 1, .message [7], .message [9], .finished].map some) := by decide +kernel
  rw [hrun] at hanswers
  have has := List.map_injective_iff.2 (Option.some_injective _) (Except.ok.inj hanswers)
  subst has
  exact ⟨p, c, ph, v, s, hrun, hpath⟩

end Mtcl
