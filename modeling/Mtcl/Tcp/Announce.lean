import Mathlib.Data.List.TakeWhile
import Mtcl.Connect
import Mtcl.Tcp.Stream

/-!
# The announcement of a direct TCP connection

`connect` and `createTeam` send first what `connectionHandshake` reads first: a flag, and for a member of a team
the name of the team.  `Announced.wire` says what both put on the stream before the messages of the application,
and `handshake_round_trip` that the process that accepts the connection takes exactly this off the stream, in
whatever pieces it comes.
-/

namespace Mtcl

open Arrivals

/-- The function `connect` of every connector of the process is the one of `ConnTcp`, on sockets that can be
written to. -/
structure Manager.OverTcp (m : Manager Nat Process) : Prop where
  vt : m.vt = tcpHandle
  connectTo : ∀ protocol address p, ∃ s, m.connectTo protocol address p = .ok (p.connect s) ∧ ∀ k ∈ s, Moves k.answers

/-- `send` of some messages in order. -/
def sendEach {W : Type} (h : CommunicationHandle W) : List Bytes → W → Except Stop W
  | [], w => .ok w
  | m :: ms, w => do
    let (_, w) ← h.send m w
    sendEach h ms w

/-- A process has opened the direct connection `id` and sent the messages `ms` right after that: by `connect`,
or, with the name of a team, as a member of it that is not the root. -/
inductive Announced (m : Manager Nat Process) (id : Nat) (ms : List Bytes) : Option Bytes → Process → Prop
  | connect {s : Bytes} {p p₁ p₂ : Process} {u u' : HandleUser Nat} {rs : List Ret} (direct : ∀ q, ¬ m.Asks s q)
      (made : m.connect s p = .ok (u, p₁)) (valid : u.realHandle = some id)
      (sent : HandleUser.sends tcpHandle ms (u, p₁) = .ok (rs, (u', p₂))) : Announced m id ms none p₂
  | joinTeam {addrs : List Bytes} {teamID : Bytes} {p p₁ p₂ : Process} (direct : ∀ addr ∈ addrs, ∀ q, ¬ m.Asks addr q)
      (made : m.joinTeam addrs teamID p = .ok (some id, p₁)) (sent : sendEach (tcpHandle id) ms p₁ = .ok p₂) :
      Announced m id ms (some teamID) p₂

/-- What comes first on a direct connection. -/
def announcement : Option Bytes → Bytes
  | none => frame (Words.toLE sizeofInt 0)
  | some teamID => frame (Words.toLE sizeofInt 1) ++ frame teamID

/-- The vector `groupsReady[teamID]`. -/
def Process.group (p : Process) (teamID : Bytes) : List Nat :=
  (p.groupsReady.filter fun g => g.1 = teamID).map Prod.snd

/-! ### What is sent -/

/-- The handle can be written to, and `bs` has been. -/
def Process.Wrote (p : Process) (id : Nat) (bs : Bytes) : Prop := p.Writable id ∧ (p.handles id).wire = bs

namespace Process

variable {p p' : Process} {id : Nat} {bs m : Bytes} {r : Ret}

theorem Wrote.send (h : p.Wrote id bs) (he : (tcpHandle id).send m p = .ok (r, p')) : p'.Wrote id (bs ++ frame m) := by
  obtain ⟨p₁, hsend, hw, hwire⟩ := h.1.handle_send m
  rw [hsend] at he
  cases he
  refine ⟨hw, ?_⟩
  rw [hwire, h.2]

theorem Wrote.sendEach {ms : List Bytes} (h : p.Wrote id bs) (he : Mtcl.sendEach (tcpHandle id) ms p = .ok p') :
    p'.Wrote id (bs ++ ms.flatMap frame) := by
  induction ms generalizing p bs with
  | nil =>
    cases he
    rwa [List.flatMap_nil, List.append_nil]
  | cons m ms ih =>
    unfold Mtcl.sendEach at he
    obtain ⟨⟨r, p₁⟩, hsend, he⟩ := bind_eq_ok.1 he
    rw [List.flatMap_cons, ← List.append_assoc]
    exact ih (h.send hsend) he

theorem Wrote.sends {ms : List Bytes} {u u' : HandleUser Nat} {rs : List Ret} (h : p.Wrote id bs)
    (hu : u.realHandle = some id) (he : HandleUser.sends tcpHandle ms (u, p) = .ok (rs, (u', p'))) :
    p'.Wrote id (bs ++ ms.flatMap frame) := by
  obtain ⟨u₁, p₁, hsends, ⟨-, hw⟩, hwire⟩ := tcp_sends h.1 hu ms
  rw [hsends] at he
  cases he
  refine ⟨hw, ?_⟩
  rw [hwire, h.2]

/-- The new handle of a socket. -/
theorem newHandle_live (p : Process) (s : Socket) :
    (p.newHandle s).Live p.allocated ∧
      (p.newHandle s).handles p.allocated = { fd := some s.fd, incoming := s.incoming, answers := s.answers } := by
  have hself : (p.newHandle s).handles p.allocated =
      { fd := some s.fd, incoming := s.incoming, answers := s.answers } :=
    Function.update_self ..
  refine ⟨⟨Nat.lt_succ_self _, ?_, ?_⟩, hself⟩
  · rw [hself]
  · rw [hself]
    exact Option.some_ne_none _

/-- It can be written to when its socket can. -/
theorem wrote_connect {s : Option Socket} (hs : ∀ k ∈ s, Moves k.answers) (he : p.connect s = (some id, p')) :
    p'.Wrote id [] := by
  unfold Process.connect at he
  cases hk : p.kernelYields s with
  | none =>
    rw [hk] at he
    cases he
  | some k =>
    rw [hk] at he
    cases he
    have hks : k ∈ s := (Option.filter_eq_some_iff.1 hk).1
    obtain ⟨hlive, hself⟩ := p.newHandle_live k
    refine ⟨⟨hlive, ?_, ?_⟩, ?_⟩
    · rw [hself]
    · rw [hself]
      exact hs k hks
    · rw [hself]

/-- A constructor of `HandleUser` only counts. -/
theorem Wrote.mk' {rd new : Bool} {u : HandleUser Nat} (h : p.Wrote id bs)
    (he : HandleUser.mk' tcpHandle (some id) rd new p = .ok (u, p')) : u.realHandle = some id ∧ p'.Wrote id bs := by
  unfold HandleUser.mk' at he
  obtain ⟨p₁, hinc, he⟩ := bind_eq_ok.1 he
  cases he
  obtain ⟨h₁, hd, hinc⟩ := bind_eq_ok.1 hinc
  rw [h.1.live.deref] at hd
  cases hd
  cases hinc
  refine ⟨rfl, ⟨h.1.live.put rfl rfl, ?_, ?_⟩, ?_⟩
  · rw [put_handles_self]
    exact h.1.closedWr
  · rw [put_handles_self]
    exact h.1.moves
  · rw [put_handles_self]
    exact h.2

end Process

section

variable {m : Manager Nat Process} {id : Nat} {ms : List Bytes} {team : Option Bytes} {p p' : Process}

theorem Manager.OverTcp.made (hm : m.OverTcp) {protocol address : Bytes}
    (he : m.connectTo protocol address p = .ok (some id, p')) : p'.Wrote id [] := by
  obtain ⟨s, hto, hs⟩ := hm.connectTo protocol address p
  rw [hto] at he
  exact Process.wrote_connect hs (Except.ok.inj he)

/-- The stream of a direct connection begins with its announcement. -/
theorem Announced.wire (hm : m.OverTcp) (h : Announced m id ms team p) :
    p.Wrote id (announcement team ++ ms.flatMap frame) := by
  cases h with
  | @connect s p₀ p₁ _ u u' rs hd hmade hvalid hsent =>
    unfold Manager.connect at hmade
    obtain ⟨⟨h, p₂⟩, hhandle, hmade⟩ := bind_eq_ok.1 hmade
    cases h with
    | none =>
      cases hmade
      cases hvalid
    | some id₁ =>
      have hw : p₂.Wrote id₁ [] := Manager.connectHandle_made (P := fun id p => p.Wrote id []) hm.made hd hhandle
      rw [hm.vt] at hmade
      obtain ⟨⟨r, p₃⟩, hflag, hmade⟩ := bind_eq_ok.1 hmade
      cases r with
      | error e =>
        cases hmade
        cases hvalid
      | ok n =>
        obtain ⟨hu, hw⟩ := (hw.send hflag).mk' hmade
        obtain rfl : id₁ = id := Option.some.inj (hu.symm.trans hvalid)
        exact hw.sends hvalid hsent
  | @joinTeam addrs teamID p₀ p₁ _ hd hmade hsent =>
    unfold Manager.joinTeam at hmade
    obtain ⟨⟨h, p₂⟩, hroot, hmade⟩ := bind_eq_ok.1 hmade
    cases h with
    | none => cases hmade
    | some id₁ =>
      have hw : p₂.Wrote id₁ [] := Manager.connectRoot_made (P := fun id p => p.Wrote id []) hm.made hd hroot
      rw [hm.vt] at hmade
      obtain ⟨⟨r, p₃⟩, hflag, hmade⟩ := bind_eq_ok.1 hmade
      obtain ⟨⟨r', p₄⟩, hname, hmade⟩ := bind_eq_ok.1 hmade
      cases hmade
      exact ((hw.send hflag).send hname).sendEach hsent

end

/-! ### What is received -/

/-- What `connectionHandshake` finds for the announcement. -/
def Handshake.announced : Option Bytes → Handshake
  | none => .p2p
  | some teamID => .team teamID

/-- The process `p` has taken in the new connection `id` with its announcement, and is `p'` now: the handle is
in the queue, or in the group of its team and in no other, and on the stream are the messages `ms`, with
whatever comes after them. -/
structure TakenIn (p : Process) (id : Nat) (team : Option Bytes) (ms : List Bytes) (more : Bytes)
    (p' : Process) : Prop where
  handshake : ∃ q, connectionHandshake p.garbage (tcpHandle id) p = .ok (.announced team, q)
  ready : p'.handleReady = p.handleReady ++ if team = none then [⟨some id, true, true⟩] else []
  groups : ∀ t, p'.group t = p.group t ++ if team = some t then [id] else []
  stream : Delivers (p'.handles id).incoming (loose (ms.flatMap frame ++ more))
  first : ∀ m ms', ms = m :: ms' → ∀ size, ∃ q q',
    (tcpHandle id).probe size true p' = .ok (.ok sizeofSizeT, m.length, q) ∧
    (tcpHandle id).receive m.length q = .ok (.ok m.length, m, q')

namespace Process

variable {p : Process} {id : Nat} {m rest : Bytes}

private theorem withIncoming_withIncoming (p : Process) (id : Nat) (pr pr' : Bool × Nat) (s s' : List SockArrival) :
    (p.withIncoming id pr s).withIncoming id pr' s' = p.withIncoming id pr' s' := by
  rw [withIncoming, withIncoming_handles, withIncoming, put_put]
  rfl

/-- A blocking `probe` and a `receive` of the size it finds take a frame off the stream. -/
theorem Live.read_frame (h : p.Live id) (hm : m.length < 2 ^ 63)
    (ha : Arrives true (p.handles id).incoming (frame m ++ rest)) (size : Nat) :
    ∃ s s', (tcpHandle id).probe size true p =
        .ok (.ok sizeofSizeT, m.length, p.withIncoming id (p.handles id).probed s) ∧
      (tcpHandle id).receive m.length (p.withIncoming id (p.handles id).probed s) =
        .ok (.ok m.length, m, p.withIncoming id (p.handles id).probed s') ∧ Arrives true s' rest := by
  rw [frame, List.append_assoc] at ha
  obtain ⟨s, ha, hprobe⟩ :=
    (h.probe_header (arrives_supplies true) (Words.length_toBE _ _) ha size).resolve_right fun hwait => hwait.1
  have hlt : m.length < 256 ^ sizeofSizeT := Nat.lt_trans hm (by decide)
  rw [Words.ofBE_toBE hlt] at hprobe
  obtain ⟨s', hread, ha⟩ := ha.readn
  refine ⟨s, s', hprobe, ?_, ha⟩
  rw [(h.withIncoming _ _).receive, withIncoming_handles]
  dsimp only
  rw [hread]
  have hput := p.put_withIncoming id (p.handles id).probed s s'
  rw [withIncoming_handles] at hput
  exact congrArg (fun w => Except.ok (Except.ok m.length, m, w)) hput

/-- `readTeamID` takes the name of a team off the stream. -/
theorem Live.readTeamID (h : p.Live id) (hm : m ≠ [] ∧ m.length ≤ maxTeamID ∧ 0 ∉ m)
    (ha : Arrives true (p.handles id).incoming (frame m ++ rest)) :
    ∃ s, Mtcl.readTeamID p.garbage (tcpHandle id) p = .ok (.team m, p.withIncoming id (p.handles id).probed s) ∧
      Arrives true s rest := by
  obtain ⟨hne, hle, hnul⟩ := hm
  obtain ⟨s, s', hprobe, hreceive, ha'⟩ := h.read_frame (Nat.lt_of_le_of_lt hle (by decide)) ha 0
  obtain ⟨n, hn⟩ : ∃ n, m.length = n + 1 := Nat.exists_eq_succ_of_ne_zero (fun e => hne (List.length_eq_zero_iff.1 e))
  refine ⟨s', ?_, ha'⟩
  unfold Mtcl.readTeamID
  rw [hprobe, bind_ok]
  dsimp only
  rw [if_neg (Nat.not_lt.2 hle), hreceive, bind_ok, overlay_full, cstr_eq hnul, hn]
  rfl

/-- `connectionHandshake` takes the announcement off the stream, and nothing else. -/
theorem Live.handshake (h : p.Live id) {team : Option Bytes} (hteam : ∀ t ∈ team, t ≠ [] ∧ t.length ≤ maxTeamID ∧ 0 ∉ t)
    (ha : Arrives true (p.handles id).incoming (announcement team ++ rest)) :
    ∃ s, connectionHandshake p.garbage (tcpHandle id) p =
        .ok (.announced team, p.withIncoming id (p.handles id).probed s) ∧ Arrives true s rest := by
  have hlen : ∀ k, (Words.toLE sizeofInt k).length = sizeofInt := Words.length_toLE sizeofInt
  cases team with
  | none =>
    obtain ⟨s, s', hprobe, hreceive, ha'⟩ := h.read_frame (by rw [hlen]; decide) ha 0
    rw [hlen] at hprobe hreceive
    refine ⟨s', ?_, ha'⟩
    unfold connectionHandshake
    rw [hprobe, bind_ok]
    dsimp only
    rw [hreceive, bind_ok]
    dsimp only
    rw [if_pos (by decide)]
    rfl
  | some t =>
    rw [announcement, List.append_assoc] at ha
    obtain ⟨s, s', hprobe, hreceive, ha'⟩ := h.read_frame (by rw [hlen]; decide) ha 0
    rw [hlen] at hprobe hreceive
    have hlive : (p.withIncoming id (p.handles id).probed s').Live id := h.withIncoming _ _
    obtain ⟨s'', hname, ha''⟩ := hlive.readTeamID (hteam t rfl)
      (by rw [p.withIncoming_handles id (p.handles id).probed s']; exact ha')
    rw [p.withIncoming_handles id (p.handles id).probed s', withIncoming_withIncoming] at hname
    refine ⟨s'', ?_, ha''⟩
    unfold connectionHandshake
    rw [hprobe, bind_ok]
    dsimp only
    rw [hreceive, bind_ok]
    dsimp only
    rw [if_neg (by decide)]
    exact hname

/-- `addinQ` of a new connection takes the announcement off the stream and does what it says. -/
theorem Live.addinQ (h : p.Live id) {team : Option Bytes} (hteam : ∀ t ∈ team, t ≠ [] ∧ t.length ≤ maxTeamID ∧ 0 ∉ t)
    (ha : Arrives true (p.handles id).incoming (announcement team ++ rest)) :
    ∃ p', p.addinQ true id = .ok p' ∧ p'.Live id ∧ Arrives true (p'.handles id).incoming rest ∧
      p'.handleReady = p.handleReady ++ (if team = none then [⟨some id, true, true⟩] else []) ∧
      ∀ t, p'.group t = p.group t ++ if team = some t then [id] else [] := by
  obtain ⟨s, hshake, ha'⟩ := h.handshake hteam ha
  have hlive : (p.withIncoming id (p.handles id).probed s).Live id := h.withIncoming _ _
  have hself := p.withIncoming_handles id (p.handles id).probed s
  unfold Process.addinQ
  rw [if_pos rfl, hshake, bind_ok]
  cases team with
  | none =>
    have hinc : HandleUser.mk' tcpHandle (some id) true true (p.withIncoming id (p.handles id).probed s) =
        .ok (⟨some id, true, true⟩, (p.withIncoming id (p.handles id).probed s).put id
          { p.handles id with incoming := s, counter := (p.handles id).counter + 1 }) := by
      change (Process.deref _ id >>= _) >>= _ = _
      rw [hlive.deref, hself]
      rfl
    dsimp only [Handshake.announced]
    rw [hinc, bind_ok]
    refine ⟨_, rfl, ⟨h.allocated, ?_, ?_⟩, ?_, ?_, fun t => ?_⟩
    · change (Process.handles (Process.put _ _ _) id).deleted = _
      rw [put_handles_self]
      exact h.deleted
    · change (Process.handles (Process.put _ _ _) id).fd ≠ _
      rw [put_handles_self]
      exact h.fd
    · change Arrives true (Process.handles (Process.put _ _ _) id).incoming _
      rw [put_handles_self]
      exact ha'
    · rw [if_pos rfl]
      rfl
    · rw [if_neg (by simp), List.append_nil]
      rfl
  | some teamID =>
    refine ⟨_, rfl, ⟨h.allocated, hlive.deleted, hlive.fd⟩, ?_, ?_, fun t => ?_⟩
    · change Arrives true (Process.handles (Process.withIncoming _ _ _ _) id).incoming _
      rw [hself]
      exact ha'
    · rw [if_neg (by simp), List.append_nil]
      rfl
    · unfold group
      dsimp only
      rw [List.filter_append, List.map_append]
      congr 1
      by_cases ht : teamID = t
      · subst ht
        rw [if_pos rfl, List.filter_cons_of_pos (by simp)]
        rfl
      · rw [if_neg (fun e => ht (Option.some.inj e)), List.filter_cons_of_neg (by simpa using ht)]
        rfl

end Process

section

variable {m : Manager Nat Process} {id : Nat} {ms : List Bytes} {team : Option Bytes} {p q : Process} {s : Socket}
  {more : Bytes}

/-- A direct connection, whose bytes come in any pieces, is taken in as what it has been opened for, and the
next thing to read on it is the first message of the application. -/
theorem handshake_round_trip (hm : m.OverTcp) (ho : Announced m id ms team p)
    (hteam : ∀ t ∈ team, t ≠ [] ∧ t.length ≤ maxTeamID ∧ 0 ∉ t) (hms : ∀ m ∈ ms, Sendable m)
    (hs : Delivers s.incoming (loose ((p.handles id).wire ++ more))) :
    ∃ q', (q.newHandle s).addinQ true q.allocated = .ok q' ∧ TakenIn (q.newHandle s) q.allocated team ms more q' := by
  obtain ⟨hlive, hself⟩ := q.newHandle_live s
  have ha : Arrives true ((q.newHandle s).handles q.allocated).incoming
      (announcement team ++ (ms.flatMap frame ++ more)) := by
    refine ⟨?_, fun e => by cases e⟩
    rw [hself, ← List.append_assoc, ← (ho.wire hm).2]
    exact hs
  obtain ⟨s', hshake, -⟩ := hlive.handshake hteam ha
  obtain ⟨q', hadd, hlive', ha', hready, hgroups⟩ := hlive.addinQ hteam ha
  refine ⟨q', hadd, ⟨_, hshake⟩, hready, hgroups, ha'.1, ?_⟩
  intro m₁ ms₁ hfirst size
  subst hfirst
  rw [List.flatMap_cons, List.append_assoc] at ha'
  obtain ⟨t, t', hprobe, hreceive, -⟩ := hlive'.read_frame (hms m₁ (List.mem_cons_self ..)).2 ha' size
  exact ⟨_, _, hprobe, hreceive⟩

/-- A process in which each attempt to connect yields a socket. -/
private def dialling : Manager Nat Process where
  poolName := []
  components _ := none
  pools _ := []
  registered _ := true
  connectTo _ _ p := .ok (p.connect (some ⟨4, [], [.moved 3]⟩))
  vt := tcpHandle

/-- The announcement of a member of the team `t` and a message of one byte, in three pieces. -/
private def arriving : Socket where
  fd := 5
  incoming := [.piece 0 [0, 0, 0, 0, 0, 0], .quiet, .piece 4 [1, 0, 0, 0, 0, 0, 0, 0, 0, 0, 0, 1, 116],
    .piece 0 [0, 0, 0, 0, 0, 0, 1, 7]]

theorem handshake_round_trip_run :
    ∃ q, (Process.newHandle {} arriving).addinQ true 0 = .ok q ∧
      TakenIn (Process.newHandle {} arriving) 0 (some [116]) [[7]] [] q := by
  have hover : dialling.OverTcp := by
    refine ⟨rfl, fun protocol address p => ⟨_, rfl, ?_⟩⟩
    intro k hk
    obtain rfl := Option.some.inj hk
    intro a ha
    obtain rfl := List.mem_singleton.1 ha
    exact ⟨3, by decide, rfl⟩
  have hdirect : ∀ addr ∈ [literal ['T', 'C', 'P', ':', 'r']], ∀ q, ¬ dialling.Asks addr q := by
    intro addr _ q hq
    obtain ⟨-, c, hc, -⟩ := hq
    cases hc
  have hopened : ∃ p, Announced dialling 0 [[7]] (some [116]) p ∧
      (p.handles 0).wire = Arrivals.lead arriving.incoming :=
    ⟨_, Announced.joinTeam (p := {}) hdirect rfl rfl, by decide⟩
  obtain ⟨p, hopened, hwire⟩ := hopened
  refine handshake_round_trip hover hopened ?_ ?_ ?_
  · intro t ht
    obtain rfl := Option.some.inj ht
    decide
  · intro m hm
    obtain rfl := List.mem_singleton.1 hm
    exact ⟨by decide, by decide⟩
  · rw [hwire, List.append_nil]
    exact delivers_lead arriving.incoming

end

end Mtcl
