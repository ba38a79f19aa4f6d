import Mtcl.Proxy.Switchboard

/-!
# Connections through two proxies

The proxy of a process puts what comes from it in frames with the ID of its connection, and sends them to the
proxy of the other pool among the frames of all other connections (`carried_caller`).  That one recognises them
and gives what they carry to the process that it has made a connection to (`carried_callee`).

`tunnel_transparent` puts both together: whatever else the two proxies do meanwhile, the process at the far end
gets the messages of the first, in order and without loss, and behind the last one its end.  Nothing comes back
on such a connection, as a proxy stops when the process at the far end sends anything.
-/

namespace Mtcl

open Sources Switch

/-- What a frame carries for the connection with an ID. -/
def ProxyFrame.carriedFor (connID : Nat) (b : Bytes) : Option (Option Bytes) :=
  (ofBytes b).bind fun f => if f.identifier = connID then f.item else none

theorem ProxyFrame.carriedFor_toBytes {connID : Nat} (hid : connID < 2 ^ 64) (c : Nat) (m : Option Bytes) :
    carriedFor c (carrying connID m).toBytes = if connID = c then some m else none := by
  have hident : (carrying connID m).identifier = connID := by cases m <;> rfl
  unfold carriedFor
  rw [ofBytes_toBytes (hident.symm ▸ hid), Option.bind_some, hident, item_carrying]

namespace Proxy

section

variable {W : Type} {g : Wiring} {env : ProxyEnv W} {closed : Nat → Bool} {Q : Nat → List Bytes} {x : Nat → Port Bytes}
  {i j c via : Nat}

private theorem target_role (hg : g.Fits env closed) {k k' : Nat} {r r' : Role} (hk : g.role k = some r)
    (hc : r.connID = some c) (hk' : g.role k' = some r') (hc' : r'.connID = some c) : k = k' :=
  Option.some.inj ((hg.target.2 ⟨r, hk, hc⟩).symm.trans (hg.target.2 ⟨r', hk', hc'⟩))

/-- On the connection with the other proxy is what has been read from a process, in frames with the ID of its
connection. -/
theorem carried_caller (hg : g.Fits env closed) (hrun : Run g.onward closed Q x)
    (hi : g.role i = some (.caller c via)) :
    (x via).out.2 = false ∧ (x via).out.1.filterMap (ProxyFrame.carriedFor c) = (x i).items := by
  have hvia := hg.via hi
  -- nothing but frames of callers is put on the handle of a proxy
  have hput : ∀ {k m r}, toward via (g.onward k m) = some r →
      ∃ c', g.role k = some (.caller c' via) ∧ r = some (ProxyFrame.carrying c' m).toBytes := by
    intro k m r h
    cases ho : g.onward k m with
    | none =>
      rw [ho] at h
      cases h
    | some o =>
      obtain ⟨k', m'⟩ := o
      rw [ho] at h
      change (if k' = via then some m' else none) = some r at h
      split at h
      · rename_i hk'
        subst hk'
        cases h
        rcases Wiring.onward_cases ho with ⟨hop, -⟩ | hcaller | ⟨-, b, f, -, -, ht, -⟩
        · rw [(hg.hop hop).2] at hvia
          cases hvia
        · exact hcaller
        · obtain ⟨r', hr', hc'⟩ := hg.target.1 ht
          rw [hvia] at hr'
          cases hr'
          cases hc'
      · cases h
  refine hrun.carried (fun k m h => ?_) (fun m => ?_) fun k m a hk h => ?_
  · obtain ⟨c', -, he⟩ := hput h
    cases he
  · refine ⟨(ProxyFrame.carrying c m).toBytes, ?_, ?_⟩
    · unfold Wiring.onward
      rw [hi]
      exact if_pos rfl
    · rw [ProxyFrame.carriedFor_toBytes (hg.small hi rfl), if_pos rfl]
  · obtain ⟨c', hk', he⟩ := hput h
    cases he
    have hne : c' ≠ c := by
      rintro rfl
      exact hk (target_role hg hk' rfl hi rfl)
    rw [ProxyFrame.carriedFor_toBytes (hg.small hk' rfl), if_neg hne]

/-- On the handle of a process at the far end is what the frames of its connection have carried, when they come
from one proxy only. -/
theorem carried_callee (hg : g.Fits env closed) (hrun : Run g.onward closed Q x) (hj : g.role j = some (.callee c))
    (hvia : g.role via = some .proxy) (honly : ∀ k, k ≠ via → g.role k = some .proxy → ∀ b ∈ Q k, ∀ f,
      ProxyFrame.ofBytes b = some f → f.identifier ≠ c) :
    (x j).out = ((x via).got.filterMap (ProxyFrame.carriedFor c)).foldl (fun o m => putOut m o) ([], false) := by
  have htarget : ∀ {c'}, g.target c' = some j ↔ c' = c := by
    intro c'
    refine hg.target.trans ⟨?_, ?_⟩
    · rintro ⟨r, hr, hc'⟩
      rw [hj] at hr
      cases hr
      exact (Option.some.inj hc').symm
    · rintro rfl
      exact ⟨_, hj, rfl⟩
  have hfed := hrun.fed (i := via) (j := j) fun k m hk hm => by
    cases ho : g.onward k m with
    | none => rfl
    | some o =>
      obtain ⟨k', m'⟩ := o
      refine if_neg ?_
      rintro rfl
      rcases Wiring.onward_cases ho with ⟨hop, -⟩ | ⟨c', hcaller, -⟩ | ⟨hproxy, b, f, rfl, hf, ht, -⟩
      · rw [(hg.hop hop).2] at hj
        cases hj
      · rw [hg.via hcaller] at hj
        cases hj
      · exact honly k hk hproxy b (hm b rfl) f hf (htarget.1 ht)
  have hsome : (fun b => toward j (g.onward via (some b))) = ProxyFrame.carriedFor c := by
    funext b
    unfold Wiring.onward ProxyFrame.carriedFor
    rw [hvia]
    change toward j ((ProxyFrame.ofBytes b).bind _) = _
    cases ProxyFrame.ofBytes b with
    | none => rfl
    | some f =>
      rw [Option.bind_some, Option.bind_some]
      by_cases hc : f.identifier = c
      · rw [if_pos hc, htarget.2 hc, Option.bind_some]
        cases f.item with
        | none => rfl
        | some m => exact if_pos rfl
      · rw [if_neg hc]
        cases ht : g.target f.identifier with
        | none => rfl
        | some k =>
          have hk : k ≠ j := by
            rintro rfl
            exact hc (htarget.1 ht)
          cases f.item with
          | none => rfl
          | some m => exact if_neg hk
  have hitems : (x via).items = (x via).got.map some := by
    unfold Port.items
    rw [proxy_open hg hrun hvia]
    exact List.append_nil _
  rw [hfed, hitems, List.filterMap_map]
  exact congrArg (fun f => ((x via).got.filterMap f).foldl (fun o m => putOut m o) ([], false)) hsome

end

variable {V W : Type} {env : ProxyEnv V} {env' : ProxyEnv W} {closed closed' : Nat → Bool} {S : Nat → View → V → Prop}
  {S' : Nat → View → W → Prop} {Q Q' : Nat → List Bytes} {i j c via via' : Nat}

/-- The process `i` of one pool is connected with the process `j` of another, through the proxies of both pools.
Whatever the two proxies do, and in what order, `j` has been given a prefix of the messages that have come from
`i`; it has been given the end only behind all of them; and when the second proxy has read all that the first
has sent to it, it has been given all of them. -/
theorem tunnel_transparent (hd : Duplex env.vt closed S) (hdial : Dials env S Q) (hd' : Duplex env'.vt closed' S')
    (hdial' : Dials env' S' Q') {t : Switchboard V} {t' : Switchboard W}
    (h : Runs.Reach (Begins env closed S Q) (works env closed S Q) t)
    (h' : Runs.Reach (Begins env' closed' S' Q') (works env' closed' S' Q') t')
    (hi : t.wiring.role i = some (.caller c via)) (hj : t'.wiring.role j = some (.callee c))
    (hvia : t'.wiring.role via' = some .proxy) (hlink : (t'.ports via').got <+: (t.ports via).out.1)
    (honly : ∀ k, k ≠ via' → t'.wiring.role k = some .proxy → ∀ b ∈ Q' k, ∀ f,
      ProxyFrame.ofBytes b = some f → f.identifier ≠ c) :
    (t.ports i).got ++ (t.ports i).unread = Q i ∧ (∃ users ph, S via ⟨users, ph, (t.ports via).out⟩ t.proxy.world) ∧
    ∃ users ph ms ended, S' j ⟨users, ph, (ms, ended)⟩ t'.proxy.world ∧ ms <+: (t.ports i).got ∧
      (ended = true → ms = (t.ports i).got ∧ (t.ports i).ended = true) ∧
      ((t'.ports via').got = (t.ports via).out.1 → ms = (t.ports i).got ∧ ended = (t.ports i).ended) := by
  obtain ⟨hg, hw, hc⟩ := works_stand hd hdial h
  obtain ⟨hg', hw', hc'⟩ := works_stand hd' hdial' h'
  obtain ⟨-, hcarried⟩ := carried_caller hg hw.run hi
  have hcallee := carried_callee hg' hw'.run hj hvia honly
  obtain ⟨users, ⟨v, hv, hx⟩, -⟩ := hc.shown
  obtain ⟨users', ⟨v', hv', hx'⟩, -⟩ := hc'.shown
  have hprefix := hlink.filterMap (ProxyFrame.carriedFor c)
  rw [hcarried] at hprefix
  obtain ⟨hms, hend⟩ := foldl_prefix hprefix
  rw [← hcallee] at hms hend
  refine ⟨(hw.run.read i).1, ⟨users via, phase (t.ports via), hv via _ (hx via ?_)⟩, users' j, phase (t'.ports j), _, _,
    hv' j _ (hx' j ?_), hms, hend, fun hall => ?_⟩
  · rw [hg.via hi]
    nofun
  · rw [hj]
    nofun
  · rw [hall, hcarried, foldl_items] at hcallee
    exact ⟨congrArg Prod.fst hcallee, congrArg Prod.snd hcallee⟩

section

/-- A process has sent a message, and has closed. -/
private def told : Nat → List Bytes
  | 0 => [[1, 2]]
  | _ => []

private def hungUp (i : Nat) : Bool := i == 0

/-- The frame of the message comes to the second proxy. -/
private def framed : Nat → List Bytes
  | 0 => [(ProxyFrame.carrying 7 (some [1, 2])).toBytes]
  | _ => []

private def names (k i : Nat) : Bytes := if i = k then literal ['P'] else literal ['T', 'C', 'P']

private def nearEnv : ProxyEnv Process := overTcp (names 1) hungUp told

private def farEnv : ProxyEnv Process := overTcp (names 0) (fun _ => false) framed

private def near : Switchboard Process where
  wiring := twoEnds (.caller 7 1) .proxy fun c => if c = 7 then some 0 else none
  ports := Switch.start told
  proxy :=
    { world := twoHandles (encode (hungUp 0) (told 0)) (encode (hungUp 1) (told 1))
      heap := [⟨some 1, false, false⟩]
      id2handle := fun
        | 0 => some ⟨some 0, false, false⟩
        | _ => none
      connid2proxy := fun c => if c = 7 then some (some 0) else none
      loc2connID := (∅ : Bimap Nat Nat).insert 0 7 }

private def far : Switchboard Process where
  wiring := twoEnds .proxy (.callee 7) fun c => if c = 7 then some 1 else none
  ports := Switch.start framed
  proxy :=
    { world := twoHandles (encode false (framed 0)) (encode false (framed 1))
      id2handle := fun
        | 1 => some ⟨some 1, false, false⟩
        | _ => none
      loc2connID := (∅ : Bimap Nat Nat).insert 1 7 }

private theorem matches_seven (k : Nat) : ((∅ : Bimap Nat Nat).insert k 7).Matches [(k, 7)] :=
  Bimap.matches_empty.insert ⟨List.not_mem_nil, List.not_mem_nil⟩ ⟨by decide, nofun⟩

private theorem near_fits : near.wiring.Fits nearEnv hungUp where
  hop h := by
    rcases twoEnds_role h with ⟨rfl, he⟩ | ⟨rfl, he⟩ <;> cases he
  via h := by
    rcases twoEnds_role h with ⟨rfl, he⟩ | ⟨rfl, he⟩ <;> cases he
    rfl
  target {c i} := by
    change (if c = 7 then some 0 else none) = some i ↔ _
    constructor
    · intro h
      split at h
      · cases h
        exact ⟨_, rfl, by simp [Role.connID, *]⟩
      · cases h
    · rintro ⟨r, hr, hc⟩
      rcases twoEnds_role hr with ⟨rfl, rfl⟩ | ⟨rfl, rfl⟩ <;> cases hc
      rfl
  name h := by
    rcases twoEnds_role h with ⟨rfl, rfl⟩ | ⟨rfl, rfl⟩
    · exact iff_of_false (by decide) nofun
    · exact iff_of_true rfl rfl
  address _ _ h := h
  endless h := by
    rcases twoEnds_role h with ⟨rfl, he⟩ | ⟨rfl, he⟩ <;> cases he
    rfl
  small h hc := by
    rcases twoEnds_role h with ⟨rfl, rfl⟩ | ⟨rfl, rfl⟩ <;> cases hc
    decide

private theorem far_fits : far.wiring.Fits farEnv (fun _ => false) where
  hop h := by
    rcases twoEnds_role h with ⟨rfl, he⟩ | ⟨rfl, he⟩ <;> cases he
  via h := by
    rcases twoEnds_role h with ⟨rfl, he⟩ | ⟨rfl, he⟩ <;> cases he
  target {c i} := by
    change (if c = 7 then some 1 else none) = some i ↔ _
    constructor
    · intro h
      split at h
      · cases h
        exact ⟨_, rfl, by simp [Role.connID, *]⟩
      · cases h
    · rintro ⟨r, hr, hc⟩
      rcases twoEnds_role hr with ⟨rfl, rfl⟩ | ⟨rfl, rfl⟩ <;> cases hc
      rfl
  name h := by
    rcases twoEnds_role h with ⟨rfl, rfl⟩ | ⟨rfl, rfl⟩
    · exact iff_of_true rfl rfl
    · exact iff_of_false (by decide) nofun
  address _ _ h := h
  endless _ := rfl
  small h hc := by
    rcases twoEnds_role h with ⟨rfl, rfl⟩ | ⟨rfl, rfl⟩ <;> cases hc
    decide

private theorem told_sendable : ∀ i, ∀ m ∈ told i, Sendable m := by
  rintro (_ | i) m hm
  · rw [List.mem_singleton.1 hm]
    exact ⟨List.cons_ne_nil _ _, by decide⟩
  · cases hm

private theorem framed_sendable : ∀ i, ∀ m ∈ framed i, Sendable m := by
  rintro (_ | i) m hm
  · rw [List.mem_singleton.1 hm]
    exact ⟨List.cons_ne_nil _ _, by decide⟩
  · cases hm

private theorem routed_seven {x : Nat → Port Bytes} {n k c : Nat} (hx : ¬(x n).Done) :
    (k, c) ∈ [(n, 7)] ↔ ∃ i, (if c = 7 then some n else none) = some i ∧ i = k ∧ ¬(x i).Done := by
  rw [List.mem_singleton, Prod.mk.injEq]
  constructor
  · rintro ⟨rfl, rfl⟩
    exact ⟨k, rfl, rfl, hx⟩
  · rintro ⟨i, hi, rfl, -⟩
    split at hi
    · cases hi
      exact ⟨rfl, ‹_›⟩
    · cases hi

private theorem near_begins : Begins nearEnv hungUp (tcpView flagged hungUp) told near := by
  refine ⟨rfl, near_fits, ⟨fun _ => 1, ⟨_, twoHandles_shows (fun _ hi => if_pos hi) hungUp told_sendable, ?_⟩,
    fun _ _ _ => rfl⟩, ?_⟩
  · intro i hi
    obtain ⟨r, hr⟩ := Option.ne_none_iff_exists'.1 hi
    rcases twoEnds_role hr with ⟨rfl, -⟩ | ⟨rfl, -⟩ <;> rfl
  · refine ⟨fun hr hp _ => ?_, fun hr _ => ?_, fun hr => rfl, ⟨_, matches_seven 0, fun k c => ?_⟩,
      fun hr _ => ?_, fun k hk => ?_⟩
    · rcases twoEnds_role hr with ⟨rfl, rfl⟩ | ⟨rfl, rfl⟩
      · exact ⟨_, rfl, rfl, rfl⟩
      · exact absurd rfl hp
    · rcases twoEnds_role hr with ⟨rfl, he⟩ | ⟨rfl, he⟩ <;> cases he
    · exact routed_seven fun hdone => Bool.false_ne_true hdone.1
    · rcases twoEnds_role hr with ⟨rfl, he⟩ | ⟨rfl, he⟩ <;> cases he
      exact ⟨0, _, rfl, rfl, rfl⟩
    · match k with
      | 0 => exact absurd rfl (hk 0 nofun)
      | _ + 1 => exact ⟨rfl, rfl⟩

private theorem far_begins : Begins farEnv (fun _ => false) (tcpView flagged fun _ => false) framed far := by
  refine ⟨rfl, far_fits, ⟨fun _ => 1, ⟨_, twoHandles_shows (fun _ hi => if_pos hi) _ framed_sendable, ?_⟩,
    fun _ _ _ => rfl⟩, ?_⟩
  · intro i hi
    obtain ⟨r, hr⟩ := Option.ne_none_iff_exists'.1 hi
    rcases twoEnds_role hr with ⟨rfl, -⟩ | ⟨rfl, -⟩ <;> rfl
  · refine ⟨fun hr hp _ => ?_, fun hr _ => ?_, fun hr => rfl, ⟨_, matches_seven 1, fun k c => ?_⟩,
      fun hr _ => ?_, fun k hk => ?_⟩
    · rcases twoEnds_role hr with ⟨rfl, rfl⟩ | ⟨rfl, rfl⟩
      · exact absurd rfl hp
      · exact ⟨_, rfl, rfl, rfl⟩
    · rcases twoEnds_role hr with ⟨rfl, he⟩ | ⟨rfl, he⟩ <;> cases he
    · exact routed_seven fun hdone => Bool.false_ne_true hdone.1
    · rcases twoEnds_role hr with ⟨rfl, he⟩ | ⟨rfl, he⟩ <;> cases he
    · match k with
      | 0 => exact ⟨rfl, rfl⟩
      | 1 => exact absurd rfl (hk 1 nofun)
      | _ + 2 => exact ⟨rfl, rfl⟩

/-- The first proxy reads the message, the second one its frame, and the process at the far end has it. -/
theorem tunnel_transparent_run : ∃ t t' : Switchboard Process,
    Runs.Reach (Begins nearEnv hungUp (tcpView flagged hungUp) told)
      (works nearEnv hungUp (tcpView flagged hungUp) told) t ∧
    Runs.Reach (Begins farEnv (fun _ => false) (tcpView flagged fun _ => false) framed)
      (works farEnv (fun _ => false) (tcpView flagged fun _ => false) framed) t' ∧
    ∃ users ph, tcpView flagged (fun _ => false) 1 ⟨users, ph, ([[1, 2]], false)⟩ t'.proxy.world := by
  have hd : Duplex nearEnv.vt hungUp (tcpView flagged hungUp) := tcp_duplex flagged hungUp
  have hd' : Duplex farEnv.vt (fun _ => false) (tcpView flagged fun _ => false) := tcp_duplex flagged fun _ => false
  have hdial : Dials nearEnv (tcpView flagged hungUp) told := overTcp_dials told_sendable
  have hdial' : Dials farEnv (tcpView flagged fun _ => false) framed := overTcp_dials framed_sendable
  have h0 : Runs.Reach (Begins nearEnv hungUp (tcpView flagged hungUp) told)
      (works nearEnv hungUp (tcpView flagged hungUp) told) near := .start near_begins
  have h0' : Runs.Reach (Begins farEnv (fun _ => false) (tcpView flagged fun _ => false) framed)
      (works farEnv (fun _ => false) (tcpView flagged fun _ => false) framed) far := .start far_begins
  obtain ⟨ev, hev⟩ := HandsOut.exists (i := 0) (n := 0) hd
    (twoHandles_shows (fun _ hi => if_pos hi) hungUp told_sendable) rfl
  obtain ⟨ev', hev'⟩ := HandsOut.exists (i := 0) (n := 0) hd'
    (twoHandles_shows (fun _ hi => if_pos hi) (fun _ => false) framed_sendable) rfl
  obtain ⟨t, ht, -⟩ := (works_stand hd hdial h0).turn hd (i := 0) trivial (.inl (List.cons_ne_nil _ _)) hev
  obtain ⟨t', ht', -⟩ := (works_stand hd' hdial' h0').turn hd' (i := 0) (by
    intro m q hq
    cases hq
    exact ⟨ProxyFrame.carrying 7 (some [1, 2]), ProxyFrame.ofBytes_toBytes (by decide), by decide⟩)
    (.inl (List.cons_ne_nil _ _)) hev'
  have h1 := h0.next (.turn 0) ht
  have h1' := h0'.next (.turn 0) ht'
  obtain ⟨hwiring, -, hstep, -⟩ := ht
  obtain ⟨hwiring', -, hstep', -⟩ := ht'
  have hports := (Option.some.inj hstep).symm
  have hports' := (Option.some.inj hstep').symm
  have hgot : (t.ports 0).got = [[1, 2]] ∧ (t.ports 0).ended = false := by
    rw [hports]
    exact ⟨rfl, rfl⟩
  have hlink : (t'.ports 0).got = (t.ports 1).out.1 := by
    rw [hports, hports']
    rfl
  have hi : t.wiring.role 0 = some (.caller 7 1) := by
    rw [hwiring]
    rfl
  have hj : t'.wiring.role 1 = some (.callee 7) := by
    rw [hwiring']
    rfl
  have hvia : t'.wiring.role 0 = some .proxy := by
    rw [hwiring']
    rfl
  obtain ⟨-, -, users, ph, ms, ended, hview, -, -, hall⟩ := tunnel_transparent hd hdial hd' hdial' h1 h1' hi hj hvia
    (hlink ▸ List.prefix_refl _) fun k hk hproxy => by
      rw [hwiring'] at hproxy
      rcases twoEnds_role hproxy with ⟨rfl, -⟩ | ⟨rfl, he⟩
      · exact absurd rfl hk
      · cases he
  obtain ⟨rfl, rfl⟩ := hall hlink
  rw [hgot.1, hgot.2] at hview
  exact ⟨t, t', h1, h1', users, ph, hview⟩

end

end Proxy

end Mtcl
