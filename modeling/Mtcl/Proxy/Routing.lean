import Mathlib.Data.List.TakeWhile
import Mtcl.Collective.Sending
import Mtcl.Connect
import Mtcl.Proxy.Main

/-!
# Routing between pools

The process that connects and the proxy that it asks both take the pool of a component from its host string,
`[pool:]hostname`, the one with `getPoolFromHost`, the other with the part in front of the first colon
(`poolOf`).  `routing_agrees_iff` compares what they do with it: the process connects to a proxy and sends it
the string, and the proxy connects to an endpoint of the component (`Served`), or sends a `CONN` frame on the
handle of the proxy of another pool (`Forwarded`).
-/

namespace Mtcl

open Proxy

variable {H V W : Type}

/-- The `CONN` frame for a process with the handle `h` that has asked for the string `s`. -/
def connFrame (env : ProxyEnv W) (s : Bytes) (h : HandleUser Nat) : Bytes :=
  ProxyFrame.toBytes ⟨Cmd.CONN.toByte, env.connID s h, s⟩

/-- The component is served directly: the first of its endpoints of the protocol that can be connected to is
paired with the process, and nothing is entered when there is none. -/
structure Served (env : ProxyEnv W) (st : Proxy W) (h : HandleUser Nat) (w : W) (s : Bytes) (c : Component)
    (x : Except ProxyStop (HandleUser Nat × Proxy W)) : Prop where
  stops : ∀ e, env.connectFirst (beforeColon s) c.listenStrs w = .error e → x = .error (.stop e)
  unreached : ∀ w', env.connectFirst (beforeColon s) c.listenStrs w = .ok (none, w') →
    (∀ le ∈ c.listenStrs, contains le (beforeColon s) = true → ∃ v u v', env.connect le v = .ok (u, v') ∧
      u.realHandle = none) ∧ x = (lift (h.close env.vt w')).map fun v => (h, { st with world := v })
  reached : ∀ u w', env.connectFirst (beforeColon s) c.listenStrs w = .ok (some u, w') →
    (∃ le ∈ c.listenStrs, contains le (beforeColon s) = true ∧ u.realHandle.isSome = true ∧
      ∃ v, env.connect le v = .ok (u, w')) ∧ ∃ pairs : Nat → Option Nat,
        x = (({ st with world := w', proc2proc := pairs } : Proxy W).keepHandle env u >>= fun st' =>
          (st'.keepHandle env h).map fun st' => ({}, st')) ∧
        (st.proc2proc (env.getID h) = none → env.getID u ≠ env.getID h → pairs (env.getID h) = some (env.getID u)) ∧
        (st.proc2proc (env.getID u) = none → env.getID u ≠ env.getID h → pairs (env.getID u) = some (env.getID h)) ∧
        ∀ k, k ≠ env.getID h → k ≠ env.getID u → pairs k = st.proc2proc k

/-- The request goes to the proxy that is registered for the pool: the `CONN` frame is sent on its handle, and
the process is entered with the identifier of the frame. -/
structure Forwarded (env : ProxyEnv W) (st : Proxy W) (h : HandleUser Nat) (w : W) (s pool : Bytes)
    (x : Except ProxyStop (HandleUser Nat × Proxy W)) : Prop where
  unknown : (st.proxies pool).getD none = none → x = .error .nullProxy
  stops : ∀ p u e, st.proxies pool = some (some p) → st.heap[p]? = some u →
    u.send env.vt (connFrame env s h) w = .error e → x = .error (.stop e)
  sent : ∀ p u r u' w', st.proxies pool = some (some p) → st.heap[p]? = some u →
    u.send env.vt (connFrame env s h) w = .ok (r, u', w') →
    x = (({ st with
        world := w'
        heap := st.heap.set p u'
        loc2connID := st.loc2connID.insert (env.getID h) (env.connID s h)
        connid2proxy := Function.update st.connid2proxy (env.connID s h)
          (some ((st.connid2proxy (env.connID s h)).getD (some p)))
        route := Function.update st.route (env.connID s h) u.realHandle } : Proxy W).keepHandle env h).map
      fun st' => ({}, st')

/-- What the proxy of the pool `q` does with a process that asks for the string `s`, as the configuration has
it: the component `c` is served directly when it has no pool or is in this one, and otherwise the proxy of its
pool is asked. -/
def Decides (env : ProxyEnv W) (s q : Bytes) (c : Component) : Prop :=
  ∀ (ev : ProxyEvent W) (st : Proxy W) (h h' : HandleUser Nat) (size : Nat) (w : W),
    env.readMessage ev h st.world = .ok (size, s, h', w) →
    if getPoolFromHost c.host = [] ∨ getPoolFromHost c.host = q then Served env st h' w s c (st.newProcess env ev h)
    else Forwarded env st h' w s (getPoolFromHost c.host) (st.newProcess env ev h)

/-- What the process does that asks the proxy of the pool `q`: all attempts are at proxies of this pool, the
handle that is returned is a connection to one of them, on which the string has been sent, and it is returned
when the first attempt succeeds. -/
structure Requests (m : Manager H V) (s q : Bytes) (w : V) : Prop where
  attempts : ∀ x ∈ (m.dialHandle s (m.before w)).2.attempts, x.1 ∈ m.proxies (Manager.protocolOf s) q
  sent : ∀ h w', m.connectHandle s w = .ok (some h, w') → ∃ a ∈ m.proxies (Manager.protocolOf s) q, ∃ w₀ w₁ r,
    m.connectTo a.protocol a.address w₀ = .ok (some h, w₁) ∧ (m.vt h).send s w₁ = .ok (r, w')
  first : ∀ a h w₁ r w', (m.proxies (Manager.protocolOf s) q).head? = some a → m.registered a.protocol = true →
    m.connectTo a.protocol a.address w = .ok (some h, w₁) → (m.vt h).send s w₁ = .ok (r, w') →
    m.connectHandle s w = .ok (some h, w')

/-- The process and the proxy agree on where the component `c` is, for which the process connects with the
string `s`. -/
structure RoutingAgrees (m : Manager H V) (env : ProxyEnv W) (s : Bytes) (c : Component) : Prop where
  client : ∀ q w, m.Asks s q → Requests m s q w
  proxy : ∀ q, m.Asks s q → env.pool = q → Decides env s q c
  pool : poolOf c = getPoolFromHost c.host

/-! ### What each of them does -/

section

variable {env : ProxyEnv W} {st : Proxy W} {h : HandleUser Nat} {w : W} {s : Bytes} {c : Component}

private theorem connectFirst_found {protocol : Bytes} {les : List Bytes} {u : HandleUser Nat} {w w' : W}
    (he : env.connectFirst protocol les w = .ok (some u, w')) :
    ∃ le ∈ les, contains le protocol = true ∧ u.realHandle.isSome = true ∧ ∃ v, env.connect le v = .ok (u, w') := by
  induction les generalizing w with
  | nil => cases he
  | cons le les ih =>
    have hrest : ∀ {v}, env.connectFirst protocol les v = .ok (some u, w') →
        ∃ l ∈ le :: les, contains l protocol = true ∧ u.realHandle.isSome = true ∧
          ∃ v, env.connect l v = .ok (u, w') := by
      intro v h
      obtain ⟨l, hl, hfound⟩ := ih h
      exact ⟨l, List.mem_cons_of_mem _ hl, hfound⟩
    unfold ProxyEnv.connectFirst at he
    by_cases hc : contains le protocol = true
    · rw [if_pos hc] at he
      obtain ⟨⟨u1, w1⟩, hto, he⟩ := bind_eq_ok.1 he
      by_cases hu : u1.realHandle.isSome = true
      · dsimp only at he
        rw [if_pos hu] at he
        cases he
        exact ⟨le, List.mem_cons_self .., hc, hu, w, hto⟩
      · dsimp only at he
        rw [if_neg hu] at he
        exact hrest he
    · rw [if_neg hc] at he
      exact hrest he

private theorem connectFirst_none {protocol : Bytes} {les : List Bytes} {w w' : W}
    (he : env.connectFirst protocol les w = .ok (none, w')) :
    ∀ le ∈ les, contains le protocol = true → ∃ v u v', env.connect le v = .ok (u, v') ∧ u.realHandle = none := by
  induction les generalizing w with
  | nil => exact fun le hle => absurd hle List.not_mem_nil
  | cons le les ih =>
    unfold ProxyEnv.connectFirst at he
    by_cases hc : contains le protocol = true
    · rw [if_pos hc] at he
      obtain ⟨⟨u1, w1⟩, hto, he⟩ := bind_eq_ok.1 he
      by_cases hu : u1.realHandle.isSome = true
      · dsimp only at he
        rw [if_pos hu] at he
        cases he
      · dsimp only at he
        rw [if_neg hu] at he
        intro l hl hcl
        rcases List.mem_cons.1 hl with rfl | hl
        · exact ⟨w, u1, w1, hto, by simpa using hu⟩
        · exact ih he l hl hcl
    · rw [if_neg hc] at he
      intro l hl hcl
      rcases List.mem_cons.1 hl with rfl | hl
      · exact absurd hcl hc
      · exact ih he l hl hcl

private theorem oneHop_serves (hp : beforeColon s ≠ []) :
    Served env st h w s c (({ st with world := w } : Proxy W).oneHop env h (beforeColon s) c) := by
  refine ⟨fun e he => ?_, fun w' he => ⟨connectFirst_none he, ?_⟩, fun u w' he => ⟨connectFirst_found he, ?_⟩⟩
  · unfold Proxy.oneHop
    rw [if_neg hp]
    dsimp only
    rw [he]
    rfl
  · unfold Proxy.oneHop
    rw [if_neg hp]
    dsimp only
    rw [he]
    show (lift (h.close env.vt w') >>= fun v => .ok (h, { st with world := v })) = _
    cases lift (h.close env.vt w') <;> rfl
  · unfold Proxy.oneHop
    rw [if_neg hp]
    dsimp only
    rw [he]
    refine ⟨_, rfl, fun hnone hne => ?_, fun hnone hne => ?_, fun k hk hk' => ?_⟩
    · rw [Function.update_of_ne (Ne.symm hne), Function.update_self, hnone]
      rfl
    · rw [Function.update_self, Function.update_of_ne hne, hnone]
      rfl
    · rw [Function.update_of_ne hk', Function.update_of_ne hk]

/-- A connection to another pool is a request to the proxy of this pool. -/
private theorem otherPool_forwards (pool : Bytes) :
    Forwarded env st h w s pool (({ st with world := w } : Proxy W).otherPool env h s pool) := by
  have hsame : ∀ {p}, st.proxies pool = some (some p) →
      Function.update st.proxies pool (some ((st.proxies pool).getD none)) = st.proxies := by
    intro p hp
    apply Function.update_eq_self_iff.2
    rw [hp]
    rfl
  refine ⟨fun hnone => ?_, fun p u e hp hu hsend => ?_, fun p u r u' w' hp hu hsend => ?_⟩
  · unfold Proxy.otherPool
    dsimp only
    rw [hnone]
    rfl
  · unfold Proxy.otherPool Proxy.sendThrough
    dsimp only
    rw [hsame hp, hp]
    dsimp only [Option.getD_some]
    rw [hu]
    dsimp only
    unfold connFrame at hsend
    rw [hsend]
    rfl
  · have hreal : u'.realHandle = u.realHandle := HandleUser.send_user hsend
    have hlt : p < st.heap.length := (List.getElem?_eq_some_iff.1 hu).1
    have hset : (st.heap.set p u')[p]? = some u' := List.getElem?_set_self hlt
    unfold Proxy.otherPool Proxy.sendThrough
    dsimp only
    rw [hsame hp, hp]
    dsimp only [Option.getD_some]
    rw [hu]
    dsimp only
    unfold connFrame at hsend
    rw [hsend]
    dsimp only [Proxy.associate, lift, Except.mapError, bind, Except.bind, Option.bind, pure, Except.pure]
    rw [hset]
    dsimp only
    rw [hreal]
    cases Proxy.keepHandle env _ h <;> rfl

end

private theorem asks_requests {m : Manager H V} {s q : Bytes} (ha : m.Asks s q) (w : V) : Requests m s q w := by
  refine ⟨fun x hx => ?_, fun h w' he => Manager.connectHandle_asked ha he, fun a h w₁ r w' hfirst hr hto hsend => ?_⟩
  · rw [← Manager.candidates_of_asks ha]
    exact Manager.dialHandle_attempts s w x hx
  · have hcand : ∃ as, m.candidates s = a :: as := by
      rw [Manager.candidates_of_asks ha]
      exact List.head?_eq_some_iff.1 hfirst
    obtain ⟨as, hcand⟩ := hcand
    have hall : ∀ untested, (m.dialAll untested (some s) (a :: as) (m.before w)) =
        (.ok (some h), { Manager.tried (m.before w) a (some h) w₁ with world := w' }) := by
      intro untested
      unfold Manager.dialAll
      rcases Manager.dial_cases (d := m.before w) rfl a with ⟨e, d', hvia, -⟩ | ⟨k, v, -, hto', hd⟩
      · unfold Manager.connectVia at hvia
        rw [if_pos hr] at hvia
        cases hto.symm.trans hvia
      · cases hto.symm.trans hto'
        rw [hd]
        dsimp only
        rcases Manager.request_cases m s h (Manager.tried (m.before w) a (some h) w₁) with ⟨r', v', hsend',
          hreq⟩ | ⟨e, hsend', -⟩
        · cases hsend.symm.trans hsend'
          exact hreq
        · cases hsend.symm.trans hsend'
    unfold Manager.connectHandle
    rcases Manager.dialHandle_cases (d := m.before w) rfl s with ⟨-, hd⟩ | ⟨-, -, hd⟩ | ⟨hn, -⟩
    · rw [hd, hcand, hall]
      rfl
    · rw [hd, hcand, hall]
      rfl
    · exact absurd ha (hn q)

/-- Both find the same pool when there is a colon, or nothing at all. -/
theorem poolOf_eq_iff (c : Component) : poolOf c = getPoolFromHost c.host ↔ colon ∈ c.host ∨ c.host = [] := by
  unfold poolOf getPoolFromHost
  by_cases h : colon ∈ c.host
  · rw [if_pos h]
    exact iff_of_true rfl (Or.inl h)
  · have hall : beforeColon c.host = c.host := by
      unfold beforeColon
      rw [List.takeWhile_eq_self_iff]
      intro b hb
      have hne : b ≠ colon := fun e => h (e ▸ hb)
      simpa using hne
    rw [if_neg h, hall]
    constructor
    · exact Or.inr
    · rintro (hmem | hnil)
      · exact absurd hmem h
      · exact hnil

/-- A component of another pool has that pool in its host string, so the proxy that is asked finds it. -/
theorem asks_decides {m : Manager H V} {env : ProxyEnv W} (hcomp : env.components = m.components) {s q : Bytes}
    {c : Component} (hc : m.components (afterColon s) = some c) (ha : m.Asks s q) (hq : env.pool = q) :
    Decides env s q c := by
  obtain ⟨hprot, d, hd, -, hne, -⟩ := ha
  obtain rfl : c = d := Option.some.inj (hc.symm.trans hd)
  have hcolon : colon ∈ c.host := by
    by_contra h
    exact hne (if_neg h)
  have hbefore : beforeColon s ≠ [] := by
    unfold Manager.protocolOf at hprot
    split at hprot
    · exact hprot
    · exact absurd rfl hprot
  have hpool : poolOf c = getPoolFromHost c.host := (poolOf_eq_iff c).2 (Or.inl hcolon)
  intro ev st h h' size w hread
  have hfind : env.components (afterColon s) = some c := by rw [hcomp]; exact hc
  have hnew : st.newProcess env ev h =
      if poolOf c = [] ∨ poolOf c = env.pool then ({ st with world := w } : Proxy W).oneHop env h' (beforeColon s) c
      else ({ st with world := w } : Proxy W).otherPool env h' s (poolOf c) := by
    simp only [Proxy.newProcess, hread, lift, Except.mapError, bind, Except.bind, hfind]
  rw [hnew, hpool, hq]
  by_cases hin : getPoolFromHost c.host = [] ∨ getPoolFromHost c.host = q
  · rw [if_pos hin, if_pos hin]
    exact oneHop_serves hbefore
  · rw [if_neg hin, if_neg hin]
    exact otherPool_forwards _

/-- With the same configuration, the process that connects and the proxy that it asks agree on a component
exactly when its host string has a colon or is empty. -/
theorem routing_agrees_iff {m : Manager H V} {env : ProxyEnv W} (hcomp : env.components = m.components)
    {s : Bytes} {c : Component}
    (hc : m.components (afterColon s) = some c) : RoutingAgrees m env s c ↔ colon ∈ c.host ∨ c.host = [] := by
  constructor
  · exact fun h => (poolOf_eq_iff c).1 h.pool
  · intro h
    exact ⟨fun q w ha => asks_requests ha w, fun q => asks_decides hcomp hc, (poolOf_eq_iff c).2 h⟩

section

/-- A configuration with one component, `c`. -/
private def only (host : Bytes) : Components := fun name => if name = literal ['c'] then some ⟨host, [], []⟩ else none

/-- Handles on which `T:c` comes, and on which every message goes out. -/
private def hearing : Nat → CommunicationHandle Unit := fun _ =>
  { base := fun _ => .ok {}
    setProbed := fun _ w => w
    probe := fun _ _ w => .ok (.ok sizeofSizeT, 3, w)
    receive := fun _ w => .ok (.ok 3, literal ['T', ':', 'c'], w)
    send := fun bs w => .ok (.ok bs.length, w)
    close := fun _ _ w => .ok w
    yield := fun w => .ok w
    incrementReferenceCounter := fun w => .ok w
    decrementReferenceCounter := fun w => .ok w }

/-- A process of the pool `A`, which reaches its proxy with the handle 5. -/
private def client (host : Bytes) : Manager Nat (Unit × List (Sent Nat)) where
  poolName := literal ['A']
  components := only host
  pools _ := [literal ['a']]
  registered p := p == literal ['T']
  connectTo _ _ w := .ok (some 5, w)
  vt := record hearing

/-- The proxy of the pool `A`. -/
private def server (host : Bytes) : ProxyEnv (Unit × List (Sent Nat)) where
  pool := literal ['A']
  components := only host
  hash _ := 9
  vt := record hearing
  instanceName _ := []
  address id := id
  connect _ _ := .error .blocked

/-- It has a handle for the proxy of the pool `B`. -/
private def knowing : Proxy (Unit × List (Sent Nat)) where
  world := ((), [])
  heap := [⟨some 1, true, false⟩]
  proxies p := if p = literal ['B'] then some (some 0) else none

/-- The component is on the host `n` of the pool `B`: the process sends `T:c` to its proxy, and this sends
`CONN` on the handle of the proxy of `B`. -/
theorem routing_agrees_iff_run :
    RoutingAgrees (client (literal ['B', ':', 'n'])) (server (literal ['B', ':', 'n'])) (literal ['T', ':', 'c'])
      ⟨literal ['B', ':', 'n'], [], []⟩ ∧
    (client (literal ['B', ':', 'n'])).connectHandle (literal ['T', ':', 'c']) ((), []) =
      .ok (some 5, ((), [.message 5 (literal ['T', ':', 'c']) (.ok 3)])) ∧
    (knowing.newProcess (server (literal ['B', ':', 'n'])) ⟨2, true, ((), []), 0, fun _ => 0⟩ ⟨some 2, true, true⟩).map
        (fun x => x.2.world) =
      .ok ((), [.message 1 (1 :: [9, 0, 0, 0, 0, 0, 0, 0] ++ literal ['T', ':', 'c']) (.ok 12)]) :=
  ⟨(routing_agrees_iff rfl rfl).2 (Or.inl (by decide)), rfl, rfl⟩

/-- The component is on the host `n`, which is in no pool: the proxy takes `n` for its pool. -/
theorem routing_disagrees :
    ¬ RoutingAgrees (client (literal ['n'])) (server (literal ['n']))
    (literal ['T', ':', 'c']) ⟨literal ['n'], [], []⟩ ∧
      getPoolFromHost (literal ['n']) = [] ∧ poolOf ⟨literal ['n'], [], []⟩ = literal ['n'] := by
  refine ⟨fun h => ?_, by decide, by decide⟩
  exact absurd h.pool (by decide)

end

end Mtcl
