import Mathlib.Data.List.TakeWhile
import Mtcl.Connect
import Mtcl.Proxy.Main

/-!
# The endpoints of a protocol

Given `P:label`, `connectHandle` (within its pool) and the proxy (for one hop, and for the `CONN` of another
proxy) look for the endpoints of the component with `le.find(P) != npos`.  The three loops are one, `offer`,
which gives also the endpoints that it hands over to be connected to.

`requested_iff` says when all of them are endpoints of `P`: when no other, up to the first endpoint of `P` that
is connected to, has `P` somewhere in the name of its protocol or in its address.
-/

namespace Mtcl

variable {α H W V : Type}

/-- The loop over the endpoints of a component that contain the protocol: those that are handed to `conn`, and
the result. -/
def offer (conn : Bytes → W → Except Stop (Option α × W)) (protocol : Bytes) :
    List Bytes → W → List Bytes × Except Stop (Option α × W)
  | [], w => ([], .ok (none, w))
  | le :: les, w =>
    if contains le protocol then
      match conn le w with
      | .ok (none, w) => (le :: (offer conn protocol les w).1, (offer conn protocol les w).2)
      | r => ([le], r)
    else offer conn protocol les w

/-- `protocolsMap[protocol]->connect` for an endpoint. -/
def Manager.toEndpoint (m : Manager H W) (protocol le : Bytes) (w : W) : Except Stop (Option H × W) :=
  m.connectVia protocol (afterColon le) w

/-- `Manager::connect` for an endpoint, and `isValid`. -/
def ProxyEnv.toEndpoint (env : ProxyEnv V) (le : Bytes) (v : V) : Except Stop (Option (HandleUser Nat) × V) := do
  let (u, v) ← env.connect le v
  return (if u.realHandle.isSome then some u else none, v)

/-- A search for an endpoint of a protocol. -/
structure Search (α W : Type) where
  conn : Bytes → W → Except Stop (Option α × W)
  protocol : Bytes
  endpoints : List Bytes
  world : W

/-- The endpoints that are handed over. -/
def Search.offered (x : Search α W) : List Bytes := (offer x.conn x.protocol x.endpoints x.world).1

/-- What is found. -/
def Search.result (x : Search α W) : Except Stop (Option α × W) := (offer x.conn x.protocol x.endpoints x.world).2

/-- The search of `connectHandle` for a component of the own pool. -/
def Manager.search (m : Manager H W) (s : Bytes) (c : Component) (w : W) : Search H W :=
  ⟨m.toEndpoint (Manager.protocolOf s), Manager.protocolOf s, c.listenStrs, w⟩

/-- The search of the proxy. -/
def ProxyEnv.search (env : ProxyEnv V) (connectString : Bytes) (c : Component) (v : V) : Search (HandleUser Nat) V :=
  ⟨env.toEndpoint, beforeColon connectString, c.listenStrs, v⟩

/-- The string is for a component `c` of the own pool. -/
def Manager.Direct (m : Manager H W) (s : Bytes) (c : Component) : Prop :=
  Manager.protocolOf s ≠ [] ∧ m.components (afterColon s) = some c ∧ getPoolFromHost c.host = m.poolName

/-- The endpoint is of another protocol, and has the text of this one in the name of its protocol or in its address. -/
def Mistakable (protocol le : Bytes) : Prop :=
  beforeColon le ≠ protocol ∧ (protocol <:+: beforeColon le ∨ protocol <:+: afterColon le)

instance (protocol le : Bytes) : Decidable (Mistakable protocol le) :=
  inferInstanceAs (Decidable (beforeColon le ≠ protocol ∧ (protocol <:+: beforeColon le ∨ protocol <:+: afterColon le)))

/-- No endpoint can be mistaken for one of the protocol, up to the first endpoint of the protocol that is
connected to. -/
def NoneMistaken (conn : Bytes → W → Except Stop (Option α × W)) (protocol : Bytes) : List Bytes → W → Prop
  | [], _ => True
  | le :: les, w => ¬ Mistakable protocol le ∧
      if beforeColon le = protocol then ∀ w', conn le w = .ok (none, w') → NoneMistaken conn protocol les w'
      else NoneMistaken conn protocol les w

/-- All endpoints that are handed over are of the protocol. -/
def Search.Requested (x : Search α W) : Prop := ∀ le ∈ x.offered, beforeColon le = x.protocol

/-- No endpoint is mistaken for one of the protocol. -/
def Search.Unmistaken (x : Search α W) : Prop := NoneMistaken x.conn x.protocol x.endpoints x.world

/-! ### The loops of the program -/

variable {protocol le : Bytes} {les : List Bytes}

private theorem settled_direct (m : Manager H W) (protocol : Bytes) (les : List Bytes) (d : Dialling H W) :
    Manager.settled (m.dialDirect protocol les d) = (offer (m.toEndpoint protocol) protocol les d.world).2 := by
  induction les generalizing d with
  | nil => rfl
  | cons le les ih =>
    unfold Manager.dialDirect offer
    by_cases hc : contains le protocol = true
    · rw [if_pos hc, if_pos hc]
      unfold Manager.toEndpoint Manager.dial
      dsimp only
      obtain ⟨e⟩ | ⟨h, w'⟩ := m.connectVia protocol (afterColon le) d.world
      · rfl
      · cases h with
        | none => exact ih _
        | some h => rfl
    · rw [if_neg hc, if_neg hc]
      exact ih d

private theorem connectHandle_eq {m : Manager H W} {s : Bytes} {c : Component} (h : m.Direct s c) (w : W) :
    m.connectHandle s w = (offer (m.toEndpoint (Manager.protocolOf s)) (Manager.protocolOf s) c.listenStrs w).2 := by
  obtain ⟨hp, hc, hpool⟩ := h
  unfold Manager.connectHandle Manager.dialHandle
  rw [if_neg hp, hc]
  dsimp only
  rw [if_neg (not_not_intro hpool)]
  exact settled_direct m _ _ _

private theorem connectFirst_eq (env : ProxyEnv V) (protocol : Bytes) (les : List Bytes) (v : V) :
    env.connectFirst protocol les v = (offer env.toEndpoint protocol les v).2 := by
  induction les generalizing v with
  | nil => rfl
  | cons le les ih =>
    unfold ProxyEnv.connectFirst offer
    by_cases hc : contains le protocol = true
    · rw [if_pos hc, if_pos hc]
      cases hconn : env.connect le v with
      | error e =>
        have hto : env.toEndpoint le v = .error e := by
          unfold ProxyEnv.toEndpoint
          rw [hconn]
          rfl
        rw [hto]
        rfl
      | ok r =>
        obtain ⟨u, v'⟩ := r
        have hto : env.toEndpoint le v = .ok (if u.realHandle.isSome then some u else none, v') := by
          unfold ProxyEnv.toEndpoint
          rw [hconn]
          rfl
        rw [hto]
        show (if u.realHandle.isSome then Except.ok (some u, v') else env.connectFirst protocol les v') = _
        by_cases hu : u.realHandle.isSome = true
        · rw [if_pos hu, if_pos hu]
        · rw [if_neg hu, if_neg hu]
          exact ih v'
    · rw [if_neg hc, if_neg hc]
      exact ih v

/-- The search for the `CONN` of another proxy. -/
theorem Proxy.frameCONN_search {env : ProxyEnv V} {payload : Bytes} {c : Component} (s : Proxy V) (via : Option Nat)
    (identifier : Nat) (hc : env.components (afterColon payload) = some c) :
    s.frameCONN env via identifier payload = (do
      let (found, w) ← lift (env.search payload c s.world).result
      match found with
      | none => return { s with world := w }
      | some u => (({ s with world := w } : Proxy V).associate env u identifier via).keepHandle env u) := by
  unfold Proxy.frameCONN
  rw [hc]
  dsimp only
  rw [connectFirst_eq]
  rfl

/-- The search for one hop. -/
theorem Proxy.oneHop_search {env : ProxyEnv V} {connectString : Bytes} (s : Proxy V) (h : HandleUser Nat)
    (c : Component) (hp : beforeColon connectString ≠ []) : s.oneHop env h (beforeColon connectString) c = (do
      let (found, w) ← lift (env.search connectString c s.world).result
      match found with
      | none => do
        let w ← lift (h.close env.vt w)
        return (h, { s with world := w })
      | some u => do
        let p1 := Function.update s.proc2proc (env.getID h) (some ((s.proc2proc (env.getID h)).getD (env.getID u)))
        let p2 := Function.update p1 (env.getID u) (some ((p1 (env.getID u)).getD (env.getID h)))
        let s ← ({ s with world := w, proc2proc := p2 } : Proxy V).keepHandle env u
        let s ← s.keepHandle env h
        return ({}, s)) := by
  unfold Proxy.oneHop
  rw [if_neg hp, connectFirst_eq]
  rfl

/-! ### What an endpoint contains -/

/-- Text without a colon lies on one side of it. -/
private theorem infix_colon {p a b : Bytes} (hp : colon ∉ p) : p <:+: a ++ colon :: b ↔ p <:+: a ∨ p <:+: b := by
  constructor
  · intro h
    rcases List.infix_append_iff.1 h with ha | hb | ⟨p₁, p₂, rfl, h₁, h₂⟩
    · exact Or.inl ha
    · rcases List.infix_cons_iff.1 hb with hpre | hb
      · cases p with
        | nil => exact Or.inl List.nil_infix
        | cons x p =>
          have hx : x = colon := (List.cons_prefix_cons.1 hpre).1
          exact absurd (by rw [hx]; exact List.mem_cons_self ..) hp
      · exact Or.inr hb
    · cases p₂ with
      | nil =>
        rw [List.append_nil]
        exact Or.inl h₁.isInfix
      | cons x p₂ =>
        have hx : x = colon := (List.cons_prefix_cons.1 h₂).1
        exact absurd (by rw [hx]; simp) hp
  · intro h
    rcases h with ha | hb
    · exact ha.trans List.infix_append_left
    · exact hb.trans ((List.infix_cons List.infix_rfl).trans List.infix_append_right)

private theorem colon_notMem_beforeColon (s : Bytes) : colon ∉ beforeColon s := by
  intro h
  have hne := List.mem_takeWhile_imp h
  simp at hne

private theorem split_colon (h : colon ∈ le) : le = beforeColon le ++ colon :: afterColon le := by
  induction le with
  | nil => cases h
  | cons x xs ih =>
    unfold beforeColon afterColon
    rw [if_pos h, List.takeWhile_cons]
    by_cases hx : x = colon
    · rw [hx]
      simp
    · have hxs : colon ∈ xs := (List.mem_cons.1 h).resolve_left (Ne.symm hx)
      have hrest := ih hxs
      unfold beforeColon afterColon at hrest
      rw [if_pos hxs] at hrest
      rw [if_pos (by simpa using hx), List.idxOf_cons_ne _ hx, List.drop_succ_cons, List.cons_append, ← hrest]

private theorem contains_iff (hp : colon ∉ protocol) :
    contains le protocol = true ↔ protocol <:+: beforeColon le ∨ protocol <:+: afterColon le := by
  unfold contains
  rw [decide_eq_true_iff]
  by_cases hc : colon ∈ le
  · conv_lhs => rw [split_colon hc]
    exact infix_colon hp
  · have hb : beforeColon le = le := by
      apply List.takeWhile_eq_self_iff.2
      intro x hx
      rw [bne_iff_ne]
      intro he
      rw [he] at hx
      exact hc hx
    have ha : afterColon le = le := if_neg hc
    rw [hb, ha, or_self]

/-- An endpoint of the protocol contains it, and any other that does can be mistaken for one. -/
private theorem contains_of_eq (h : beforeColon le = protocol) : contains le protocol = true := by
  have hp : colon ∉ protocol := by
    rw [← h]
    exact colon_notMem_beforeColon le
  rw [contains_iff hp, h]
  exact Or.inl List.infix_rfl

private theorem mistakable_iff (hp : colon ∉ protocol) :
    Mistakable protocol le ↔ contains le protocol = true ∧ beforeColon le ≠ protocol := by
  rw [contains_iff hp]
  exact and_comm

/-! ### The endpoints that are handed over -/

/-- Only endpoints of the protocol are handed over exactly when none is mistaken for one. -/
theorem offer_requested_iff {conn : Bytes → W → Except Stop (Option α × W)} (hp : colon ∉ protocol) {w : W} :
    (∀ le ∈ (offer conn protocol les w).1, beforeColon le = protocol) ↔ NoneMistaken conn protocol les w := by
  induction les generalizing w with
  | nil => exact ⟨fun _ => trivial, fun _ le hle => by cases hle⟩
  | cons le les ih =>
    unfold offer NoneMistaken
    rw [mistakable_iff hp]
    by_cases hc : contains le protocol = true
    · rw [if_pos hc]
      by_cases hle : beforeColon le = protocol
      · have hnot : ¬ (contains le protocol = true ∧ beforeColon le ≠ protocol) := fun h => h.2 hle
        rw [if_pos hle, and_iff_right hnot]
        obtain ⟨e⟩ | ⟨h, w'⟩ := conn le w
        · refine ⟨fun _ w'' he => (by cases he), fun _ x hx => ?_⟩
          rw [List.mem_singleton.1 hx, hle]
        · cases h with
          | none =>
            have hall : (∀ x ∈ le :: (offer conn protocol les w').1, beforeColon x = protocol) ↔
                ∀ x ∈ (offer conn protocol les w').1, beforeColon x = protocol := by
              rw [List.forall_mem_cons, and_iff_right hle]
            rw [hall, ih]
            refine ⟨fun h w'' he => ?_, fun h => h w' rfl⟩
            cases he
            exact h
          | some h =>
            refine ⟨fun _ w'' he => (by cases he), fun _ x hx => ?_⟩
            rw [List.mem_singleton.1 hx, hle]
      · refine iff_of_false (fun h => hle (h le ?_)) fun h => h.1 ⟨hc, hle⟩
        obtain ⟨e⟩ | ⟨h, w'⟩ := conn le w
        · exact List.mem_singleton_self le
        · cases h with
          | none => exact List.mem_cons_self ..
          | some h => exact List.mem_singleton_self le
    · have hle : beforeColon le ≠ protocol := fun h => hc (contains_of_eq h)
      have hnot : ¬ (contains le protocol = true ∧ beforeColon le ≠ protocol) := fun h => hc h.1
      rw [if_neg hc, if_neg hle, and_iff_right hnot]
      exact ih

private theorem colon_notMem_protocolOf (s : Bytes) : colon ∉ Manager.protocolOf s := by
  unfold Manager.protocolOf
  by_cases hc : colon ∈ s
  · rw [if_pos hc]
    exact colon_notMem_beforeColon s
  · rw [if_neg hc]
    exact List.not_mem_nil

/-- Within its pool, `connectHandle` searches the endpoints of the component, and all of those that it hands to
the connector are of the protocol exactly when none is mistaken for one; so it is with the loop of the proxy and
`Manager::connect`. -/
theorem requested_iff (m : Manager H W) (env : ProxyEnv V) {s : Bytes} {c : Component} (hs : m.Direct s c) (w : W)
    (connectString : Bytes) (c' : Component) (v : V) :
    (m.connectHandle s w = (m.search s c w).result ∧
      ((m.search s c w).Requested ↔ (m.search s c w).Unmistaken)) ∧
    (env.connectFirst (beforeColon connectString) c'.listenStrs v = (env.search connectString c' v).result ∧
      ((env.search connectString c' v).Requested ↔ (env.search connectString c' v).Unmistaken)) :=
  ⟨⟨connectHandle_eq hs w, offer_requested_iff (colon_notMem_protocolOf s)⟩,
    connectFirst_eq env _ _ v, offer_requested_iff (colon_notMem_beforeColon connectString)⟩

/-- A process without a pool, for which `B` has the endpoints `les`; all connections succeed, and the world is
the protocols and addresses of the calls. -/
private def within (les : List Bytes) : Manager Unit (List (Bytes × Bytes)) where
  poolName := []
  components := fun name => if name = literal ['B'] then some ⟨[], [], les⟩ else none
  pools := fun _ => []
  registered := fun _ => true
  connectTo := fun protocol address w => .ok (some (), w ++ [(protocol, address)])
  vt := fun _ =>
    { base := fun _ => .ok {}
      setProbed := fun _ w => w
      probe := fun size _ w => .ok (.ok 0, size, w)
      receive := fun _ w => .ok (.ok 0, [], w)
      send := fun bs w => .ok (.ok bs.length, w)
      close := fun _ _ w => .ok w
      yield := fun w => .ok w
      incrementReferenceCounter := fun w => .ok w
      decrementReferenceCounter := fun w => .ok w }

/-- A proxy with the same component. -/
private def proxyFor (les : List Bytes) : ProxyEnv (List (Bytes × Bytes)) where
  pool := []
  components := (within les).components
  hash := List.length
  vt := fun _ => (within les).vt ()
  instanceName := fun _ => []
  address := fun i => i + 1
  connect := fun le w => .ok ({ realHandle := some 0 }, w ++ [(beforeColon le, afterColon le)])

/-- `UCX:h:1` and `TCP:h:2`. -/
private def apart : List Bytes :=
  [literal ['U', 'C', 'X', ':', 'h', ':', '1'], literal ['T', 'C', 'P', ':', 'h', ':', '2']]

/-- `MPIP2P:h`, `UCX:TCP:1` and `MPI:0`. -/
private def alike : List Bytes :=
  [literal ['M', 'P', 'I', 'P', '2', 'P', ':', 'h'], literal ['U', 'C', 'X', ':', 'T', 'C', 'P', ':', '1'],
    literal ['M', 'P', 'I', ':', '0']]

private theorem apart_noneMistaken (conn : Bytes → W → Except Stop (Option α × W)) (w : W) :
    NoneMistaken conn (literal ['T', 'C', 'P']) apart w := by
  refine ⟨by decide, ?_⟩
  rw [if_neg (by decide)]
  refine ⟨by decide, ?_⟩
  rw [if_pos (by decide)]
  exact fun _ _ => trivial

/-- `TCP:B` is connected to `TCP:h:2`. -/
theorem requested_run :
    ((within apart).search (literal ['T', 'C', 'P', ':', 'B']) ⟨[], [], apart⟩ []).Requested ∧
      ((proxyFor apart).search (literal ['T', 'C', 'P', ':', 'B']) ⟨[], [], apart⟩ []).Requested ∧
      ((within apart).search (literal ['T', 'C', 'P', ':', 'B']) ⟨[], [], apart⟩ []).offered =
        [literal ['T', 'C', 'P', ':', 'h', ':', '2']] := by
  have hs : (within apart).Direct (literal ['T', 'C', 'P', ':', 'B']) ⟨[], [], apart⟩ := ⟨by decide, rfl, rfl⟩
  obtain ⟨⟨-, hdirect⟩, -, hproxy⟩ :=
    requested_iff (within apart) (proxyFor apart) hs [] (literal ['T', 'C', 'P', ':', 'B']) ⟨[], [], apart⟩ []
  refine ⟨hdirect.2 ?_, hproxy.2 ?_, by decide⟩
  · exact apart_noneMistaken _ []
  · exact apart_noneMistaken _ []

/-- Given `MPI:B`, `connectHandle` hands the address of an `MPIP2P` endpoint to `MPI`; and given `TCP:B`, the
proxy connects to a `UCX` endpoint whose address contains `TCP`. -/
theorem requested_mistaken :
    (within alike).connectHandle (literal ['M', 'P', 'I', ':', 'B']) [] =
        .ok (some (), [(literal ['M', 'P', 'I'], literal ['h'])]) ∧
      ¬ ((within alike).search (literal ['M', 'P', 'I', ':', 'B']) ⟨[], [], alike⟩ []).Requested ∧
      (proxyFor alike).connectFirst (literal ['T', 'C', 'P']) alike [] =
        .ok (some { realHandle := some 0 }, [(literal ['U', 'C', 'X'], literal ['T', 'C', 'P', ':', '1'])]) ∧
      ¬ ((proxyFor alike).search (literal ['T', 'C', 'P', ':', 'B']) ⟨[], [], alike⟩ []).Requested := by
  refine ⟨rfl, fun h => ?_, rfl, fun h => ?_⟩
  · exact absurd (h (literal ['M', 'P', 'I', 'P', '2', 'P', ':', 'h']) (by decide)) (by decide)
  · exact absurd (h (literal ['U', 'C', 'X', ':', 'T', 'C', 'P', ':', '1']) (by decide)) (by decide)

end Mtcl
