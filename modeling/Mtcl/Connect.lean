import Mathlib.Logic.Function.Basic
import Mtcl.Config

/-!
# Connecting

`connectHandle` finds a handle for a connection string: an endpoint of a component when it is reached directly,
and a proxy when the component is in another pool, to which it sends the string.  `connect` adds the flag that
announces a point-to-point connection, and `joinTeam` what `createTeam` does in a process that is not the root.
They are written over what a `Manager` knows, and over the connectors of arbitrary transports.

`dialHandle` is the body of `connectHandle`, with what it changes also when it does not return: the names in
`protocolsMap`, and the attempts that have been made.  `dialHandle_cases` says that its loops are one,
`dialAll`, over the candidates of the route of the string; from it `connectHandle_made` and
`connectHandle_asked` say where a handle comes from.
-/

namespace Mtcl

/-- The colon. -/
abbrev colon : UInt8 := UInt8.ofNat ':'.toNat

/-- `getPoolFromHost`. -/
def getPoolFromHost (host : Bytes) : Bytes := if colon ∈ host then beforeColon host else []

/-- What a `Manager` connects with: its pool, the configuration, the addresses of the proxies of each pool, and
for the names in `protocolsMap` the function `connect` of their connectors. -/
structure Manager (H W : Type) where
  poolName : Bytes
  components : Components
  pools : Bytes → List Bytes
  registered : Bytes → Bool
  connectTo : Bytes → Bytes → W → Except Stop (Option H × W)
  vt : H → CommunicationHandle W

/-- An attempt at a connection: what it comes from in the configuration, the protocol, and what `connect` is
called with. -/
structure Attempt where
  source : Bytes
  protocol : Bytes
  address : Bytes
  deriving DecidableEq, Repr

/-- What `connectHandle` changes: the names in `protocolsMap`, the attempts with their results, the latest last,
and the world. -/
structure Dialling (H W : Type) where
  protocolsMap : Bytes → Bool
  attempts : List (Attempt × Option H) := []
  world : W

/-- The result of a call, or why it does not return, and what it leaves. -/
abbrev Dialled (H W α : Type) := Except Stop α × Dialling H W

namespace Manager

variable {H W : Type}

/-- The protocol of a connection string; there is none without a colon. -/
def protocolOf (s : Bytes) : Bytes := if colon ∈ s then beforeColon s else []

/-- `protocolsMap[protocol]->connect`; the pointer is null under a name that is not registered. -/
def connectVia (m : Manager H W) (protocol address : Bytes) (w : W) : Except Stop (Option H × W) :=
  if m.registered protocol then m.connectTo protocol address w else .error .nullDereference

/-- An attempt; `protocolsMap[protocol]` adds the name when there is none. -/
def dial (m : Manager H W) (a : Attempt) (d : Dialling H W) : Dialled H W (Option H) :=
  let d := { d with protocolsMap := Function.update d.protocolsMap a.protocol true }
  match m.connectVia a.protocol a.address d.world with
  | .ok (h, w) => (.ok h, { d with attempts := d.attempts ++ [(a, h)], world := w })
  | .error e => (.error e, d)

/-- `handle->send` of the connection string, and then the handle. -/
def request (m : Manager H W) (s : Bytes) (h : Option H) (d : Dialling H W) : Dialled H W (Option H) :=
  match h with
  | none => (.error .nullDereference, d)
  | some k =>
    match (m.vt k).send s d.world with
    | .ok (_, w) => (.ok (some k), { d with world := w })
    | .error e => (.error e, d)

/-- The endpoints of an application that is given by its name only. -/
def dialByName (m : Manager H W) : List Bytes → Dialling H W → Dialled H W (Option H)
  | [], d => (.ok none, d)
  | le :: les, d =>
    if d.protocolsMap (beforeColon le) then
      match m.dial ⟨le, beforeColon le, afterColon le⟩ d with
      | (.ok none, d) => dialByName m les d
      | r => r
    else dialByName m les d

/-- The endpoints of a component that contain the protocol. -/
def dialDirect (m : Manager H W) (protocol : Bytes) : List Bytes → Dialling H W → Dialled H W (Option H)
  | [], d => (.ok none, d)
  | le :: les, d =>
    if contains le protocol then
      match m.dial ⟨le, protocol, afterColon le⟩ d with
      | (.ok none, d) => dialDirect m protocol les d
      | r => r
    else dialDirect m protocol les d

/-- The port of a proxy, for the protocols that need one. -/
def proxyPort (protocol : Bytes) : Bytes :=
  if protocol = literal ['U', 'C', 'X'] then literal [':', '1', '3', '0', '0', '1'] else literal
    [':', '1', '3', '0', '0', '0']

/-- The attempt at a proxy of the pool of the destination; an address with a port of its own is one of a tunnel. -/
def toDestination (protocol ip : Bytes) : Attempt :=
  if colon ∈ ip then ⟨ip, literal ['T', 'C', 'P'], ip⟩ else ⟨ip, protocol, ip ++ proxyPort protocol⟩

/-- The attempt at a proxy of the own pool. -/
def toOwn (protocol ip : Bytes) : Attempt := ⟨ip, protocol, ip ++ proxyPort protocol⟩

/-- The attempt at the proxy of a pool by its name. -/
def toNamed (protocol pool : Bytes) : Attempt :=
  ⟨pool, protocol, literal ['P', 'R', 'O', 'X', 'Y', '-'] ++ pool⟩

/-- The proxies of the pool of the destination. -/
def dialDestination (m : Manager H W) (protocol s : Bytes) : List Bytes → Dialling H W → Dialled H W (Option H)
  | [], d => (.ok none, d)
  | ip :: ips, d =>
    match m.dial (toDestination protocol ip) d with
    | (.ok none, d) => dialDestination m protocol s ips d
    | (.ok (some h), d) => m.request s (some h) d
    | (.error e, d) => (.error e, d)

/-- An attempt, and the string is sent before the handle is tested. -/
def dialUntested (m : Manager H W) (s : Bytes) (a : Attempt) (d : Dialling H W) : Dialled H W (Option H) :=
  match m.dial a d with
  | (.ok h, d) => m.request s h d
  | (.error e, d) => (.error e, d)

/-- The proxies of the own pool. -/
def dialOwn (m : Manager H W) (protocol s : Bytes) : List Bytes → Dialling H W → Dialled H W (Option H)
  | [], d => (.ok none, d)
  | ip :: ips, d =>
    match m.dialUntested s (toOwn protocol ip) d with
    | (.ok none, d) => dialOwn m protocol s ips d
    | r => r

/-- The protocol needs an address of the proxy. -/
def needsAddress (protocol : Bytes) : Bool := protocol == literal ['U', 'C', 'X'] || protocol == literal ['T', 'C', 'P']

/-- The connection to a component of another pool. -/
def dialThrough (m : Manager H W) (protocol pool s : Bytes) (d : Dialling H W) : Dialled H W (Option H) :=
  if m.poolName = [] ∧ pool ≠ [] then
    if needsAddress protocol then m.dialDestination protocol s (m.pools pool) d
    else m.dialUntested s (toNamed protocol pool) d
  else if m.poolName ≠ [] ∧ pool ≠ [] then
    if needsAddress protocol then m.dialOwn protocol s (m.pools m.poolName) d
    else m.dialUntested s (toNamed protocol m.poolName) d
  else (.ok none, d)

/-- The body of `Manager::connectHandle`. -/
def dialHandle (m : Manager H W) (s : Bytes) (d : Dialling H W) : Dialled H W (Option H) :=
  if protocolOf s = [] then
    match m.components s with
    | some c => m.dialByName c.listenStrs d
    | none => (.ok none, d)
  else
    match m.components (afterColon s) with
    | some c =>
      if getPoolFromHost c.host ≠ m.poolName then m.dialThrough (protocolOf s) (getPoolFromHost c.host) s d
      else m.dialDirect (protocolOf s) c.listenStrs d
    | none => if d.protocolsMap (protocolOf s) then m.dial ⟨s, protocolOf s, afterColon s⟩ d else (.ok none, d)

/-- What a call returns. -/
def settled (r : Dialled H W (Option H)) : Except Stop (Option H × W) :=
  match r with
  | (.ok h, d) => .ok (h, d.world)
  | (.error e, _) => .error e

/-- Before a call, in `protocolsMap` there are the protocols that are registered. -/
def before (m : Manager H W) (w : W) : Dialling H W where
  protocolsMap := m.registered
  world := w

/-- `Manager::connectHandle`. -/
def connectHandle (m : Manager H W) (s : Bytes) (w : W) : Except Stop (Option H × W) :=
  settled (m.dialHandle s (m.before w))

/-- `Manager::connect`; the flag is an `int` that is zero. -/
def connect (m : Manager H W) (s : Bytes) (w : W) : Except Stop (HandleUser H × W) := do
  let (h, w) ← m.connectHandle s w
  match h with
  | none => HandleUser.mk' m.vt none true true w
  | some h => do
    let (r, w) ← (m.vt h).send (Words.toLE sizeofInt 0) w
    match r with
    | .error _ => HandleUser.mk' m.vt none false false w
    | .ok _ => HandleUser.mk' m.vt (some h) true true w

/-- The loop of `createTeam` over the endpoints of the root. -/
def connectRoot (m : Manager H W) : List Bytes → W → Except Stop (Option H × W)
  | [], w => .ok (none, w)
  | addr :: addrs, w => do
    let (h, w) ← m.connectHandle addr w
    if h.isSome then return (h, w) else connectRoot m addrs w

/-- What `createTeam` does in a process that is not the root: it connects to the root, and announces the team. -/
def joinTeam (m : Manager H W) (rootAddrs : List Bytes) (teamID : Bytes) (w : W) : Except Stop (Option H × W) := do
  let (h, w) ← m.connectRoot rootAddrs w
  match h with
  | none => return (none, w)
  | some h => do
    let (_, w) ← (m.vt h).send (Words.toLE sizeofInt 1) w
    let (_, w) ← (m.vt h).send teamID w
    return (some h, w)

/-! ### The candidates -/

/-- The attempts at the proxies of the pool `q`. -/
def proxies (m : Manager H W) (protocol q : Bytes) : List Attempt :=
  if needsAddress protocol then (m.pools q).map (if m.poolName = [] then toDestination protocol else toOwn protocol)
  else [toNamed protocol q]

/-- The candidates of the route that a connection string takes. -/
def candidates (m : Manager H W) (s : Bytes) : List Attempt :=
  if protocolOf s = [] then
    match m.components s with
    | some c => (c.listenStrs.filter fun le => m.registered (beforeColon le)).map fun le =>
        ⟨le, beforeColon le, afterColon le⟩
    | none => []
  else
    match m.components (afterColon s) with
    | some c =>
      if getPoolFromHost c.host ≠ m.poolName then
        if getPoolFromHost c.host = [] then []
        else m.proxies (protocolOf s) (if m.poolName = [] then getPoolFromHost c.host else m.poolName)
      else (c.listenStrs.filter fun le => contains le (protocolOf s)).map fun le => ⟨le, protocolOf s, afterColon le⟩
    | none => if m.registered (protocolOf s) then [⟨s, protocolOf s, afterColon s⟩] else []

/-- The proxy of the pool `q` is asked for the connection. -/
def Asks (m : Manager H W) (s q : Bytes) : Prop :=
  protocolOf s ≠ [] ∧ ∃ c, m.components (afterColon s) = some c ∧ getPoolFromHost c.host ≠ m.poolName ∧
    getPoolFromHost c.host ≠ [] ∧ q = if m.poolName = [] then getPoolFromHost c.host else m.poolName

/-- The string is sent before the handle is tested. -/
def SendsUntested (m : Manager H W) (s : Bytes) : Prop :=
  ∃ q, m.Asks s q ∧ (m.poolName ≠ [] ∨ needsAddress (protocolOf s) = false)

/-- The attempts one after another until there is a handle, to which the string is sent that a proxy is asked
for; where this is done before the handle is tested, the first attempt that fails stops the call. -/
def dialAll (m : Manager H W) (untested : Bool) (ask : Option Bytes) : List Attempt → Dialling H W →
    Dialled H W (Option H)
  | [], d => (.ok none, d)
  | a :: as, d =>
    match m.dial a d with
    | (.ok none, d) => if untested then (.error .nullDereference, d) else dialAll m untested ask as d
    | (.ok (some h), d) =>
      match ask with
      | none => (.ok (some h), d)
      | some s => m.request s (some h) d
    | (.error e, d) => (.error e, d)

variable {m : Manager H W} {a : Attempt} {as : List Attempt} {s q : Bytes} {d d' : Dialling H W} {h : H} {w w' : W}

theorem candidates_of_asks (ha : m.Asks s q) : m.candidates s = m.proxies (protocolOf s) q := by
  obtain ⟨hp, c, hc, hpool, hne, hq⟩ := ha
  unfold candidates
  rw [if_neg hp, hc]
  dsimp only
  rw [if_pos hpool, if_neg hne, hq]

/-- The attempt `a` has been made, with the result `h`. -/
def tried (d : Dialling H W) (a : Attempt) (h : Option H) (w : W) : Dialling H W :=
  { d with attempts := d.attempts ++ [(a, h)], world := w }

/-- An attempt is what `connectVia` is, and when it returns nothing has been added to `protocolsMap`. -/
theorem dial_cases (hmap : d.protocolsMap = m.registered) (a : Attempt) :
    (∃ e d', m.connectVia a.protocol a.address d.world = .error e ∧ m.dial a d = (.error e, d') ∧
      d'.attempts = d.attempts) ∨
      ∃ h w, m.registered a.protocol = true ∧ m.connectTo a.protocol a.address d.world = .ok (h, w) ∧
        m.dial a d = (.ok h, tried d a h w) := by
  unfold dial connectVia
  dsimp only
  by_cases hr : m.registered a.protocol = true
  · have hsame : Function.update d.protocolsMap a.protocol true = d.protocolsMap := by
      apply Function.update_eq_self_iff.2
      rw [hmap, hr]
    simp only [if_pos hr, hsame]
    cases m.connectTo a.protocol a.address d.world with
    | error e => exact Or.inl ⟨e, d, rfl, rfl, rfl⟩
    | ok r => exact Or.inr ⟨r.1, r.2, hr, rfl, rfl⟩
  · simp only [if_neg hr]
    exact Or.inl ⟨_, _, rfl, rfl, rfl⟩

private theorem dialByName_eq (hmap : d.protocolsMap = m.registered) (les : List Bytes) :
    m.dialByName les d = m.dialAll false none
      ((les.filter fun le => m.registered (beforeColon le)).map fun le => ⟨le, beforeColon le, afterColon le⟩) d := by
  induction les generalizing d with
  | nil => rfl
  | cons le les ih =>
    unfold dialByName
    rw [hmap]
    by_cases hr : m.registered (beforeColon le) = true
    · rw [if_pos hr, List.filter_cons, if_pos hr, List.map_cons]
      unfold dialAll
      rcases dial_cases hmap ⟨le, beforeColon le, afterColon le⟩ with ⟨e, d', -, hd, -⟩ | ⟨h, w, -, -, hd⟩
      · rw [hd]
      · rw [hd]
        cases h with
        | none => exact ih hmap
        | some h => rfl
    · rw [if_neg hr, List.filter_cons, if_neg hr]
      exact ih hmap

private theorem dialDirect_eq (protocol : Bytes) (les : List Bytes) :
    m.dialDirect protocol les d = m.dialAll false none
      ((les.filter fun le => contains le protocol).map fun le => ⟨le, protocol, afterColon le⟩) d := by
  induction les generalizing d with
  | nil => rfl
  | cons le les ih =>
    unfold dialDirect
    by_cases hc : contains le protocol = true
    · rw [if_pos hc, List.filter_cons, if_pos hc, List.map_cons]
      unfold dialAll
      generalize m.dial ⟨le, protocol, afterColon le⟩ d = r
      obtain ⟨⟨e⟩ | ⟨h⟩, d'⟩ := r
      · rfl
      · cases h with
        | none => exact ih
        | some h => rfl
    · rw [if_neg hc, List.filter_cons, if_neg hc]
      exact ih

private theorem dialDestination_eq (protocol : Bytes) (ips : List Bytes) :
    m.dialDestination protocol s ips d = m.dialAll false (some s) (ips.map (toDestination protocol)) d := by
  induction ips generalizing d with
  | nil => rfl
  | cons ip ips ih =>
    rw [List.map_cons]
    unfold dialDestination dialAll
    generalize m.dial (toDestination protocol ip) d = r
    obtain ⟨⟨e⟩ | ⟨h⟩, d'⟩ := r
    · rfl
    · cases h with
      | none => exact ih
      | some h => rfl

private theorem dialUntested_eq (a : Attempt) : m.dialUntested s a d = m.dialAll true (some s) [a] d := by
  unfold dialUntested dialAll
  generalize m.dial a d = r
  obtain ⟨⟨e⟩ | ⟨h⟩, d'⟩ := r
  · rfl
  · cases h <;> rfl

/-- Nothing is left of the pool after a null handle, so that only the first proxy counts. -/
private theorem dialOwn_eq (protocol : Bytes) (ips : List Bytes) :
    m.dialOwn protocol s ips d = m.dialAll true (some s) (ips.map (toOwn protocol)) d := by
  cases ips with
  | nil => rfl
  | cons ip ips =>
    rw [List.map_cons]
    unfold dialOwn dialUntested dialAll
    generalize m.dial (toOwn protocol ip) d = r
    obtain ⟨⟨e⟩ | ⟨h⟩, d'⟩ := r
    · rfl
    · cases h with
      | none => rfl
      | some h =>
        dsimp only [request]
        cases (m.vt h).send s d'.world <;> rfl

/-- The candidates are tried in order, with the string sent after or before the handle is tested, or no string
at all. -/
theorem dialHandle_cases (hmap : d.protocolsMap = m.registered) (s : Bytes) :
    (m.SendsUntested s ∧ m.dialHandle s d = m.dialAll true (some s) (m.candidates s) d) ∨
      ((∃ q, m.Asks s q) ∧ ¬ m.SendsUntested s ∧ m.dialHandle s d = m.dialAll false (some s) (m.candidates s) d) ∨
      (∀ q, ¬ m.Asks s q) ∧ m.dialHandle s d = m.dialAll false none (m.candidates s) d := by
  by_cases hp : protocolOf s = []
  · refine Or.inr (Or.inr ⟨fun q hq => hq.1 hp, ?_⟩)
    unfold dialHandle candidates
    rw [if_pos hp, if_pos hp]
    cases m.components s with
    | none => rfl
    | some c => exact dialByName_eq hmap c.listenStrs
  · cases hc : m.components (afterColon s) with
    | none =>
      refine Or.inr (Or.inr ⟨?_, ?_⟩)
      · rintro q ⟨-, c, hc', -⟩
        rw [hc] at hc'
        cases hc'
      · unfold dialHandle candidates
        rw [if_neg hp, if_neg hp, hc, hmap]
        dsimp only
        by_cases hr : m.registered (protocolOf s) = true
        · rw [if_pos hr, if_pos hr]
          unfold dialAll
          generalize m.dial ⟨s, protocolOf s, afterColon s⟩ d = r
          obtain ⟨⟨e⟩ | ⟨h⟩, d'⟩ := r
          · rfl
          · cases h <;> rfl
        · rw [if_neg hr, if_neg hr]
          rfl
    | some c =>
      by_cases hpool : getPoolFromHost c.host = m.poolName
      · refine Or.inr (Or.inr ⟨?_, ?_⟩)
        · rintro q ⟨-, c', hc', hne, -⟩
          rw [hc] at hc'
          cases hc'
          exact hne hpool
        · unfold dialHandle candidates
          rw [if_neg hp, if_neg hp, hc]
          dsimp only
          rw [if_neg (not_not_intro hpool), if_neg (not_not_intro hpool)]
          exact dialDirect_eq _ c.listenStrs
      · have hdial : m.dialHandle s d = m.dialThrough (protocolOf s) (getPoolFromHost c.host) s d := by
          unfold dialHandle
          rw [if_neg hp, hc]
          exact if_pos hpool
        rw [hdial]
        unfold dialThrough
        by_cases hne : getPoolFromHost c.host = []
        · refine Or.inr (Or.inr ⟨?_, ?_⟩)
          · rintro q ⟨-, c', hc', -, hne', -⟩
            rw [hc] at hc'
            cases hc'
            exact hne' hne
          · unfold candidates
            rw [if_neg (fun h => h.2 hne), if_neg (fun h => h.2 hne), if_neg hp, hc]
            dsimp only
            rw [if_pos hpool, if_pos hne]
            rfl
        · have hasks : m.Asks s (if m.poolName = [] then getPoolFromHost c.host else m.poolName) :=
            ⟨hp, c, hc, hpool, hne, rfl⟩
          rw [candidates_of_asks hasks]
          unfold proxies
          by_cases hown : m.poolName = []
          · rw [if_pos ⟨hown, hne⟩, if_pos hown, if_pos hown]
            cases haddr : needsAddress (protocolOf s) with
            | true =>
              refine Or.inr (Or.inl ⟨⟨_, hasks⟩, ?_, dialDestination_eq _ _⟩)
              rintro ⟨q, -, hown' | haddr'⟩
              · exact hown' hown
              · rw [haddr] at haddr'
                cases haddr'
            | false => exact Or.inl ⟨⟨_, hasks, Or.inr haddr⟩, dialUntested_eq _⟩
          · rw [if_neg (fun h => hown h.1), if_pos ⟨hown, hne⟩, if_neg hown, if_neg hown]
            cases haddr : needsAddress (protocolOf s) with
            | true => exact Or.inl ⟨⟨_, hasks, Or.inl hown⟩, dialOwn_eq _ _⟩
            | false => exact Or.inl ⟨⟨_, hasks, Or.inl hown⟩, dialUntested_eq _⟩

/-! ### Where a handle comes from -/

/-- The string is sent on the handle. -/
theorem request_cases (m : Manager H W) (s : Bytes) (h : H) (d : Dialling H W) :
    (∃ r w, (m.vt h).send s d.world = .ok (r, w) ∧ m.request s (some h) d = (.ok (some h), { d with world := w })) ∨
      ∃ e, (m.vt h).send s d.world = .error e ∧ m.request s (some h) d = (.error e, d) := by
  unfold request
  dsimp only
  cases (m.vt h).send s d.world with
  | error e => exact Or.inr ⟨e, rfl, rfl⟩
  | ok x => exact Or.inl ⟨x.1, x.2, rfl, rfl⟩

/-- Between the two states the string has been sent, if there is one. -/
private def Asked (m : Manager H W) (h : H) (w w' : W) : Option Bytes → Prop
  | none => w' = w
  | some s => ∃ r, (m.vt h).send s w = .ok (r, w')

/-- A handle that the loop returns is one that a candidate has been connected with, and the string has been sent
on it. -/
private theorem dialAll_found {untested : Bool} {ask : Option Bytes} (hmap : d.protocolsMap = m.registered)
    (he : m.dialAll untested ask as d = (.ok (some h), d')) :
    ∃ a ∈ as, ∃ w₀ w₁, m.connectTo a.protocol a.address w₀ = .ok (some h, w₁) ∧ m.Asked h w₁ d'.world ask := by
  induction as generalizing d with
  | nil => cases he
  | cons a as ih =>
    unfold dialAll at he
    rcases dial_cases hmap a with ⟨e, d₁, -, hd, -⟩ | ⟨k, w, -, hto, hd⟩
    · rw [hd] at he
      cases he
    · rw [hd] at he
      cases k with
      | none =>
        dsimp only at he
        by_cases hu : untested = true
        · rw [if_pos hu] at he
          cases he
        · rw [if_neg hu] at he
          obtain ⟨b, hb, hrest⟩ := ih (d := tried d a none w) hmap he
          exact ⟨b, List.mem_cons_of_mem _ hb, hrest⟩
      | some k =>
        cases ask with
        | none =>
          cases he
          exact ⟨a, List.mem_cons_self .., d.world, w, hto, rfl⟩
        | some s =>
          rcases request_cases m s k (tried d a (some k) w) with ⟨r, w', hsend, hreq⟩ | ⟨e, -, hreq⟩
          · cases hreq.symm.trans he
            exact ⟨a, List.mem_cons_self .., d.world, w, hto, r, hsend⟩
          · cases hreq.symm.trans he

private theorem dialAll_attempts {untested : Bool} {ask : Option Bytes} (hmap : d.protocolsMap = m.registered) :
    ∀ x ∈ (m.dialAll untested ask as d).2.attempts, x ∈ d.attempts ∨ x.1 ∈ as := by
  induction as generalizing d with
  | nil => exact fun x hx => Or.inl hx
  | cons a as ih =>
    have hnow : ∀ (h : Option H) (w : W), ∀ x ∈ (tried d a h w).attempts, x ∈ d.attempts ∨ x.1 ∈ a :: as := by
      intro h w x hx
      rcases List.mem_append.1 hx with hx | hx
      · exact Or.inl hx
      · rw [List.mem_singleton.1 hx]
        exact Or.inr (List.mem_cons_self ..)
    unfold dialAll
    rcases dial_cases hmap a with ⟨e, d', -, hd, hsame⟩ | ⟨h, w, -, -, hd⟩
    · rw [hd]
      intro x hx
      rw [← hsame]
      exact Or.inl hx
    · rw [hd]
      cases h with
      | none =>
        dsimp only
        by_cases hu : untested = true
        · rw [if_pos hu]
          exact hnow none w
        · rw [if_neg hu]
          intro x hx
          rcases ih (d := tried d a none w) hmap x hx with hx | hx
          · exact hnow none w x hx
          · exact Or.inr (List.mem_cons_of_mem _ hx)
      | some h =>
        cases ask with
        | none => exact hnow (some h) w
        | some s =>
          dsimp only
          rcases request_cases m s h (tried d a (some h) w) with ⟨r, w', -, hreq⟩ | ⟨e, -, hreq⟩
          · rw [hreq]
            exact hnow (some h) w
          · rw [hreq]
            exact hnow (some h) w

/-- A call makes attempts at the candidates of its route only. -/
theorem dialHandle_attempts (s : Bytes) (w : W) :
    ∀ x ∈ (m.dialHandle s (m.before w)).2.attempts, x.1 ∈ m.candidates s := by
  intro x hx
  have hnone : x ∉ (m.before w).attempts := List.not_mem_nil
  rcases dialHandle_cases (d := m.before w) rfl s with ⟨-, hd⟩ | ⟨-, -, hd⟩ | ⟨-, hd⟩
  all_goals
    rw [hd] at hx
    exact (dialAll_attempts rfl x hx).resolve_left hnone

private theorem connectHandle_eq_ok (he : m.connectHandle s w = .ok (some h, w')) :
    ∃ d', m.dialHandle s (m.before w) = (.ok (some h), d') ∧ d'.world = w' := by
  unfold connectHandle settled at he
  generalize m.dialHandle s (m.before w) = r at he
  obtain ⟨⟨e⟩ | ⟨k⟩, d'⟩ := r
  · cases he
  · cases he
    exact ⟨d', rfl, rfl⟩

/-- When the proxy of a pool is asked, the handle is a connection to it, and the string has been sent on it. -/
theorem connectHandle_asked (ha : m.Asks s q) (he : m.connectHandle s w = .ok (some h, w')) :
    ∃ a ∈ m.proxies (protocolOf s) q, ∃ w₀ w₁ r, m.connectTo a.protocol a.address w₀ = .ok (some h, w₁) ∧
      (m.vt h).send s w₁ = .ok (r, w') := by
  obtain ⟨d', hd, rfl⟩ := connectHandle_eq_ok he
  rw [← candidates_of_asks ha]
  rcases dialHandle_cases (d := m.before w) rfl s with ⟨-, he⟩ | ⟨-, -, he⟩ | ⟨hn, -⟩
  · rw [he] at hd
    obtain ⟨a, hmem, w₀, w₁, hto, r, hsend⟩ := dialAll_found rfl hd
    exact ⟨a, hmem, w₀, w₁, r, hto, hsend⟩
  · rw [he] at hd
    obtain ⟨a, hmem, w₀, w₁, hto, r, hsend⟩ := dialAll_found rfl hd
    exact ⟨a, hmem, w₀, w₁, r, hto, hsend⟩
  · exact absurd ha (hn q)

variable {P : H → W → Prop}
  (hmade : ∀ {protocol address w h w'}, m.connectTo protocol address w = .ok (some h, w') → P h w')

include hmade

/-- The handle of a direct connection is as the connector has made it. -/
theorem connectHandle_made (hd : ∀ q, ¬ m.Asks s q) (he : m.connectHandle s w = .ok (some h, w')) : P h w' := by
  obtain ⟨d', hr, rfl⟩ := connectHandle_eq_ok he
  rcases dialHandle_cases (d := m.before w) rfl s with ⟨⟨q, ha, -⟩, -⟩ | ⟨⟨q, ha⟩, -⟩ | ⟨-, hdial⟩
  · exact absurd ha (hd q)
  · exact absurd ha (hd q)
  · rw [hdial] at hr
    obtain ⟨a, -, w₀, w₁, hto, hw⟩ := dialAll_found rfl hr
    have hw : d'.world = w₁ := hw
    rw [hw]
    exact hmade hto

/-- So is that of a direct connection to the root of a team. -/
theorem connectRoot_made {addrs : List Bytes} (hd : ∀ addr ∈ addrs, ∀ q, ¬ m.Asks addr q)
    (he : m.connectRoot addrs w = .ok (some h, w')) : P h w' := by
  induction addrs generalizing w with
  | nil => cases he
  | cons addr addrs ih =>
    unfold connectRoot at he
    obtain ⟨⟨h1, w1⟩, hto, he⟩ := bind_eq_ok.1 he
    cases h1 with
    | none => exact ih (fun a ha => hd a (List.mem_cons_of_mem _ ha)) he
    | some h1 =>
      cases he
      exact connectHandle_made hmade (hd addr (List.mem_cons_self ..)) hto

end Manager

end Mtcl
