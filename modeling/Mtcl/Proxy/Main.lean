import Mathlib.Order.Nat
import Mtcl.Base.Safe
import Mtcl.Config
import Mtcl.Handshake
import Mtcl.Proxy.Bimap

/-!
# The main loop of the proxy

A proxy connects the processes of its pool with those of the other pools.  A `Proxy` holds its tables, over an
arbitrary world of handles (`ProxyEnv.vt`): an `iteration` of the main loop takes the handle that `getNext`
returns, in the world as it is then, and goes through the branch of the loop that is for it.  The proxy refers
to other proxies by pointers to `HandleUser` objects on the heap, which are never deleted; a use of such a
pointer that is null stops the proxy with `nullProxy`.

What a failing `probe` leaves of an uninitialised size, and what is in a buffer behind the bytes received, is
arbitrary and comes with the event.  Handles are named by numbers, and their IDs are the addresses of the names.
-/

namespace Mtcl

/-- `cmd_t`. -/
inductive Cmd
  | FWD | CONN | PRX | ERR_CONN | EOS
  deriving DecidableEq, Repr

/-- The value of a command. -/
def Cmd.toByte : Cmd → UInt8
  | .FWD => 0
  | .CONN => 1
  | .PRX => 2
  | .ERR_CONN => 3
  | .EOS => 4

/-- The size of the header of a frame: a command and an identifier. -/
abbrev proxyHeader : Nat := 9

/-- A frame of the protocol between proxies; a byte that is no command stays what it is. -/
structure ProxyFrame where
  cmd : UInt8
  identifier : Nat
  payload : Bytes
  deriving DecidableEq, Repr

/-- The bytes of a frame. -/
def ProxyFrame.toBytes (f : ProxyFrame) : Bytes := f.cmd :: Words.toLE sizeofSizeT f.identifier ++ f.payload

/-- The frame in a message; a message without a whole header is read past its end. -/
def ProxyFrame.ofBytes (buff : Bytes) : Option ProxyFrame :=
  if buff.length < proxyHeader then none
  else some ⟨buff.headD 0, Words.ofLE ((buff.drop 1).take sizeofSizeT), buff.drop proxyHeader⟩

/-- Why the proxy stops. -/
inductive ProxyStop
  | nullProxy
  | stop (e : Stop)
  deriving DecidableEq, Repr

/-- What the proxy runs with: its pool, the configuration, `std::hash`, the handles with the names and the
addresses of their protocol instances, and `Manager::connect`. -/
structure ProxyEnv (W : Type) where
  pool : Bytes
  components : Components
  hash : Bytes → Nat
  vt : Nat → CommunicationHandle W
  instanceName : Nat → Bytes
  address : Nat → Nat
  connect : Bytes → W → Except Stop (HandleUser Nat × W)

/-- The proxy.  `heap` are the `HandleUser` objects that pointers refer to, a null pointer being `none`.
`route` is not in the program: the handle of the proxy through which the connection with an ID has been made. -/
structure Proxy (W : Type) where
  world : W
  heap : List (HandleUser Nat) := []
  proxies : Bytes → Option (Option Nat) := fun _ => none
  id2handle : Nat → Option (HandleUser Nat) := fun _ => none
  connid2proxy : Nat → Option (Option Nat) := fun _ => none
  loc2connID : Bimap Nat Nat := ∅
  proc2proc : Nat → Option Nat := fun _ => none
  route : Nat → Option Nat := fun _ => none

/-- What `getNext` returns, and when: the handle, whether it is new, the world, and the uninitialised memory
that is read. -/
structure ProxyEvent (W : Type) where
  id : Nat
  isNew : Bool
  world : W
  size : Nat := 0
  garbage : Nat → UInt8 := fun _ => 0

variable {W : Type}

/-- A call on handles. -/
def lift {α : Type} (x : Except Stop α) : Except ProxyStop α := x.mapError .stop

namespace ProxyEnv

/-- `HandleUser::getID`. -/
def getID (env : ProxyEnv W) (u : HandleUser Nat) : Nat :=
  match u.realHandle with
  | none => 0
  | some h => env.address h

/-- The size of the next message, and the message. -/
def readMessage (env : ProxyEnv W) (ev : ProxyEvent W) (h : HandleUser Nat) (w : W) :
    Except Stop (Nat × Bytes × HandleUser Nat × W) := do
  let (_, sz, h, w) ← h.probe env.vt ev.size true w
  let (_, bs, h, w) ← h.receive env.vt sz w
  return (sz, overlay ev.garbage sz bs, h, w)

/-- The loops over the endpoints of a component: the first that contains the protocol and can be connected to. -/
def connectFirst (env : ProxyEnv W) (protocol : Bytes) : List Bytes → W → Except Stop (Option (HandleUser Nat) × W)
  | [], w => .ok (none, w)
  | le :: les, w =>
    if contains le protocol then do
      let (u, w) ← env.connect le w
      if u.realHandle.isSome then return (some u, w) else connectFirst env protocol les w
    else connectFirst env protocol les w

/-- The identifier of the connection of a handle. -/
def connID (env : ProxyEnv W) (connectString : Bytes) (h : HandleUser Nat) : Nat :=
  env.hash (connectString ++ env.pool ++ literal (Nat.toDigits 10 (env.getID h)))

end ProxyEnv

namespace Proxy

/-- `toHeap`: the pointer. -/
def toHeap (s : Proxy W) (u : HandleUser Nat) : Nat × Proxy W := (s.heap.length, { s with heap := s.heap ++ [u] })

/-- `->send` through a pointer to a proxy. -/
def sendThrough (env : ProxyEnv W) (s : Proxy W) (ptr : Option Nat) (buff : Bytes) : Except ProxyStop (Proxy W) :=
  match ptr with
  | none => .error .nullProxy
  | some p =>
    match s.heap[p]? with
    | none => .error (.stop .undefined)
    | some u => do
      let (_, u, w) ← lift (u.send env.vt buff s.world)
      return { s with world := w, heap := s.heap.set p u }

/-- `id2handle[k]`. -/
def handleAt (s : Proxy W) (k : Nat) : HandleUser Nat × Proxy W :=
  match s.id2handle k with
  | some u => (u, s)
  | none => ({}, { s with id2handle := Function.update s.id2handle k (some {}) })

/-- `id2handle.erase(k)`. -/
def eraseHandle (env : ProxyEnv W) (s : Proxy W) (k : Nat) : Except ProxyStop (Proxy W) :=
  match s.id2handle k with
  | none => .ok s
  | some u => do
    let w ← lift (u.destroy env.vt s.world)
    return { s with world := w, id2handle := Function.update s.id2handle k none }

/-- `h.yield(); id2handle.emplace(h.getID(), std::move(h))`; when there is an entry already the handle is destroyed. -/
def keepHandle (env : ProxyEnv W) (s : Proxy W) (h : HandleUser Nat) : Except ProxyStop (Proxy W) := do
  let (h, w) ← lift (h.yield env.vt s.world)
  match s.id2handle (env.getID h) with
  | none => return { s with world := w, id2handle := Function.update s.id2handle (env.getID h) (some h) }
  | some _ => do
    let w ← lift (h.destroy env.vt w)
    return { s with world := w }

/-- `loc2connID.insert`, for a connection through the proxy with the handle `via`. -/
def associate (env : ProxyEnv W) (s : Proxy W) (h : HandleUser Nat) (identifier : Nat) (via : Option Nat) : Proxy W :=
  { s with
    loc2connID := s.loc2connID.insert (env.getID h) identifier
    route := Function.update s.route identifier via }

/-- A member function of the bimap. -/
def fromBimap {α : Type} (x : Option α) : Except ProxyStop α := x.elim (.error (.stop .undefined)) .ok

/-! ### Frames of other proxies -/

/-- A new connection of a proxy. -/
def newProxy (env : ProxyEnv W) (ev : ProxyEvent W) (s : Proxy W) (h : HandleUser Nat) :
    Except ProxyStop (HandleUser Nat × Proxy W) := do
  let (sz, buff, h, w) ← lift (env.readMessage ev h s.world)
  let s := { s with world := w }
  if (buff ++ [0]).headD 0 = Cmd.PRX.toByte then
    if sz < proxyHeader then .error (.stop .undefined)
    else
      let (p, s) := s.toHeap h
      return ({}, { s with proxies := Function.update s.proxies (cstr (buff.drop proxyHeader)) (some (some p)) })
  else
    let (p, s) := s.toHeap h
    return ({}, { s with proxies := Function.update s.proxies [] (some (some p)) })

/-- `EOS`: a process of the other pool has closed. -/
def frameEOS (env : ProxyEnv W) (s : Proxy W) (identifier : Nat) : Except ProxyStop (Proxy W) :=
  if identifier ∈ s.loc2connID.valueTree.elems then do
    let hID ← fromBimap (s.loc2connID.getKey identifier)
    match s.id2handle hID with
    | none => .error (.stop .outOfRange)
    | some u => do
      let w ← lift (u.close env.vt s.world)
      let closed ← lift (u.isClosed env.vt w)
      let s := { s with world := w }
      if closed = (true, true) then do
        let s ← s.eraseHandle env hID
        let b ← fromBimap (s.loc2connID.eraseKey hID)
        return { s with loc2connID := b }
      else return s
  else .ok s

/-- `FWD`: a message for a process. -/
def frameFWD (env : ProxyEnv W) (s : Proxy W) (identifier : Nat) (payload : Bytes) : Except ProxyStop (Proxy W) :=
  if identifier ∈ s.loc2connID.valueTree.elems then do
    let key ← fromBimap (s.loc2connID.getKey identifier)
    let (u, s) := s.handleAt key
    let (_, u, w) ← lift (u.send env.vt payload s.world)
    return { s with world := w, id2handle := Function.update s.id2handle key (some u) }
  else .ok s

/-- `CONN`: a process of the other pool connects to a component of this one, through the proxy with the handle `via`. -/
def frameCONN (env : ProxyEnv W) (s : Proxy W) (via : Option Nat) (identifier : Nat) (payload : Bytes) :
    Except ProxyStop (Proxy W) :=
  match env.components (afterColon payload) with
  | none => .ok s
  | some c => do
    let (found, w) ← lift (env.connectFirst (beforeColon payload) c.listenStrs s.world)
    let s := { s with world := w }
    match found with
    | none => return s
    | some u => (s.associate env u identifier via).keepHandle env u

/-- What the main loop does with a frame that has come on the handle `h`. -/
def obey (env : ProxyEnv W) (s : Proxy W) (h : HandleUser Nat) (f : ProxyFrame) :
    Except ProxyStop (HandleUser Nat × Proxy W) := do
  let s ← (
    if f.cmd = Cmd.EOS.toByte then s.frameEOS env f.identifier
    else if f.cmd = Cmd.FWD.toByte then s.frameFWD env f.identifier f.payload
    else if f.cmd = Cmd.CONN.toByte then s.frameCONN env h.realHandle f.identifier f.payload
    else .ok s)
  return (h, s)

/-- A message of a proxy. -/
def frame (env : ProxyEnv W) (ev : ProxyEvent W) (s : Proxy W) (h : HandleUser Nat) :
    Except ProxyStop (HandleUser Nat × Proxy W) := do
  let (_, buff, h, w) ← lift (env.readMessage ev h s.world)
  match ProxyFrame.ofBytes buff with
  | none => .error (.stop .undefined)
  | some f => ({ s with world := w } : Proxy W).obey env h f

/-! ### Processes of the pool -/

/-- The pool of a component. -/
def poolOf (c : Component) : Bytes := beforeColon c.host

/-- A connection within the pool: one hop. -/
def oneHop (env : ProxyEnv W) (s : Proxy W) (h : HandleUser Nat) (protocol : Bytes) (c : Component) :
    Except ProxyStop (HandleUser Nat × Proxy W) :=
  if protocol = [] then do
    let s ← s.keepHandle env h
    return ({}, s)
  else do
    let (found, w) ← lift (env.connectFirst protocol c.listenStrs s.world)
    let s := { s with world := w }
    match found with
    | none => do
      let w ← lift (h.close env.vt s.world)
      return (h, { s with world := w })
    | some u => do
      -- `emplace` leaves an entry that is there
      let p1 := Function.update s.proc2proc (env.getID h) (some ((s.proc2proc (env.getID h)).getD (env.getID u)))
      let p2 := Function.update p1 (env.getID u) (some ((p1 (env.getID u)).getD (env.getID h)))
      let s ← ({ s with proc2proc := p2 } : Proxy W).keepHandle env u
      let s ← s.keepHandle env h
      return ({}, s)

/-- A connection to a process of another pool, through the proxy of that pool. -/
def otherPool (env : ProxyEnv W) (s : Proxy W) (h : HandleUser Nat) (connectString pool : Bytes) :
    Except ProxyStop (HandleUser Nat × Proxy W) := do
  let identifier := env.connID connectString h
  let ptr := (s.proxies pool).getD none
  let s := { s with proxies := Function.update s.proxies pool (some ptr) }
  let s ← s.sendThrough env ptr (ProxyFrame.toBytes ⟨Cmd.CONN.toByte, identifier, connectString⟩)
  let s := s.associate env h identifier ((ptr.bind fun p => s.heap[p]?).bind HandleUser.realHandle)
  let s :=
    { s with connid2proxy := Function.update s.connid2proxy identifier (some ((s.connid2proxy identifier).getD ptr)) }
  let s ← s.keepHandle env h
  return ({}, s)

/-- A new connection of a process. -/
def newProcess (env : ProxyEnv W) (ev : ProxyEvent W) (s : Proxy W) (h : HandleUser Nat) :
    Except ProxyStop (HandleUser Nat × Proxy W) := do
  let (_, connectString, h, w) ← lift (env.readMessage ev h s.world)
  let s := { s with world := w }
  match env.components (afterColon connectString) with
  | none => return (h, s)
  | some c =>
    if poolOf c = [] ∨ poolOf c = env.pool then s.oneHop env h (beforeColon connectString) c
    else s.otherPool env h connectString (poolOf c)

/-- The end of a connection through another proxy, of which the process has closed its side. -/
def closeRoute (env : ProxyEnv W) (s : Proxy W) (h : HandleUser Nat) : Except ProxyStop (Proxy W) :=
  if env.getID h ∈ s.loc2connID.keyTree.elems then do
    let connectionID ← fromBimap (s.loc2connID.getValue (env.getID h))
    let ptr := (s.connid2proxy connectionID).getD none
    let s := { s with connid2proxy := Function.update s.connid2proxy connectionID (some ptr) }
    let s ← s.sendThrough env ptr (ProxyFrame.toBytes ⟨Cmd.EOS.toByte, connectionID, []⟩)
    let closed ← lift (h.isClosed env.vt s.world)
    if closed = (true, true) then do
      let b ← fromBimap (s.loc2connID.eraseKey (env.getID h))
      let s := { s with loc2connID := b, connid2proxy := Function.update s.connid2proxy connectionID none }
      s.eraseHandle env (env.getID h)
    else return s
  else .ok s

/-- The end of a connection of one hop. -/
def closeHop (env : ProxyEnv W) (s : Proxy W) (connId : Nat) : Except ProxyStop (Proxy W) :=
  match s.proc2proc connId with
  | none => .ok s
  | some dest => do
    let (u, s) := s.handleAt dest
    let w ← lift (u.close env.vt s.world)
    let closed ← lift (u.isClosed env.vt w)
    let s := { s with world := w }
    if closed = (true, true) then
      ({ s with proc2proc := Function.update s.proc2proc dest none } : Proxy W).eraseHandle env dest
    else return s

/-- A message of a process. -/
def forward (env : ProxyEnv W) (s : Proxy W) (connId : Nat) (message : Bytes) : Except ProxyStop (Proxy W) :=
  if connId ∈ s.loc2connID.keyTree.elems then do
    let connectionID ← fromBimap (s.loc2connID.getValue connId)
    let ptr := (s.connid2proxy connectionID).getD none
    let s := { s with connid2proxy := Function.update s.connid2proxy connectionID (some ptr) }
    s.sendThrough env ptr (ProxyFrame.toBytes ⟨Cmd.FWD.toByte, connectionID, message⟩)
  else
    match s.proc2proc connId with
    | none => .ok s
    | some dest => do
      let (u, s) := s.handleAt dest
      let (_, u, w) ← lift (u.send env.vt message s.world)
      return { s with world := w, id2handle := Function.update s.id2handle dest (some u) }

/-- A message of a process, or its end. -/
def message (env : ProxyEnv W) (ev : ProxyEvent W) (s : Proxy W) (h : HandleUser Nat) :
    Except ProxyStop (HandleUser Nat × Proxy W) := do
  let (_, sz, h, w) ← lift (h.probe env.vt ev.size true s.world)
  let s := { s with world := w }
  if sz = 0 then do
    let s ← s.closeRoute env h
    let s ← s.closeHop env (env.getID h)
    return (h, s)
  else do
    let (_, bs, h, w) ← lift (h.receive env.vt sz s.world)
    let s ← ({ s with world := w } : Proxy W).forward env (env.getID h) (overlay ev.garbage sz bs)
    return (h, s)

/-! ### The loop -/

/-- The branch of the main loop for what `getNext` has returned. -/
def dispatch (env : ProxyEnv W) (ev : ProxyEvent W) (s : Proxy W) : Except ProxyStop (HandleUser Nat × Proxy W) :=
  let h : HandleUser Nat := ⟨some ev.id, true, ev.isNew⟩
  let s := { s with world := ev.world }
  if env.instanceName ev.id = literal ['P'] then
    if ev.isNew then s.newProxy env ev h else s.frame env ev h
  else
    if ev.isNew then s.newProcess env ev h else s.message env ev h

/-- An iteration of the main loop, at the end of which the handle is destroyed. -/
def iteration (env : ProxyEnv W) (ev : ProxyEvent W) (s : Proxy W) : Except ProxyStop (Proxy W) := do
  let (h, s) ← s.dispatch env ev
  let w ← lift (h.destroy env.vt s.world)
  return { s with world := w }

/-- An attempt to connect to the proxy of another pool at the start. -/
def connectProxy (env : ProxyEnv W) (name addr : Bytes) (s : Proxy W) : Except ProxyStop (Proxy W) := do
  let port := if UInt8.ofNat ':'.toNat ∈ addr then [] else literal [':', '8', '0', '0', '2']
  let (u, w) ← lift (env.connect (literal ['P', ':'] ++ addr ++ port) s.world)
  match u.realHandle with
  | none => return { s with world := w }
  | some _ => do
    let (_, u, w) ← lift (u.send env.vt (ProxyFrame.toBytes ⟨Cmd.PRX.toByte, 0, env.pool⟩) w)
    let (u, w) ← lift (u.yield env.vt w)
    let (p, s) := ({ s with world := w } : Proxy W).toHeap u
    return { s with proxies := Function.update s.proxies name (some (some p)) }

/-- The start of the proxy: it connects to the proxies of the pools whose names come behind its own. -/
def start (env : ProxyEnv W) : List (Bytes × List Bytes) → Proxy W → Except ProxyStop (Proxy W)
  | [], s => .ok s
  | (name, addrs) :: pools, s => do
    let s ← (if env.pool < name then addrs.foldlM (fun s addr => s.connectProxy env name addr) s else .ok s)
    start env pools s

/-! ### Calls that only stop with errors of their own -/

theorem lift_safe {α : Type} (x : Except Stop α) : Safety.Safe .nullProxy (fun a => x = .ok a) (lift x) := by
  cases x with
  | error e => exact nofun
  | ok a => exact rfl

theorem fromBimap_safe {α : Type} (x : Option α) : Safety.Safe .nullProxy (fun a => x = some a) (fromBimap x) := by
  cases x with
  | none => exact nofun
  | some a => exact rfl

/-- What every attempt to connect to a proxy does, the start does. -/
theorem start_returns {env : ProxyEnv W} {R : Proxy W → Proxy W → Prop} (hrefl : ∀ s, R s s)
    (htrans : ∀ {s s' s''}, R s s' → R s' s'' → R s s'')
    (hconnect : ∀ name addr s, Safety.Returns (R s) (s.connectProxy env name addr)) (pools : List (Bytes × List Bytes))
    (s : Proxy W) : Safety.Returns (R s) (start env pools s) := by
  induction pools generalizing s with
  | nil => exact .ok (hrefl s)
  | cons x pools ih =>
    obtain ⟨name, addrs⟩ := x
    unfold start
    refine Safety.Returns.bind (P := R s) ?_ fun s1 h1 => (ih s1).mono fun s2 h2 => htrans h1 h2
    split
    · clear ih
      induction addrs generalizing s with
      | nil => exact .ok (hrefl s)
      | cons addr addrs ih =>
        rw [List.foldlM_cons]
        exact (hconnect name addr s).bind fun s1 h1 => (ih s1).mono fun s2 h2 => htrans h1 h2
    · exact .ok (hrefl s)

end Proxy

end Mtcl
