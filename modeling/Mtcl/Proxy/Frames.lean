import Mtcl.Proxy.Main
import Mtcl.Tcp.Stream

/-!
# What the proxy reads of a frame

The main loop reads a message of another proxy by its positions: the command at 0, the identifier at 1 to 8, and
from 9 on the payload, whose size is the size of the message less nine, in `size_t`; on a new connection the
name of the pool is the string that begins at 9.  Nothing looks at the size of the message first.

`frames_within_iff` says for which messages all positions are inside the message and the subtraction does not
wrap around, and that the frames which the proxies send are read back as they were composed.
-/

namespace Mtcl

open Arrivals Sources

/-- `sz - sizeof(char) - sizeof(size_t)`. -/
def payloadSize (sz : Nat) : Nat := (sz + (2 ^ 64 - proxyHeader)) % 2 ^ 64

/-- The frame that is read from the memory behind `buff`, of a message of `sz` bytes. -/
def ProxyFrame.parse (mem : Nat → UInt8) (sz : Nat) : ProxyFrame where
  cmd := mem 0
  identifier := Words.ofLE ((List.range' 1 sizeofSizeT).map mem)
  payload := (List.range' proxyHeader (payloadSize sz)).map mem

/-- What the main loop can find when `getNext` has returned a connection of a proxy: a message, of which EOS is
the empty one, or that the peer is gone; the size is uninitialised then. -/
inductive ProxyArrival
  | message (m : Bytes)
  | disconnect (size : Nat)

namespace ProxyArrival

/-- The size after `probe`. -/
def size : ProxyArrival → Nat
  | message m => m.length
  | disconnect size => size

/-- What `receive` writes to the buffer. -/
def bytes : ProxyArrival → Bytes
  | message m => m
  | disconnect _ => []

/-- The memory from `buff` on, after `receive`. -/
def Holds (a : ProxyArrival) (mem : Nat → UInt8) : Prop := ∀ i b, a.bytes[i]? = some b → mem i = b

end ProxyArrival

variable {W : Type}

/-- The main loop calls `probe` and `receive`, and this is what they find. -/
def ProxyEnv.Takes (env : ProxyEnv W) (ev : ProxyEvent W) (h : HandleUser Nat) (w : W) (a : ProxyArrival)
    (h' : HandleUser Nat) (w' : W) : Prop :=
  ∃ r r' h1 w1, h.probe env.vt ev.size true w = .ok (r, a.size, h1, w1) ∧
    h1.receive env.vt a.size w1 = .ok (r', a.bytes, h', w')

namespace Proxy

/-- The branch of the main loop for the command looks at the payload. -/
def UsesPayload (s : Proxy W) (f : ProxyFrame) : Prop :=
  f.cmd = Cmd.FWD.toByte ∧ f.identifier ∈ s.loc2connID.valueTree.elems ∨ f.cmd = Cmd.CONN.toByte

instance (s : Proxy W) (f : ProxyFrame) : Decidable (s.UsesPayload f) := inferInstanceAs (Decidable (_ ∧ _ ∨ _))

/-- The positions of `buff` that are read for a message on a connection that is known. -/
def frameReads (s : Proxy W) (mem : Nat → UInt8) (sz : Nat) : List Nat :=
  0 :: List.range' 1 sizeofSizeT ++
    if s.UsesPayload (ProxyFrame.parse mem sz) then List.range' proxyHeader (payloadSize sz) else []

/-- Those on a new connection, where the string ends with the first NUL; behind a buffer that is too short there
may be more of them. -/
def newProxyReads (mem : Nat → UInt8) (sz : Nat) : List Nat :=
  0 :: if mem 0 = Cmd.PRX.toByte then
    List.range' proxyHeader ((cstr ((List.range' proxyHeader (sz - proxyHeader)).map mem)).length + 1)
  else []

/-- Only bytes of the message are read, and the size of the payload is the difference. -/
def FrameWithin (s : Proxy W) (mem : Nat → UInt8) (a : ProxyArrival) : Prop :=
  (∀ i ∈ s.frameReads mem a.size, i < a.bytes.length) ∧ payloadSize a.size + proxyHeader = a.size

/-- Only bytes of the message are read, and the NUL that the proxy has put behind it. -/
def NewProxyWithin (mem : Nat → UInt8) (a : ProxyArrival) : Prop :=
  ∀ i ∈ newProxyReads mem a.size, i < a.bytes.length ∨ i = a.size

/-- The connection is entered as the one of the proxy of a pool. -/
def enter (s : Proxy W) (h : HandleUser Nat) (poolName : Bytes) : HandleUser Nat × Proxy W :=
  let (p, s) := s.toHeap h
  ({}, { s with proxies := Function.update s.proxies poolName (some (some p)) })

end Proxy

/-! ### What arrives -/

section

variable {env : ProxyEnv W} {ev : ProxyEvent W} {h h' : HandleUser Nat} {w w' : W} {a : ProxyArrival}

theorem ProxyEnv.Takes.readMessage (ht : env.Takes ev h w a h' w') :
    env.readMessage ev h w = .ok (a.size, overlay ev.garbage a.size a.bytes, h', w') := by
  obtain ⟨r, r', h1, w1, hprobe, hreceive⟩ := ht
  unfold ProxyEnv.readMessage
  rw [hprobe, bind_ok]
  dsimp only
  rw [hreceive]
  rfl

variable {closed : Bool} {I : Phase (List Bytes) Bytes → W → Prop} {id : Nat}

/-- The next message of a connection arrives. -/
theorem Reads.takes (ev : ProxyEvent W) (hr : Reads (env.vt id) (queue closed) I) {m : Bytes} {q : List Bytes}
    (ho : Owns I id (.idle (m :: q)) (h, w)) :
    ∃ h' w', env.Takes ev h w (.message m) h' w' ∧ Owns I id (.idle q) (h', w') := by
  rcases hr.hears.probe_idle ho ev.size with ⟨m', q', w1, hn, hprobe, ho1⟩ | ⟨⟨hfin, -⟩, -⟩ | ⟨⟨s, hs, -, hn⟩, -⟩
  · obtain ⟨rfl, rfl⟩ := List.cons.inj hn
    have hreceive := hr.hears.receive_opened ho1 m.length
    have htake := hr.receiveProbed_opened (u := { h with newConnection := false }) ho1 m.length
    rw [if_neg (Nat.lt_irrefl _)] at htake
    obtain ⟨w2, htake, ho2⟩ := htake
    exact ⟨_, w2, ⟨_, _, _, w1, hprobe, hreceive.trans htake⟩, ho2⟩
  · cases hfin
  · cases hs
    exact absurd rfl (hn m q)

/-- Its end, which is a message without bytes. -/
theorem Reads.takes_eos (ev : ProxyEvent W) (hr : Reads (env.vt id) (queue true) I) (ho : Owns I id (.idle []) (h, w)) :
    ∃ h' w', env.Takes ev h w (.message []) h' w' ∧ Owns I id (.ended []) (h', w') := by
  rcases hr.hears.probe_idle ho ev.size with ⟨m', q', w1, hn, -⟩ | ⟨-, u1, w1, hprobe, ho1⟩ | ⟨⟨s, hs, hfin, -⟩, -⟩
  · cases hn
  · exact ⟨_, w1, ⟨_, _, u1, w1, hprobe, hr.hears.receive_ended ho1 0⟩, ho1⟩
  · cases hs
    exact absurd ⟨rfl, rfl⟩ hfin

/-- The peer is gone: `probe` returns 0 and leaves the size as it was, and the handle is closed. -/
theorem takes_disconnect (ev : ProxyEvent W) {w1 w2 : W} {b b2 : CommBase} (hh : h.realHandle = some id)
    (hread : h.isReadable = true) (hb : (env.vt id).base w = .ok b) (hp : b.probed.1 = false)
    (hrd : b.closedRd = false) (hprobe : (env.vt id).probe ev.size true w = .ok (.ok 0, ev.size, w1))
    (hclose : (env.vt id).close true true w1 = .ok w2) (hb2 : (env.vt id).base w2 = .ok b2)
    (hp2 : b2.probed.1 = false) :
    env.Takes ev h w (.disconnect ev.size) { h with newConnection := false, isReadable := false } w2 := by
  have hd : ∀ r n, (⟨some id, r, n⟩ : HandleUser Nat).deref env.vt = .ok (env.vt id) := fun _ _ => rfl
  obtain ⟨rh, rd, nc⟩ := h
  obtain rfl : rh = some id := hh
  obtain rfl : rd = true := hread
  refine ⟨.ok 0, .ok 0, ⟨some id, false, false⟩, w2, ?_, ?_⟩
  · unfold HandleUser.probe
    dsimp only
    rw [hd, bind_ok, hb, bind_ok, hp, if_neg Bool.false_ne_true, hrd, if_neg (by decide),
      if_neg Bool.false_ne_true, hprobe, bind_ok]
    dsimp only
    rw [hclose]
    rfl
  · unfold HandleUser.receive
    rw [hd, bind_ok, hb2, bind_ok, hp2, if_pos (by decide)]
    unfold HandleUser.probe
    dsimp only
    rw [hd, bind_ok, hb2, bind_ok, hp2]
    rfl

end

/-! ### The positions -/

section

variable {mem : Nat → UInt8} {a : ProxyArrival} {m : Bytes}

theorem payloadSize_iff {sz : Nat} (h : sz < 2 ^ 64) : payloadSize sz + proxyHeader = sz ↔ proxyHeader ≤ sz := by
  unfold payloadSize proxyHeader
  omega

private theorem payloadSize_of {sz : Nat} (h : sz < 2 ^ 64) (hle : proxyHeader ≤ sz) :
    payloadSize sz = sz - proxyHeader := by
  have := (payloadSize_iff h).2 hle
  omega

private theorem map_mem (hm : (ProxyArrival.message m).Holds mem) {i n : Nat} (h : i + n ≤ m.length) :
    (List.range' i n).map mem = (m.drop i).take n := by
  apply List.ext_getElem?
  intro j
  rw [List.getElem?_map]
  by_cases hj : j < n
  · have hget : m[i + j]? = some (mem (i + j)) := by
      have hlt : i + j < m.length := by omega
      have hb := List.getElem?_eq_getElem hlt
      rw [hm _ _ hb, hb]
    rw [List.getElem?_range' hj, List.getElem?_take_of_lt hj, List.getElem?_drop, hget, Nat.one_mul]
    rfl
  · rw [List.getElem?_eq_none (by simp; omega), List.getElem?_eq_none (by simp; omega)]
    rfl

namespace Proxy

/-- The command and the identifier alone are nine bytes. -/
theorem frameWithin_iff (s : Proxy W) (hsz : a.size < 2 ^ 64) : s.FrameWithin mem a ↔ proxyHeader ≤ a.bytes.length := by
  constructor
  · rintro ⟨hreads, -⟩
    have hlast : 8 ∈ s.frameReads mem a.size :=
      List.mem_append_left _ (List.mem_cons_of_mem _ (List.mem_range'_1.2 (by decide)))
    exact hreads 8 hlast
  · intro hle
    cases a with
    | disconnect n => exact absurd hle (Nat.not_succ_le_zero _)
    | message m =>
      have hpayload := payloadSize_of hsz hle
      refine ⟨?_, (payloadSize_iff hsz).2 hle⟩
      intro i hi
      rcases List.mem_append.1 hi with hi | hi
      · have h9 : i < proxyHeader := by
          rcases List.mem_cons.1 hi with rfl | hi
          · decide
          · exact (List.mem_range'_1.1 hi).2
        exact Nat.lt_of_lt_of_le h9 hle
      · split at hi
        · have hlt := (List.mem_range'_1.1 hi).2
          rw [hpayload] at hlt
          change proxyHeader ≤ m.length at hle
          change i < proxyHeader + (m.length - proxyHeader) at hlt
          change i < m.length
          omega
        · cases hi

/-- A name is looked for only behind the byte of `PRX`. -/
theorem newProxyWithin_iff (hm : a.Holds mem) (hnul : mem a.size = 0) :
    NewProxyWithin mem a ↔
      (a.size = 0 ∨ a.bytes ≠ []) ∧ (a.bytes.head? = some Cmd.PRX.toByte → proxyHeader ≤ a.bytes.length) := by
  have hempty : a.size = 0 → NewProxyWithin mem a := by
    intro h0 i hi
    rw [h0] at hnul
    rw [newProxyReads, hnul, if_neg (by decide)] at hi
    exact Or.inr ((List.mem_singleton.1 hi).trans h0.symm)
  have hfirst : NewProxyWithin mem a → a.size = 0 ∨ a.bytes ≠ [] := by
    intro h
    rcases h 0 (List.mem_cons_self ..) with hlt | h0
    · exact Or.inr (List.length_pos_iff.1 hlt)
    · exact Or.inl h0.symm
  cases a with
  | disconnect n =>
    refine ⟨fun h => ⟨hfirst h, nofun⟩, ?_⟩
    rintro ⟨h0 | hne, -⟩
    · exact hempty h0
    · exact absurd rfl hne
  | message m =>
    cases m with
    | nil => exact ⟨fun h => ⟨hfirst h, nofun⟩, fun _ => hempty rfl⟩
    | cons b t =>
      have hb : mem 0 = b := hm 0 b rfl
      change (∀ i ∈ newProxyReads mem (b :: t).length, i < (b :: t).length ∨ i = (b :: t).length) ↔
        ((b :: t).length = 0 ∨ b :: t ≠ []) ∧ (some b = some Cmd.PRX.toByte → proxyHeader ≤ (b :: t).length)
      rw [and_iff_right (Or.inr (List.cons_ne_nil b t)), newProxyReads, hb, Option.some.injEq]
      by_cases hprx : b = Cmd.PRX.toByte
      · rw [if_pos hprx]
        constructor
        · intro h _
          -- the string begins at position 9
          have := h proxyHeader (List.mem_cons_of_mem _ (List.mem_range'_1.2 ⟨Nat.le_refl _, by omega⟩))
          omega
        · intro h i hi
          have hle := h hprx
          rcases List.mem_cons.1 hi with rfl | hi
          · exact Or.inl (Nat.succ_pos _)
          · have hlt := (List.mem_range'_1.1 hi).2
            have hname : (cstr ((List.range' proxyHeader ((b :: t).length - proxyHeader)).map mem)).length ≤
                (b :: t).length - proxyHeader := by
              have := (List.takeWhile_sublist (p := fun b : UInt8 => b != 0)
                (l := (List.range' proxyHeader ((b :: t).length - proxyHeader)).map mem)).length_le
              rwa [List.length_map, List.length_range'] at this
            omega
      · rw [if_neg hprx]
        refine iff_of_true ?_ fun h => absurd h hprx
        intro i hi
        rw [List.mem_singleton.1 hi]
        exact Or.inl (Nat.succ_pos _)

end Proxy

/-! ### The frames -/

theorem ProxyFrame.length_toBytes (f : ProxyFrame) : f.toBytes.length = proxyHeader + f.payload.length := by
  rw [toBytes, List.cons_append, List.length_cons, List.length_append, Words.length_toLE]
  unfold proxyHeader sizeofSizeT
  omega

/-- What has been composed is what a message of at least nine bytes is taken for. -/
theorem ProxyFrame.ofBytes_toBytes {f : ProxyFrame} (hid : f.identifier < 2 ^ 64) : ofBytes f.toBytes = some f := by
  have hlen := f.length_toBytes
  have hdrop : f.toBytes.drop 1 = Words.toLE sizeofSizeT f.identifier ++ f.payload := rfl
  have htoLE := Words.length_toLE sizeofSizeT f.identifier
  rw [ofBytes, if_neg (by omega), hdrop, List.take_left' htoLE, Words.ofLE_toLE hid]
  have hpayload : f.toBytes.drop proxyHeader = f.payload := by
    change (Words.toLE sizeofSizeT f.identifier ++ f.payload).drop sizeofSizeT = f.payload
    rw [List.drop_left' htoLE]
  rw [hpayload]
  rfl

/-- The positions of a message that is long enough are those of its frame. -/
theorem ProxyFrame.ofBytes_eq (hm : (ProxyArrival.message m).Holds mem) (hsz : m.length < 2 ^ 64) :
    ofBytes m = if m.length < proxyHeader then none else some (parse mem m.length) := by
  unfold ofBytes
  split
  · rfl
  · rename_i hlt
    have hle := Nat.le_of_not_lt hlt
    have hcmd : m.headD 0 = mem 0 := by
      cases m with
      | nil => exact absurd hle (by decide)
      | cons b t => exact (hm 0 b rfl).symm
    have hid : (m.drop 1).take sizeofSizeT = (List.range' 1 sizeofSizeT).map mem := (map_mem hm hle).symm
    have hpayload : m.drop proxyHeader = (List.range' proxyHeader (payloadSize m.length)).map mem := by
      have hsum : proxyHeader + payloadSize m.length ≤ m.length := by
        have := (payloadSize_iff hsz).2 hle
        omega
      rw [map_mem hm hsum, payloadSize_of hsz hle, List.take_of_length_le (Nat.le_of_eq List.length_drop)]
    rw [hcmd, hid, hpayload, parse]

namespace Proxy

variable {env : ProxyEnv W} {ev : ProxyEvent W} {s : Proxy W} {h h' : HandleUser Nat} {w' : W}

/-- The main loop goes on with the message that arrives. -/
private theorem lift_readMessage (ht : env.Takes ev h s.world (.message m) h' w') :
    lift (env.readMessage ev h s.world) = .ok (m.length, m, h', w') := by
  rw [ht.readMessage]
  exact congrArg (fun bs => Except.ok (m.length, bs, h', w')) (overlay_full ev.garbage m)

theorem frame_eq (ht : env.Takes ev h s.world (.message m) h' w') :
    s.frame env ev h = (ProxyFrame.ofBytes m).elim (.error (.stop .undefined))
      (({ s with world := w' } : Proxy W).obey env h') := by
  unfold frame
  rw [lift_readMessage ht]
  dsimp only [bind, Except.bind]
  cases ProxyFrame.ofBytes m with
  | none => rfl
  | some f => rfl

/-- The branch of the main loop for a message of a known proxy, by the positions that it reads. -/
theorem frame_message (ht : env.Takes ev h s.world (.message m) h' w') (hm : (ProxyArrival.message m).Holds mem)
    (hsz : m.length < 2 ^ 64) :
    s.frame env ev h =
      if m.length < proxyHeader then .error (.stop .undefined)
      else ({ s with world := w' } : Proxy W).obey env h' (ProxyFrame.parse mem m.length) := by
  rw [frame_eq ht, ProxyFrame.ofBytes_eq hm hsz]
  by_cases hlt : m.length < proxyHeader
  · rw [if_pos hlt, if_pos hlt]
    rfl
  · rw [if_neg hlt, if_neg hlt]
    rfl

private theorem newProxy_eq (ht : env.Takes ev h s.world (.message m) h' w') :
    s.newProxy env ev h =
      if (m ++ [0]).headD 0 = Cmd.PRX.toByte then
        if m.length < proxyHeader then .error (.stop .undefined)
        else .ok (({ s with world := w' } : Proxy W).enter h' (cstr (m.drop proxyHeader)))
      else .ok (({ s with world := w' } : Proxy W).enter h' []) := by
  unfold newProxy
  rw [lift_readMessage ht]
  rfl

/-- A new connection that begins with `PRX` is that of the proxy of the pool. -/
theorem newProxy_toBytes {identifier : Nat} {poolName : Bytes} (hname : 0 ∉ poolName)
    (ht : env.Takes ev h s.world (.message (ProxyFrame.toBytes ⟨Cmd.PRX.toByte, identifier, poolName⟩)) h' w') :
    s.newProxy env ev h = .ok (({ s with world := w' } : Proxy W).enter h' poolName) := by
  have hlen := ProxyFrame.length_toBytes ⟨Cmd.PRX.toByte, identifier, poolName⟩
  have hfirst : (ProxyFrame.toBytes ⟨Cmd.PRX.toByte, identifier, poolName⟩ ++ [0]).headD 0 = Cmd.PRX.toByte := rfl
  have hpayload : (ProxyFrame.toBytes ⟨Cmd.PRX.toByte, identifier, poolName⟩).drop proxyHeader = poolName := by
    show (Words.toLE sizeofSizeT identifier ++ poolName).drop sizeofSizeT = poolName
    rw [List.drop_left' (Words.length_toLE _ _)]
  rw [newProxy_eq ht, if_pos hfirst, if_neg (by omega), hpayload, cstr_eq hname]

end Proxy

end

open Proxy

/-- A message of a known proxy is read within its bounds, and without wrapping around, exactly when it has the
nine bytes of a header; the first message of a new one, unless it begins with `PRX` and is shorter; and when the
peer is gone there is nothing to be read.  A frame that a proxy has composed is read back, and what the main
loop does is what it does with that frame. -/
theorem frames_within_iff {env : ProxyEnv W} {ev : ProxyEvent W} {s : Proxy W} {h h' : HandleUser Nat} {w' : W}
    {a : ProxyArrival} (ht : env.Takes ev h s.world a h' w') (hsz : a.size < 2 ^ 64) {mem : Nat → UInt8}
    (hm : a.Holds mem) : (s.FrameWithin mem a ↔ proxyHeader ≤ a.bytes.length) ∧
    (mem a.size = 0 → (NewProxyWithin mem a ↔
      (a.size = 0 ∨ a.bytes ≠ []) ∧ (a.bytes.head? = some Cmd.PRX.toByte → proxyHeader ≤ a.bytes.length))) ∧
    (∀ f : ProxyFrame, f.identifier < 2 ^ 64 → a = .message f.toBytes →
      ProxyFrame.parse mem a.size = f ∧ s.frame env ev h = ({ s with world := w' } : Proxy W).obey env h' f) ∧
    (∀ identifier poolName, 0 ∉ poolName → a = .message (ProxyFrame.toBytes ⟨Cmd.PRX.toByte, identifier, poolName⟩) →
      s.newProxy env ev h = .ok (({ s with world := w' } : Proxy W).enter h' poolName)) := by
  refine ⟨s.frameWithin_iff hsz, newProxyWithin_iff hm, ?_, ?_⟩
  · rintro f hid rfl
    have hlen := f.length_toBytes
    have hlong : ¬f.toBytes.length < proxyHeader := by omega
    have heq := ProxyFrame.ofBytes_eq hm hsz
    rw [ProxyFrame.ofBytes_toBytes hid, if_neg hlong] at heq
    have hparse : ProxyFrame.parse mem f.toBytes.length = f := (Option.some.inj heq).symm
    have hframe := frame_message ht hm hsz
    rw [if_neg hlong, hparse] at hframe
    exact ⟨hparse, hframe⟩
  · rintro identifier poolName hname rfl
    exact newProxy_toBytes hname ht

/-- A proxy over TCP without components, which nobody can be reached from. -/
private def loneProxy : ProxyEnv Process where
  pool := literal ['A']
  components _ := none
  hash _ := 0
  vt := tcpHandle
  instanceName _ := literal ['P']
  address id := id + 1
  connect _ p := .ok ({}, p)

/-- Its state, with one connection on which something arrives. -/
private def proxyReceiving (incoming : List SockArrival) : Proxy Process :=
  { world := { handles := fun _ => { fd := some 3, incoming := incoming, counter := 1 }, allocated := 1 } }

private theorem lone_owns {s : List SockArrival} {q : List Bytes} (hs : lead s = encode true q)
    (hq : ∀ m ∈ q, Sendable m) (isNew : Bool) : Owns (Receiving true 0) 0 (.idle q)
    (⟨some 0, true, isNew⟩, (proxyReceiving s).world) := by
  have hd := delivers_lead s
  rw [hs] at hd
  exact ⟨rfl, ⟨⟨⟨Nat.one_pos, rfl, Option.some_ne_none 3⟩, rfl, Int.one_pos⟩, rfl, hq, hd, nofun⟩, fun _ => rfl⟩

private theorem lone_reads : Reads (loneProxy.vt 0) (queue true) (Receiving true 0) := tcp_reads true 0

/-- The frame of a message `7` for the connection 258. -/
theorem frames_within_run :
    ∃ (s : Proxy Process) (ev : ProxyEvent Process) (h' : HandleUser Nat) (w' : Process),
      s.frame loneProxy ev ⟨some 0, true, false⟩ =
        ({ s with world := w' } : Proxy Process).obey loneProxy h' ⟨Cmd.FWD.toByte, 258, [7]⟩ := by
  let incoming : List SockArrival :=
    [.piece 0 [0, 0, 0, 0, 0, 0, 10, 0, 2, 1, 0, 0, 0, 0, 0, 0, 7], .piece 0 [0, 0, 0, 0, 0, 0, 0]]
  let mem : Nat → UInt8 := fun i => [0, 2, 1, 0, 0, 0, 0, 0, 0, 7].getD i 0
  have ho := lone_owns (s := incoming) (q := [[0, 2, 1, 0, 0, 0, 0, 0, 0, 7]]) (by decide)
    (by
      intro m hm
      rw [List.mem_singleton.1 hm]
      exact ⟨List.cons_ne_nil _ _, by decide⟩) false
  obtain ⟨h', w', ht, -⟩ := lone_reads.takes { id := 0, isNew := false, world := {} } ho
  have hm : (ProxyArrival.message [0, 2, 1, 0, 0, 0, 0, 0, 0, 7]).Holds mem := by
    intro i b hb
    change ([0, 2, 1, 0, 0, 0, 0, 0, 0, 7] : Bytes)[i]? = some b at hb
    show ([0, 2, 1, 0, 0, 0, 0, 0, 0, 7] : Bytes).getD i 0 = b
    rw [List.getD_eq_getElem?_getD, hb]
    rfl
  obtain ⟨-, -, hf, -⟩ := frames_within_iff (s := proxyReceiving incoming) ht (by decide) hm
  exact ⟨_, _, h', w', (hf ⟨Cmd.FWD.toByte, 258, [7]⟩ (by decide) rfl).2⟩

/-- EOS, a message of four bytes, and a new connection that begins with a message `PRX` of one byte; and a peer
that is gone, with 77 in the uninitialised size. -/
theorem frames_outside :
    ∃ ev : ProxyEvent Process,
      (∃ (s : Proxy Process) (h' : HandleUser Nat) (w' : Process),
        loneProxy.Takes ev ⟨some 0, true, false⟩ s.world (.message []) h' w' ∧ payloadSize 0 = 2 ^ 64 - 9 ∧
        ∀ mem, ¬s.FrameWithin mem (.message [])) ∧
      (∃ (s : Proxy Process) (h' : HandleUser Nat) (w' : Process),
        loneProxy.Takes ev ⟨some 0, true, false⟩ s.world (.message [1, 2, 3, 4]) h' w' ∧ payloadSize 4 = 2 ^ 64 - 5 ∧
        ∀ mem, ¬s.FrameWithin mem (.message [1, 2, 3, 4])) ∧
      (∃ (s : Proxy Process) (h' : HandleUser Nat) (w' : Process),
        loneProxy.Takes ev ⟨some 0, true, true⟩ s.world (.message [2]) h' w' ∧
        ∀ mem, (ProxyArrival.message [2]).Holds mem → mem 1 = 0 → ¬NewProxyWithin mem (.message [2])) ∧
      ∃ (s : Proxy Process) (h' : HandleUser Nat) (w' : Process),
        loneProxy.Takes ev ⟨some 0, true, false⟩ s.world (.disconnect 77) h' w' ∧
        ∀ mem, ¬s.FrameWithin mem (.disconnect 77) := by
  have hsendable : ∀ {m : Bytes}, m ≠ [] → m.length < 2 ^ 63 → ∀ x ∈ [m], Sendable x := by
    intro m hne hlen x hx
    rw [List.mem_singleton.1 hx]
    exact ⟨hne, hlen⟩
  have heos := lone_owns (s := [.piece 0 [0, 0, 0, 0, 0, 0, 0]]) (q := []) (by decide) nofun false
  have hfour := lone_owns (s := [.piece 0 [0, 0, 0, 0, 0, 0, 4, 1, 2, 3, 4, 0, 0, 0, 0, 0, 0, 0, 0]])
    (q := [[1, 2, 3, 4]]) (by decide) (hsendable (by decide) (by decide)) false
  have hprx := lone_owns (s := [.piece 0 [0, 0, 0, 0, 0, 0, 1, 2, 0, 0, 0, 0, 0, 0, 0, 0]]) (q := [[2]])
    (by decide) (hsendable (by decide) (by decide)) true
  obtain ⟨h1, w1, ht1, -⟩ := lone_reads.takes_eos { id := 0, isNew := false, world := {}, size := 77 } heos
  obtain ⟨h2, w2, ht2, -⟩ := lone_reads.takes { id := 0, isNew := false, world := {}, size := 77 } hfour
  obtain ⟨h3, w3, ht3, -⟩ := lone_reads.takes { id := 0, isNew := false, world := {}, size := 77 } hprx
  have hgone := @takes_disconnect _ loneProxy ⟨some 0, true, false⟩ (proxyReceiving [.eof]).world 0
    { id := 0, isNew := false, world := {}, size := 77 } _ _ _ _ rfl rfl rfl rfl rfl rfl rfl rfl rfl
  refine ⟨{ id := 0, isNew := false, world := {}, size := 77 }, ⟨_, h1, w1, ht1, by decide, ?_⟩,
    ⟨_, h2, w2, ht2, by decide, ?_⟩, ⟨_, h3, w3, ht3, ?_⟩, ⟨_, _, _, hgone, ?_⟩⟩
  · intro mem h
    exact absurd ((frameWithin_iff _ (by decide)).1 h) (by decide)
  · intro mem h
    exact absurd ((frameWithin_iff _ (by decide)).1 h) (by decide)
  · intro mem hm hnul h
    exact absurd (((newProxyWithin_iff hm hnul).1 h).2 rfl) (by decide)
  · intro mem h
    exact absurd ((frameWithin_iff _ (by decide)).1 h) (by decide)

end Mtcl
