import Mtcl.Connect
import Mtcl.HandleMPIP2P
import Mtcl.HandleMQTT
import Mtcl.HandleUCX
import Mtcl.Handshake
import Mtcl.Tcp.Announce

/-!
# The announcement of a connection through a proxy

`connectHandle` sends the connection string to the proxy, and `connect` the flag of a point-to-point connection
after it, but the proxy takes the first message for the flag.  The proxy listens with four transports, and an
`Endpoint` is a handle over one of them.  `Manager.OverEndpoints` and `Views` say that the processes at the two
ends work on endpoints, and `Accepts` that the one at the proxy meets what the other has put out.

`proxied_never`: whatever the string, the transport and the way to the proxy, the string is never the first message of a
point-to-point connection.
-/

namespace Mtcl

open Arrivals

/-- A handle over one of the transports of a proxy. -/
inductive Endpoint
  | tcp (h : HandleTCP)
  | ucx (h : HandleUCX)
  | mqtt (h : HandleMQTT)
  | mpip2p (h : HandleMPIP2P)

namespace Endpoint

/-- `Handle::send`. -/
def send (bs : Bytes) : Endpoint → Ret × Endpoint
  | tcp h => ((h.send bs).1, tcp (h.send bs).2)
  | ucx h => ((h.send bs).1, ucx (h.send bs).2)
  | mqtt h => ((h.send bs).1, mqtt (h.send bs).2)
  | mpip2p h => ((h.send bs).1, mpip2p (h.send bs).2)

/-- `Handle::probe`. -/
def probe (garbage : Nat → UInt8) (size : Nat) (blocking : Bool) : Endpoint → Except Stop (Ret × Nat × Endpoint)
  | tcp h => do
    let (r, size, h) ← h.probe garbage size blocking
    return (r, size, tcp h)
  | ucx h => do
    let (r, size, h) ← h.probe size blocking
    return (r, size, ucx h)
  | mqtt h => do
    let (r, size, h) ← h.probe garbage size blocking
    return (r, size, mqtt h)
  | mpip2p h => do
    let (r, size, h) ← h.probe garbage size blocking
    return (r, size, mpip2p h)

/-- `Handle::receive`. -/
def receive (size : Nat) : Endpoint → Except Stop (Ret × Bytes × Endpoint)
  | tcp h => do
    let (r, bs, h) ← h.receive size
    return (r, bs, tcp h)
  | ucx h => do
    let (r, bs, h) ← h.receive size
    return (r, bs, ucx h)
  | mqtt h => do
    let (r, bs, h) ← h.receive size
    return (r, bs, mqtt h)
  | mpip2p h => do
    let (r, bs, h) ← h.receive size
    return (r, bs, mpip2p h)

/-- The messages `ms` have been put out, and others can be. -/
def Put (ms : List Bytes) : Endpoint → Prop
  | tcp h => h.fd ≠ none ∧ Moves h.answers ∧ h.wire = ms.flatMap frame
  | ucx h => h.wire = ms.flatMap frame
  | mqtt h => h.published = ms.flatMap fun m => [Words.toBE sizeofSizeT m.length, m]
  | mpip2p h => h.posted = ms.flatMap fun m => [Words.toLE sizeofSizeT m.length, m]

/-- The new endpoint `e'` meets what `e` has put out, and then whatever is put out later. -/
def Accepts : Endpoint → Endpoint → Prop
  | tcp h, tcp h' => h'.fd ≠ none ∧ ∃ more, Delivers h'.incoming (loose (h.wire ++ more))
  | ucx h, ucx h' => h'.request = none ∧ h'.lastProbe = none ∧ ∃ more, h'.incoming = h.wire ++ more
  | mqtt h, mqtt h' => h'.isProbed = false ∧ h'.messages = [] ∧
      ∃ more, h'.client = (h.published ++ more).map fun m => (h'.inTopic, m)
  | mpip2p h, mpip2p h' => ∃ more, h'.incoming = h.posted ++ more
  | _, _ => False

end Endpoint

/-- The handles of a process are endpoints: a connector makes a new one, and sending and counting do to it what
they should. -/
structure Manager.OverEndpoints {W : Type} (m : Manager Nat W) (endpoint : W → Nat → Endpoint) : Prop where
  made : ∀ {protocol address w id w'}, m.connectTo protocol address w = .ok (some id, w') → (endpoint w' id).Put []
  send : ∀ {id bs w r w'}, (m.vt id).send bs w = .ok (r, w') → ((endpoint w id).send bs).2 = endpoint w' id
  counts : ∀ {id w w' ms}, (m.vt id).incrementReferenceCounter w = .ok w' → (endpoint w id).Put ms →
    (endpoint w' id).Put ms

/-- What is read through the table `h` is read from an endpoint, whatever the memory held before. -/
structure Views {V : Type} (h : CommunicationHandle V) (endpoint : V → Endpoint) : Prop where
  probe : ∀ {size blocking v r size' v'}, h.probe size blocking v = .ok (r, size', v') →
    ∃ garbage, (endpoint v).probe garbage size blocking = .ok (r, size', endpoint v')
  receive : ∀ {size v r bs v'}, h.receive size v = .ok (r, bs, v') →
    (endpoint v).receive size = .ok (r, bs, endpoint v')

/-- The first message that is read from a handle is `s`. -/
def FirstMessage {V : Type} (h : CommunicationHandle V) (v : V) (s : Bytes) : Prop :=
  ∃ n v₁ v₂, h.probe 0 true v = .ok (.ok (n + 1), s.length, v₁) ∧ h.receive s.length v₁ = .ok (.ok s.length, s, v₂)

/-- The proxy takes the connection for a point-to-point one, and the first message it reads from it is `s`. -/
def Introduces {V : Type} (garbage : Nat → UInt8) (h : CommunicationHandle V) (v : V) (s : Bytes) : Prop :=
  ∃ v₁, connectionHandshake garbage h v = .ok (.p2p, v₁) ∧ FirstMessage h v₁ s

/-! ### What the process sends -/

section

variable {W : Type} {m : Manager Nat W} {endpoint : W → Nat → Endpoint} {s q : Bytes} {w w' : W} {id : Nat}
  {u : HandleUser Nat}

/-- One more message is put out. -/
theorem Endpoint.Put.send {ms : List Bytes} {e : Endpoint} (h : e.Put ms) (bs : Bytes) :
    (e.send bs).2.Put (ms ++ [bs]) := by
  cases e with
  | tcp k =>
    obtain ⟨hfd, hmoves, hwire⟩ := h
    obtain ⟨as, has, hsend⟩ := HandleTCP.send_moved hfd hmoves bs
    show Endpoint.Put _ (tcp (k.send bs).2)
    rw [hsend]
    refine ⟨hfd, has, ?_⟩
    rw [hwire, List.flatMap_append, List.flatMap_singleton]
    rfl
  | ucx k =>
    show k.wire ++ _ = _
    rw [show k.wire = _ from h, List.flatMap_append, List.flatMap_singleton]
    rfl
  | mqtt k =>
    show k.published ++ _ = _
    rw [show k.published = _ from h, List.flatMap_append, List.flatMap_singleton]
  | mpip2p k =>
    show k.posted ++ _ = _
    rw [show k.posted = _ from h, List.flatMap_append, List.flatMap_singleton]

/-- A process that asks a proxy puts out the string and then the flag. -/
theorem connect_asks (hm : m.OverEndpoints endpoint) (ha : m.Asks s q) (hc : m.connect s w = .ok (u, w'))
    (hu : u.realHandle = some id) : (endpoint w' id).Put [s, Words.toLE sizeofInt 0] := by
  unfold Manager.connect at hc
  obtain ⟨⟨h, w₁⟩, hhandle, hc⟩ := bind_eq_ok.1 hc
  cases h with
  | none =>
    cases hc
    cases hu
  | some id₁ =>
    obtain ⟨a, -, w₀, w₁, r₀, hto, hstring⟩ := Manager.connectHandle_asked ha hhandle
    have hmade := hm.made hto
    obtain ⟨⟨r, w₂⟩, hflag, hc⟩ := bind_eq_ok.1 hc
    have hput := hmade.send s
    rw [hm.send hstring] at hput
    have hput := hput.send (Words.toLE sizeofInt 0)
    rw [hm.send hflag] at hput
    cases r with
    | error e =>
      cases hc
      cases hu
    | ok n =>
      obtain ⟨w₃, hinc, hc⟩ := bind_eq_ok.1 hc
      cases hc
      obtain rfl : id₁ = id := Option.some.inj hu
      exact hm.counts hinc hput

end

/-! ### What the proxy reads -/

private theorem handshake_p2p {V : Type} {garbage : Nat → UInt8} {h : CommunicationHandle V} {v v' : V}
    (he : connectionHandshake garbage h v = .ok (.p2p, v')) :
    ∃ n size v₁ k bs, h.probe 0 true v = .ok (.ok (n + 1), size, v₁) ∧
      h.receive sizeofInt v₁ = .ok (.ok (k + 1), bs, v') := by
  have hteam : ∀ {w w' : V}, readTeamID garbage h w ≠ .ok (.p2p, w') := by
    intro w w' ht
    unfold readTeamID at ht
    obtain ⟨⟨r, size, w₁⟩, -, ht⟩ := bind_eq_ok.1 ht
    rcases r with e | _ | n
    · cases ht
    · cases ht
    · by_cases hmax : maxTeamID < size
      · dsimp only at ht
        rw [if_pos hmax] at ht
        cases ht
      · dsimp only at ht
        rw [if_neg hmax] at ht
        obtain ⟨⟨r, bs, w₂⟩, -, ht⟩ := bind_eq_ok.1 ht
        rcases r with e | _ | n <;> cases ht
  unfold connectionHandshake at he
  obtain ⟨⟨r, size, v₁⟩, hprobe, he⟩ := bind_eq_ok.1 he
  rcases r with e | _ | n
  · cases he
  · cases he
  · obtain ⟨⟨r, bs, v₂⟩, hreceive, he⟩ := bind_eq_ok.1 he
    rcases r with e | _ | k
    · cases he
    · cases he
    · dsimp only at he
      by_cases hint : intOf bs = 0
      · rw [if_pos hint] at he
        cases he
        exact ⟨n, size, v₁, k, bs, hprobe, hreceive⟩
      · rw [if_neg hint] at he
        exact absurd he hteam

/-- A list is not shifted by appending something without `a` to it, when `a` is in it. -/
private theorem append_ne {α : Type} [DecidableEq α] {a : α} {s f g : List α} (hs : a ∈ s) (hf : a ∉ f) (hg : g ≠ []) :
    s ++ f ≠ g ++ s := by
  intro h
  have hcount := congrArg (List.count a) h
  rw [List.count_append, List.count_append, List.count_eq_zero_of_not_mem hf] at hcount
  have hnone : a ∉ g := List.count_eq_zero.1 (by omega)
  have hidx := congrArg (List.idxOf a) h
  rw [List.idxOf_append_of_mem hs, List.idxOf_append_of_notMem hnone] at hidx
  have hpos := List.length_pos_iff.2 hg
  omega

/-- The flag of a point-to-point connection. -/
private abbrev flag : Bytes := Words.toLE sizeofInt 0

/-- Of a stream with the frames of `s` and of the flag, nobody gets `s` behind a header, an `int` and another header. -/
private theorem not_shifted {s more c : Bytes} (hs : colon ∈ s) (hc : c = frame s ++ (frame flag ++ more)) :
    s ≠ (((c.drop sizeofSizeT).drop sizeofInt).drop sizeofSizeT).take s.length := by
  intro hbs
  have h4 : sizeofInt = 4 := rfl
  have h8 : sizeofSizeT = 8 := rfl
  have hflag : colon ∉ frame flag := by decide
  have hframe : (frame flag).length = sizeofInt + sizeofSizeT := by decide
  -- the bytes from the payload of `s` on
  have hdrop : c.drop sizeofSizeT = (s ++ frame flag) ++ more := by
    rw [hc, frame, List.append_assoc, List.append_assoc, List.drop_left' (Words.length_toBE _ _)]
  rw [hdrop, List.drop_drop, ← hframe] at hbs
  have hlen : (frame flag).length ≤ (s ++ frame flag).length := by
    rw [List.length_append]
    omega
  have hrest : ((s ++ frame flag).drop (frame flag).length).length = s.length := by
    rw [List.length_drop, List.length_append]
    omega
  rw [List.drop_append_of_le_length hlen, ← hrest, List.take_left'  rfl] at hbs
  have hsplit := List.take_append_drop (frame flag).length (s ++ frame flag)
  rw [← hbs] at hsplit
  refine append_ne hs hflag ?_ hsplit.symm
  intro hnil
  have := congrArg List.length hnil
  rw [List.length_take, Nat.min_eq_left hlen, hframe, List.length_nil] at this
  omega

section

variable {garbage : Nat → UInt8} {c : Bytes} {size size' n : Nat} {r : Ret} {bs : Bytes}

private theorem tcp_probe {k k' : HandleTCP} (hfd : k.fd ≠ none) (hd : Delivers k.incoming (loose c))
    (hc : sizeofSizeT ≤ c.length) (he : k.probe garbage size true = .ok (r, size', k')) :
    size' = Words.ofBE (c.take sizeofSizeT) ∧ k'.fd ≠ none ∧ Delivers k'.incoming (loose (c.drop sizeofSizeT)) := by
  have ha : Arrives true k.incoming (c.take sizeofSizeT ++ c.drop sizeofSizeT) := by
    rw [List.take_append_drop]
    exact ⟨hd, fun e => by cases e⟩
  obtain ⟨s, hread, hs⟩ := ha.readn
  have hlen : (c.take sizeofSizeT).length = sizeofSizeT := by rw [List.length_take, Nat.min_eq_left hc]
  have hover := overlay_full garbage (c.take sizeofSizeT)
  rw [hlen] at hread hover
  rw [HandleTCP.probe_blocking hfd, hread] at he
  dsimp only at he
  rw [hover] at he
  cases he
  exact ⟨rfl, hfd, hs.1⟩

private theorem tcp_receive {k k' : HandleTCP} (hfd : k.fd ≠ none) (hd : Delivers k.incoming (loose c))
    (hc : n ≤ c.length)
    (he : k.receive n = .ok (r, bs, k')) : bs = c.take n ∧ k'.fd ≠ none ∧ Delivers k'.incoming (loose (c.drop n)) := by
  have ha : Arrives true k.incoming (c.take n ++ c.drop n) := by
    rw [List.take_append_drop]
    exact ⟨hd, fun e => by cases e⟩
  obtain ⟨s, hread, hs⟩ := ha.readn
  have hlen : (c.take n).length = n := by rw [List.length_take, Nat.min_eq_left hc]
  rw [hlen] at hread
  rw [HandleTCP.receive_socket hfd, hread] at he
  cases he
  exact ⟨rfl, hfd, hs.1⟩

private theorem ucx_probe {k k' : HandleUCX} (hk : k.request = none ∧ k.lastProbe = none) (hin : k.incoming = c)
    (hc : sizeofSizeT ≤ c.length) (he : k.probe size true = .ok (r, size', k')) :
    size' = Words.ofBE (c.take sizeofSizeT) ∧ (size' ≠ 0 → k'.request = none ∧ k'.incoming = c.drop sizeofSizeT) := by
  have hreceive : k.receiveInternal sizeofSizeT true = .ok (.ok sizeofSizeT, c.take sizeofSizeT,
      { k with request := none, incoming := c.drop sizeofSizeT }) := by
    unfold HandleUCX.receiveInternal
    dsimp only
    rw [hk.1, hin, Option.getD_none, if_pos hc]
  unfold HandleUCX.probe at he
  rw [hk.2] at he
  dsimp only at he
  rw [hreceive, bind_ok] at he
  dsimp only at he
  by_cases hzero : Words.ofBE (c.take sizeofSizeT) = 0
  · rw [if_pos hzero] at he
    obtain ⟨x, -, he⟩ := bind_eq_ok.1 he
    cases he
    exact ⟨rfl, fun hsize => absurd hzero hsize⟩
  · rw [if_neg hzero] at he
    cases he
    exact ⟨rfl, fun _ => ⟨rfl, rfl⟩⟩

private theorem ucx_receive {k k' : HandleUCX} (hk : k.request = none) (hin : k.incoming = c) (hc : n ≤ c.length)
    (he : k.receive n = .ok (r, bs, k')) :
    bs = c.take n ∧ (k'.request = none ∧ k'.lastProbe = none) ∧ k'.incoming = c.drop n := by
  have hreceive : k.receiveInternal n true =
      .ok (.ok n, c.take n, { k with request := none, incoming := c.drop n }) := by
    unfold HandleUCX.receiveInternal
    dsimp only
    rw [hk, hin, Option.getD_none, if_pos hc]
  unfold HandleUCX.receive at he
  rw [hreceive, bind_ok, hk] at he
  cases he
  exact ⟨rfl, ⟨rfl, rfl⟩, rfl⟩

/-- The three reads of the proxy, on an endpoint: a header, the flag, and a message `s` with its header. -/
private def Reads3 (s : Bytes) (e : Endpoint) : Prop :=
  ∃ garbage n size e₁ k bs e₂ garbage' l e₃ e₄, e.probe garbage 0 true = .ok (.ok (n + 1), size, e₁) ∧
    e₁.receive sizeofInt = .ok (.ok (k + 1), bs, e₂) ∧ e₂.probe garbage' 0 true = .ok (.ok (l + 1), s.length, e₃) ∧
    e₃.receive s.length = .ok (.ok s.length, s, e₄)

/-- The reads of the proxy, on an endpoint of one kind, are reads of its handle. -/
private theorem Reads3.handle {K : Type} {k : K} {s : Bytes} (make : K → Endpoint)
    (probe : (Nat → UInt8) → K → Except Stop (Ret × Nat × K)) (receive : Nat → K → Except Stop (Ret × Bytes × K))
    (hprobe : ∀ g k, (make k).probe g 0 true = probe g k >>= fun x => .ok (x.1, x.2.1, make x.2.2))
    (hreceive : ∀ n k, (make k).receive n = receive n k >>= fun x => .ok (x.1, x.2.1, make x.2.2))
    (h : Reads3 s (make k)) :
    ∃ garbage n size k₁ j bs k₂ garbage' l k₃ k₄, probe garbage k = .ok (.ok (n + 1), size, k₁) ∧
      receive sizeofInt k₁ = .ok (.ok (j + 1), bs, k₂) ∧ probe garbage' k₂ = .ok (.ok (l + 1), s.length, k₃) ∧
      receive s.length k₃ = .ok (.ok s.length, s, k₄) := by
  obtain ⟨g, n, _, e₁, j, _, e₂, g', l, e₃, e₄, h1, h2, h3, h4⟩ := h
  rw [hprobe] at h1
  obtain ⟨⟨_, _, k₁⟩, hp1, h1⟩ := bind_eq_ok.1 h1
  cases h1
  rw [hreceive] at h2
  obtain ⟨⟨_, _, k₂⟩, hr1, h2⟩ := bind_eq_ok.1 h2
  cases h2
  rw [hprobe] at h3
  obtain ⟨⟨_, _, k₃⟩, hp2, h3⟩ := bind_eq_ok.1 h3
  cases h3
  rw [hreceive] at h4
  obtain ⟨⟨_, _, k₄⟩, hr2, h4⟩ := bind_eq_ok.1 h4
  dsimp only at h4
  cases h4
  exact ⟨g, n, _, k₁, j, _, k₂, g', l, k₃, k₄, hp1, hr1, hp2, hr2⟩

/-- A stream with the frames of `s` and of the flag is long enough for the reads of the proxy. -/
private theorem length_frames (s more : Bytes) :
    (frame s ++ (frame flag ++ more)).length = s.length + 20 + more.length := by
  unfold frame
  rw [List.length_append, List.length_append, List.length_append, List.length_append, Words.length_toBE,
    Words.length_toBE, Words.length_toLE]
  have h4 : sizeofInt = 4 := rfl
  have h8 : sizeofSizeT = 8 := rfl
  omega

private theorem tcp_never {k : HandleTCP} {s more : Bytes} (hs : colon ∈ s) (hfd : k.fd ≠ none)
    (hd : Delivers k.incoming (loose (frame s ++ (frame flag ++ more)))) : ¬ Reads3 s (.tcp k) := by
  intro hreads
  obtain ⟨g, n, size, k₁, j, bs, k₂, g', l, k₃, k₄, hp1, hr1, hp2, hr2⟩ :=
    hreads.handle .tcp (fun g k => k.probe g 0 true) (fun n k => k.receive n) (fun _ _ => rfl) fun _ _ => rfl
  have hlen := length_frames s more
  have hlen4 : sizeofInt = 4 := rfl
  have hlen8 : sizeofSizeT = 8 := rfl
  generalize hc : frame s ++ (frame flag ++ more) = c at hd hlen
  obtain ⟨-, hfd1, hd1⟩ := tcp_probe hfd hd (by omega) hp1
  obtain ⟨-, hfd2, hd2⟩ := tcp_receive hfd1 hd1 (by rw [List.length_drop]; omega) hr1
  obtain ⟨-, hfd3, hd3⟩ := tcp_probe hfd2 hd2 (by rw [List.length_drop, List.length_drop]; omega) hp2
  obtain ⟨hbs, -, -⟩ := tcp_receive hfd3 hd3 (by rw [List.length_drop, List.length_drop, List.length_drop]; omega) hr2
  exact not_shifted hs hc.symm hbs

private theorem ucx_never {k : HandleUCX} {s more : Bytes} (hs : colon ∈ s) (hbound : s.length < 2 ^ 63)
    (hk : k.request = none ∧ k.lastProbe = none) (hin : k.incoming = frame s ++ (frame flag ++ more)) :
    ¬ Reads3 s (.ucx k) := by
  intro hreads
  obtain ⟨g, n, size, k₁, j, bs, k₂, g', l, k₃, k₄, hp1, hr1, hp2, hr2⟩ :=
    hreads.handle .ucx (fun _ k => k.probe 0 true) (fun n k => k.receive n) (fun _ _ => rfl) fun _ _ => rfl
  have hlen := length_frames s more
  have hlen4 : sizeofInt = 4 := rfl
  have hlen8 : sizeofSizeT = 8 := rfl
  have hpos : s.length ≠ 0 := by
    intro h0
    rw [List.length_eq_zero_iff.1 h0] at hs
    cases hs
  have hheader : Words.ofBE ((frame s ++ (frame flag ++ more)).take sizeofSizeT) = s.length := by
    rw [frame, List.append_assoc, List.take_left' (Words.length_toBE _ _),
      Words.ofBE_toBE (Nat.lt_trans hbound (by decide))]
  generalize hc : frame s ++ (frame flag ++ more) = c at hin hlen hheader
  obtain ⟨hsize, hk1⟩ := ucx_probe hk hin (by omega) hp1
  obtain ⟨hk1, hin1⟩ := hk1 (by rw [hsize, hheader]; exact hpos)
  obtain ⟨-, hk2, hin2⟩ := ucx_receive hk1 hin1 (by rw [List.length_drop]; omega) hr1
  obtain ⟨-, hk3⟩ := ucx_probe hk2 hin2 (by rw [List.length_drop, List.length_drop]; omega) hp2
  obtain ⟨hk3, hin3⟩ := hk3 hpos
  obtain ⟨hbs, -, -⟩ := ucx_receive hk3 hin3 (by rw [List.length_drop, List.length_drop, List.length_drop]; omega) hr2
  exact not_shifted hs hc.symm hbs

private theorem mqtt_receive {k k' : HandleMQTT} {p : Bytes} {client : List (Bytes × Bytes)} (hk : k.messages = [])
    (hin : k.client = (k.inTopic, p) :: client) (he : k.receive n = .ok (r, bs, k')) :
    bs = (p ++ [0]).take n ∧ k' = { k with isProbed := false, client := client } := by
  unfold HandleMQTT.receive at he
  dsimp only at he
  rw [hk, hin] at he
  dsimp only at he
  obtain ⟨⟨bs', client'⟩, hloop, he⟩ := bind_eq_ok.1 he
  cases he
  unfold HandleMQTT.receiveLoop at hloop
  rw [if_pos rfl] at hloop
  obtain ⟨bs', hread, hloop⟩ := bind_eq_ok.1 hloop
  cases hloop
  unfold fromCStr at hread
  by_cases hle : n ≤ p.length + 1
  · rw [if_pos hle] at hread
    cases hread
    rw [hk]
    exact ⟨rfl, rfl⟩
  · rw [if_neg hle] at hread
    cases hread

private theorem mqtt_probe {k k' : HandleMQTT} {p : Bytes} {client : List (Bytes × Bytes)} (hp : p.length = sizeofSizeT)
    (hk : k.isProbed = false ∧ k.messages = []) (hin : k.client = (k.inTopic, p) :: client)
    (he : k.probe garbage size true = .ok (r, size', k')) :
    size' = Words.ofBE p ∧ k' = { k with isProbed := true, client := client } := by
  unfold HandleMQTT.probe at he
  rw [hk.1, if_neg Bool.false_ne_true, if_pos rfl] at he
  obtain ⟨⟨r', bs, k₁⟩, hreceive, he⟩ := bind_eq_ok.1 he
  obtain ⟨rfl, rfl⟩ := mqtt_receive hk.2 hin hreceive
  cases he
  have hover := overlay_full garbage p
  rw [hp] at hover
  rw [← hp, List.take_left' rfl, hp, hover]
  exact ⟨rfl, rfl⟩

/-- The message behind the one that is taken for the flag is the flag, which is not `s`. -/
private theorem flag_ne {s : Bytes} (hs : colon ∈ s) : flag ≠ s := by
  intro h
  have hnone : colon ∉ flag := by decide
  exact hnone (h ▸ hs)

private theorem mqtt_never {k : HandleMQTT} {s : Bytes} {more : List Bytes} (hs : colon ∈ s)
    (hk : k.isProbed = false ∧ k.messages = [])
    (hin : k.client = ([Words.toBE sizeofSizeT s.length, s, Words.toBE sizeofSizeT flag.length, flag] ++ more).map
      fun m => (k.inTopic, m)) : ¬ Reads3 s (.mqtt k) := by
  intro hreads
  obtain ⟨g, n, size, k₁, j, bs, k₂, g', l, k₃, k₄, hp1, hr1, hp2, hr2⟩ :=
    hreads.handle .mqtt (fun g k => k.probe g 0 true) (fun n k => k.receive n) (fun _ _ => rfl) fun _ _ => rfl
  obtain ⟨-, rfl⟩ := mqtt_probe (Words.length_toBE _ _) hk hin hp1
  obtain ⟨-, rfl⟩ := mqtt_receive (by exact hk.2) (by rfl) hr1
  obtain ⟨hsize, rfl⟩ := mqtt_probe (Words.length_toBE _ _) (by exact ⟨rfl, hk.2⟩) (by rfl) hp2
  obtain ⟨hbs, -⟩ := mqtt_receive (by exact hk.2) (by rfl) hr2
  have hlen : s.length = flag.length := hsize.trans (by decide)
  rw [hlen, List.take_left' rfl] at hbs
  exact flag_ne hs hbs.symm

private theorem mpip2p_receive {k k' : HandleMPIP2P} {p : Bytes} {ms : List Bytes} {j : Nat}
    (hin : k.incoming = p :: ms) (he : k.receive n = .ok (.ok j, bs, k')) :
    bs = p ∧ k' = { k with incoming := ms } := by
  unfold HandleMPIP2P.receive at he
  rw [hin] at he
  dsimp only at he
  by_cases hle : p.length ≤ n
  · rw [if_pos hle] at he
    cases he
    exact ⟨rfl, rfl⟩
  · rw [if_neg hle] at he
    cases he

private theorem mpip2p_probe {k k' : HandleMPIP2P} {p : Bytes} {ms : List Bytes} (hp : p.length = sizeofSizeT)
    (hin : k.incoming = p :: ms) (he : k.probe garbage size true = .ok (r, size', k')) :
    size' = Words.ofLE p ∧ k' = { k with incoming := ms } := by
  unfold HandleMPIP2P.probe at he
  rw [hin] at he
  dsimp only at he
  have hover := overlay_full garbage p
  rw [hp] at hover
  rw [if_pos hp.le, hover] at he
  cases he
  exact ⟨rfl, rfl⟩

private theorem mpip2p_never {k : HandleMPIP2P} {s : Bytes} {more : List Bytes} (hs : colon ∈ s)
    (hin : k.incoming = [Words.toLE sizeofSizeT s.length, s, Words.toLE sizeofSizeT flag.length, flag] ++ more) :
    ¬ Reads3 s (.mpip2p k) := by
  intro hreads
  obtain ⟨g, n, size, k₁, j, bs, k₂, g', l, k₃, k₄, hp1, hr1, hp2, hr2⟩ :=
    hreads.handle .mpip2p (fun g k => k.probe g 0 true) (fun n k => k.receive n) (fun _ _ => rfl) fun _ _ => rfl
  obtain ⟨-, rfl⟩ := mpip2p_probe (Words.length_toLE _ _) hin hp1
  obtain ⟨-, rfl⟩ := mpip2p_receive rfl hr1
  obtain ⟨-, rfl⟩ := mpip2p_probe (Words.length_toLE _ _) rfl hp2
  obtain ⟨hbs, -⟩ := mpip2p_receive rfl hr2
  exact flag_ne hs hbs.symm

end

/-! ### Processes with endpoints -/

/-- The handles of a process whose connectors are those of TCP. -/
theorem Manager.OverTcp.overEndpoints {m : Manager Nat Process} (hm : m.OverTcp) :
    m.OverEndpoints fun p id => .tcp (p.handles id) where
  made he := by
    obtain ⟨hw, hwire⟩ := hm.made he
    exact ⟨hw.live.fd, hw.moves, hwire⟩
  send he := by
    rw [hm.vt] at he
    obtain ⟨k, hk, he⟩ := bind_eq_ok.1 he
    cases he
    obtain ⟨-, -, rfl⟩ := Process.deref_eq_ok.1 hk
    show Endpoint.tcp _ = Endpoint.tcp _
    rw [Process.put_handles_self]
  counts he hput := by
    rw [hm.vt] at he
    obtain ⟨k, hk, he⟩ := bind_eq_ok.1 he
    cases he
    obtain ⟨-, -, rfl⟩ := Process.deref_eq_ok.1 hk
    show Endpoint.Put _ (.tcp _)
    rw [Process.put_handles_self]
    exact hput

/-- A handle of a process over TCP. -/
theorem tcp_views (id : Nat) : Views (tcpHandle id) fun p => .tcp (p.handles id) where
  probe {size blocking p r size' p'} he := by
    obtain ⟨k, hk, he⟩ := bind_eq_ok.1 he
    obtain ⟨-, -, rfl⟩ := Process.deref_eq_ok.1 hk
    obtain ⟨⟨r', size₁, k'⟩, hprobe, he⟩ := bind_eq_ok.1 he
    cases he
    refine ⟨p.garbage, ?_⟩
    change ((p.handles id).probe p.garbage size blocking >>= _) = _
    rw [hprobe, Process.put_handles_self]
    rfl
  receive {size p r bs p'} he := by
    obtain ⟨k, hk, he⟩ := bind_eq_ok.1 he
    obtain ⟨-, -, rfl⟩ := Process.deref_eq_ok.1 hk
    obtain ⟨⟨r', bs', k'⟩, hreceive, he⟩ := bind_eq_ok.1 he
    cases he
    change ((p.handles id).receive size >>= _) = _
    rw [hreceive, Process.put_handles_self]
    rfl

/-- A handle over MQTT. -/
theorem mqtt_views (garbage : Nat → UInt8) : Views (mqttHandle garbage) .mqtt where
  probe {size blocking h r size' h'} he := by
    obtain ⟨k, hk, he⟩ := bind_eq_ok.1 he
    obtain rfl : h = k := HandleMQTT.eq_of_deref hk
    refine ⟨garbage, ?_⟩
    change (h.probe garbage size blocking >>= _) = _
    rw [he]
    rfl
  receive {size h r bs h'} he := by
    obtain ⟨k, hk, he⟩ := bind_eq_ok.1 he
    obtain rfl : h = k := HandleMQTT.eq_of_deref hk
    change (h.receive size >>= _) = _
    rw [he]
    rfl

/-! ### The two together -/

/-- The string that a proxy is asked with is never the first message of a point-to-point connection. -/
theorem proxied_never {W V : Type} {m : Manager Nat W} {endpoint : W → Nat → Endpoint} (hm : m.OverEndpoints endpoint)
    {s q : Bytes} (ha : m.Asks s q) (hbound : s.length < 2 ^ 63) {w w' : W} {u : HandleUser Nat} {id : Nat}
    (hc : m.connect s w = .ok (u, w')) (hu : u.realHandle = some id) {garbage : Nat → UInt8} {h : CommunicationHandle V}
    {view : V → Endpoint} (hv : Views h view) {v : V} (haccept : (endpoint w' id).Accepts (view v)) :
    ¬ Introduces garbage h v s := by
  have hs : colon ∈ s := by
    by_contra hno
    exact ha.1 (if_neg hno)
  rintro ⟨v₁, hshake, l, v₂, v₃, hprobe, hreceive⟩
  obtain ⟨n, size, v₀, k, bs, hprobe₀, hreceive₀⟩ := handshake_p2p hshake
  obtain ⟨g, hp₀⟩ := hv.probe hprobe₀
  obtain ⟨g', hp₁⟩ := hv.probe hprobe
  have hreads : Reads3 s (view v) :=
    ⟨g, n, size, _, k, bs, _, g', l, _, _, hp₀, hv.receive hreceive₀, hp₁, hv.receive hreceive⟩
  have hput := connect_asks hm ha hc hu
  have hstream : [s, flag].flatMap frame = frame s ++ frame flag := by simp
  generalize endpoint w' id = e at haccept hput
  generalize view v = e' at haccept hreads
  cases e with
  | tcp k =>
    cases e' with
    | tcp k' =>
      obtain ⟨hfd, more, hd⟩ := haccept
      rw [hput.2.2, hstream, List.append_assoc] at hd
      exact tcp_never hs hfd hd hreads
    | ucx k' => exact haccept
    | mqtt k' => exact haccept
    | mpip2p k' => exact haccept
  | ucx k =>
    cases e' with
    | tcp k' => exact haccept
    | ucx k' =>
      obtain ⟨hrequest, hprobed, more, hin⟩ := haccept
      rw [show k.wire = _ from hput, hstream, List.append_assoc] at hin
      exact ucx_never hs hbound ⟨hrequest, hprobed⟩ hin hreads
    | mqtt k' => exact haccept
    | mpip2p k' => exact haccept
  | mqtt k =>
    cases e' with
    | tcp k' => exact haccept
    | ucx k' => exact haccept
    | mqtt k' =>
      obtain ⟨hprobed, hmessages, more, hin⟩ := haccept
      rw [show k.published = _ from hput] at hin
      exact mqtt_never hs ⟨hprobed, hmessages⟩ hin hreads
    | mpip2p k' => exact haccept
  | mpip2p k =>
    cases e' with
    | tcp k' => exact haccept
    | ucx k' => exact haccept
    | mqtt k' => exact haccept
    | mpip2p k' =>
      obtain ⟨more, hin⟩ := haccept
      rw [show k.posted = _ from hput] at hin
      exact mpip2p_never hs hin hreads

section

/-- A process outside the pools, which asks the proxy of `P` for the component `b`. -/
private def asking : Manager Nat Process where
  poolName := []
  components name := if name = literal ['b'] then some ⟨literal ['P', ':', 'h'], [], []⟩ else none
  pools _ := [literal ['x']]
  registered _ := true
  connectTo _ _ p := .ok (p.connect (some ⟨4, [], []⟩))
  vt := tcpHandle

private def toB : Bytes := literal ['T', 'C', 'P', ':', 'b']

/-- The proxy, which has accepted a connection on which these bytes come. -/
private def accepting (bs : Bytes) : Process := Process.newHandle {} ⟨5, Arrivals.putBack bs [], []⟩

private theorem asking_overTcp : asking.OverTcp := by
  refine ⟨rfl, fun protocol address p => ⟨_, rfl, ?_⟩⟩
  intro k hk
  obtain rfl := Option.some.inj hk
  intro a ha
  cases ha

/-- The proxy gives the connection up, as what it takes for the size of the name of a team is too large. -/
theorem proxied_fails :
    asking.Asks toB (literal ['P']) ∧ (∃ p, asking.connect toB {} = .ok (⟨some 0, true, true⟩, p) ∧
      (p.handles 0).wire = frame toB ++ frame (Words.toLE sizeofInt 0)) ∧
    (connectionHandshake (fun _ => 0) (tcpHandle 0) (accepting (frame toB ++ frame (Words.toLE sizeofInt 0)))).map
      Prod.fst = .ok .failed := by
  refine ⟨⟨by decide, ⟨literal ['P', ':', 'h'], [], []⟩, by decide, by decide, by decide, by decide⟩,
    ⟨_, rfl, by decide⟩, ?_⟩
  decide +kernel

theorem proxied_never_run :
    ¬ Introduces (fun _ => 0) (tcpHandle 0) (accepting (frame toB ++ frame (Words.toLE sizeofInt 0))) toB := by
  have hasks : asking.Asks toB (literal ['P']) :=
    ⟨by decide, ⟨literal ['P', ':', 'h'], [], []⟩, by decide, by decide, by decide, by decide⟩
  refine proxied_never asking_overTcp.overEndpoints hasks (by decide) (w := {}) rfl rfl (tcp_views 0)
    (v := accepting (frame toB ++ frame (Words.toLE sizeofInt 0))) ?_
  exact ⟨by decide, [], delivers_lead (Arrivals.putBack (frame toB ++ frame (Words.toLE sizeofInt 0)) [])⟩

end

end Mtcl
