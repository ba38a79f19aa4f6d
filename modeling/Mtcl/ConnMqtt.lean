import Mtcl.Base.Broker
import Mtcl.Config
import Mtcl.MqttReader

/-!
# The connector over a broker

Processes that run `ConnMQTT` meet at a broker.  `connect` makes up a topic of its own, subscribes to it with
the suffix `-out`, publishes it where the other process listens, and waits for `ack`; `update` of the other
process subscribes to the topic with the suffix `-in` and answers.  Each side publishes where the other one has
subscribed.

The broker and its clients are a parameter.  `Mqtt` is the state of all the processes and of the broker.  A
handle has beside its members the process that owns it, the topic of its connection, and whether `connect` has
made it.
-/

namespace Mtcl

/-- `MQTT_OUT_SUFFIX`. -/
def mqttOutSuffix : Bytes := literal ['-', 'o', 'u', 't']

/-- `MQTT_IN_SUFFIX`. -/
def mqttInSuffix : Bytes := literal ['-', 'i', 'n']

/-- `MQTT_CONNECTION_TOPIC`. -/
def mqttConnectionTopic : Bytes := literal ['-', 'n', 'e', 'w', '_', 'c', 'o', 'n', 'n', 'e', 'c', 't', 'i', 'o', 'n']

/-- What `update` answers to a request. -/
def mqttAck : Bytes := literal ['a', 'c', 'k']

/-! ### Calls through a handle -/

/-- A virtual function of a handle; `step` is one step of `HandleMQTT::receive`, for a call that waits. -/
inductive MqttCall
  | send (buff : Bytes)
  | receive (size : Nat)
  | step (size : Nat) (p : Point)
  | probe (size : Nat) (blocking : Bool)
  | yield
  | close (closeWr closeRd : Bool)
  | incrementReferenceCounter
  | decrementReferenceCounter

/-- The handle behind a call that returns. -/
def HandleMQTT.exec (garbage : Nat → UInt8) (h : HandleMQTT) : MqttCall → Except Stop HandleMQTT
  | .send buff => ((mqttHandle garbage).send buff h).map Prod.snd
  | .receive size => ((mqttHandle garbage).receive size h).map fun x => x.2.2
  | .step size p => do
    let h ← h.deref
    let (_, h) ← h.receiveStep size p
    return h
  | .probe size blocking => ((mqttHandle garbage).probe size blocking h).map fun x => x.2.2
  | .yield => (mqttHandle garbage).yield h
  | .close closeWr closeRd => (mqttHandle garbage).close closeWr closeRd h
  | .incrementReferenceCounter => (mqttHandle garbage).incrementReferenceCounter h
  | .decrementReferenceCounter => (mqttHandle garbage).decrementReferenceCounter h

/-! ### The processes -/

/-- Where a handle stands: its process, the identifier of its client, and `out_topic`. -/
structure MqttEnd where
  owner : Nat := 0
  client : Bytes := []
  outTopic : Bytes := []
  topic : Bytes := []
  connects : Bool := false
  deriving DecidableEq, Repr

/-- The processes and the broker.  `pending` are the calls of `connect` that wait for `ack`, each with its
process and its topic. -/
structure Mqtt {β : Type} (X : Exchange β Bytes Bytes Bytes) where
  size : Nat
  appName : Nat → Bytes := fun _ => []
  count : Nat → Nat := fun _ => 0
  newConnectionTopic : Nat → Bytes := fun _ => []
  pending : List (Nat × Bytes) := []
  broker : Broker X
  handles : Nat → HandleMQTT := fun _ => {}
  ends : Nat → MqttEnd := fun _ => {}
  allocated : Nat := 0

namespace Mqtt

variable {β : Type} {X : Exchange β Bytes Bytes Bytes}

/-- `ConnMQTT::init`; the client of the process has the name of the application as its identifier. -/
def init (w : Mqtt X) (p : Nat) (s : Bytes) : Except Errno Unit × Mqtt X :=
  let appName := s ++ literal [':']
  let (present, broker) := w.broker.connect appName true
  (if present then .error .ECOMM else .ok (), { w with
    appName := Function.update w.appName p appName
    broker := broker })

/-- `ConnMQTT::listen`. -/
def listen (w : Mqtt X) (p : Nat) (s : Bytes) : Except Errno Unit × Mqtt X :=
  let managerName := afterColon s
  if managerName = [] then (.error .EINVAL, w)
  else
    let topic := managerName ++ mqttConnectionTopic
    (.ok (), { w with
      newConnectionTopic := Function.update w.newConnectionTopic p topic
      broker := w.broker.subscribe (w.appName p) topic })

/-- A new handle. -/
def newHandle (w : Mqtt X) (h : HandleMQTT) (e : MqttEnd) : Mqtt X :=
  { w with
    handles := Function.update w.handles w.allocated h
    ends := Function.update w.ends w.allocated e
    allocated := w.allocated + 1 }

/-- `ConnMQTT::connect` up to `consume_message`; `count` is a `size_t`. -/
def connect (w : Mqtt X) (p : Nat) (address : Bytes) : Except Errno Bytes × Mqtt X :=
  let managerId := beforeColon address
  if managerId = [] then (.error .EINVAL, w)
  else
    let topic := w.appName p ++ literal (Nat.toDigits 10 (w.count p))
    let broker := (w.broker.connect topic true).2
    let broker := broker.subscribe topic (topic ++ mqttOutSuffix)
    let broker := broker.publish (managerId ++ mqttConnectionTopic) topic
    (.ok topic, { w with
      count := Function.update w.count p ((w.count p + 1) % 2 ^ 64)
      broker := broker
      pending := w.pending ++ [(p, topic)] })

/-- The end of `ConnMQTT::connect`, from `consume_message` on, which takes whatever comes first. -/
def connected (w : Mqtt X) (p : Nat) (topic : Bytes) : Except Stop (Nat × Mqtt X) :=
  match w.broker.queue topic with
  | [] => .error .blocked
  | _ :: _ =>
    let w := { w with
      broker := w.broker.consume topic
      pending := w.pending.erase (p, topic) }
    .ok (w.allocated, w.newHandle { inTopic := topic ++ mqttOutSuffix }
      { owner := p, client := topic, outTopic := topic ++ mqttInSuffix, topic := topic, connects := true })

/-- `ConnMQTT::createClient`. -/
def createClient (b : Broker X) (topic : Bytes) : Broker X :=
  let (present, b) := b.connect topic false
  if present then b else b.subscribe topic topic

/-- The first half of `ConnMQTT::update`. -/
def accept (w : Mqtt X) (p : Nat) : Mqtt X :=
  match w.broker.queue (w.appName p) with
  | [] => w
  | (topic, payload) :: _ =>
    let broker := w.broker.consume (w.appName p)
    if topic = w.newConnectionTopic p then
      let broker := createClient broker (payload ++ mqttInSuffix)
      let broker := broker.publish (payload ++ mqttOutSuffix) mqttAck
      { w with broker := broker }.newHandle { inTopic := payload ++ mqttInSuffix, ready := 1 }
        { owner := p, client := payload ++ mqttInSuffix, outTopic := payload ++ mqttOutSuffix, topic := payload }
    else { w with broker := broker }

/-- The handle, with the messages that have come to its client: the first `n` of those that the broker has for it. -/
def load (w : Mqtt X) (i n : Nat) : HandleMQTT :=
  { w.handles i with client := (w.broker.queue (w.ends i).client).take n }

/-- The state in which the handle has become `h`: its client has consumed what is not there any more, and what
has been published goes to the broker. -/
def store (w : Mqtt X) (i n : Nat) (h : HandleMQTT) : Mqtt X :=
  let e := w.ends i
  let broker := w.broker.take e.client ((w.load i n).client.length - h.client.length)
  { w with
    handles := Function.update w.handles i h
    broker := broker.publishAll e.outTopic (h.published.drop (w.handles i).published.length) }

/-- The second half of `ConnMQTT::update`, for one entry of `connections`. -/
def pollEntry (p : Nat) (come : Nat → Nat) (w : Mqtt X) (i : Nat) : Mqtt X :=
  if (w.ends i).owner = p then w.store i (come i) (w.load i (come i)).update else w

/-- `ConnMQTT::update` of the process `p`.  A message that has been published need not have come: `asked` says
whether there is one for `newConnClient`, and `come` how many have come to the client of a handle. -/
def update (w : Mqtt X) (p : Nat) (asked : Bool) (come : Nat → Nat) : Mqtt X :=
  let w := if asked then w.accept p else w
  (List.range w.allocated).foldl (pollEntry p come) w

/-! ### Runs -/

/-- What a process does next; a handle is used by the process that owns it, and `n` messages have come to its client. -/
inductive Op
  | listen (p : Nat) (s : Bytes)
  | connect (p : Nat) (address : Bytes)
  | connected (p : Nat) (topic : Bytes)
  | update (p : Nat) (asked : Bool) (come : Nat → Nat)
  | call (i n : Nat) (c : MqttCall)

/-- The string is no filter with wildcards. -/
def Plain (s : Bytes) : Prop := UInt8.ofNat '+'.toNat ∉ s ∧ UInt8.ofNat '#'.toNat ∉ s

instance (s : Bytes) : Decidable (Plain s) := inferInstanceAs (Decidable (_ ∧ _))

/-- The process, the call and the handle exist, and the name of a topic can be published on. -/
def Possible (w : Mqtt X) : Op → Prop
  | .listen p s | .connect p s => p < w.size ∧ Plain s
  | .update p _ _ => p < w.size
  | .connected p topic => (p, topic) ∈ w.pending
  | .call i _ _ => i < w.allocated

/-- The state behind an operation that returns. -/
def exec (garbage : Nat → UInt8) (w : Mqtt X) : Op → Except Stop (Mqtt X)
  | .listen p s => .ok (w.listen p s).2
  | .connect p address => .ok (w.connect p address).2
  | .connected p topic => (w.connected p topic).map Prod.snd
  | .update p asked come => .ok (w.update p asked come)
  | .call i n c => ((w.load i n).exec garbage c).map (w.store i n)

/-- A step of the processes. -/
def Step (garbage : Nat → UInt8) (o : Op) (w w' : Mqtt X) : Prop := w.Possible o ∧ w.exec garbage o = .ok w'

/-- Every process has called `init`, at a broker in the state `b`. -/
def start (X : Exchange β Bytes Bytes Bytes) (b : β) (size : Nat) (names : Nat → Bytes) : Mqtt X :=
  (List.range size).foldl (fun w p => (w.init p (names p)).2) { size := size, broker := { state := b } }

/-- At the beginning there are processes with different names, and a broker without sessions. -/
def Starts (w : Mqtt X) : Prop :=
  ∃ b size names, X.fresh b ∧ (∀ p < size, Plain (names p)) ∧ (∀ p < size, ∀ q < size, names p = names q → p = q) ∧
    w = start X b size names

end Mqtt

end Mtcl
