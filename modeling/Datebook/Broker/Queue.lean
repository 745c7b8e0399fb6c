import Datebook.Broker.Error
import Datebook.Notification

/-!
# The queue

A broker in one process: one queue with any number of producers and one receiving end, which the
first consumer to connect claims for good. A consumer that starts to consume gives the receiving
end to a delivery loop, which hands each message that decodes to a subscription. The loop stops
when it is cancelled, when the queue is empty and shut down, or when it has a notification for a
subscription that was dropped; then the receiving end is gone and nothing more can be sent.

`step` takes one action, of which one turn of the delivery loop is one.
-/

namespace Datebook

/-- A message, with the user it belongs to. -/
structure Message where
  key : String
  payload : Octets
  deriving DecidableEq

/-- Where the receiving end of the queue is. -/
inductive Receiver
  | free
  | claimed (consumer : String)
  | delivering (consumer : String) (subscription : Nat)
  | gone
  deriving DecidableEq

/-- Notifications handed over and not yet taken, and what has become of the two ends. -/
structure Subscription where
  waiting : List Notification
  isHeld : Bool
  isCancelled : Bool
  isEnded : Bool
  deriving DecidableEq

/-- The queue with its clients, who are known by their names. -/
structure Queue where
  isOpen : Bool
  messages : List Message
  receiver : Receiver
  producers : List String
  subscriptions : List Subscription
  deriving DecidableEq

namespace Queue

/-- What every producer of a queue is called. -/
def producerName : String := "memory-producer"

/-- What every consumer of a queue is called. -/
def consumerName : String := "memory-consumer"

def empty : Queue := ⟨true, [], .free, [], []⟩

/-- Changes a subscription. -/
def modify (q : Queue) (k : Nat) (f : Subscription → Subscription) : Queue :=
  { q with subscriptions := q.subscriptions.modify k f }

/-- Opens a producer's connection. -/
def connectProducer (q : Queue) (p : String) : Except BrokerError Unit × Queue :=
  if q.isOpen then (.ok (), { q with producers := p :: q.producers })
  else (.error (.unavailable "broker is shut down"), q)

def closeProducer (q : Queue) (p : String) : Queue :=
  { q with producers := q.producers.filter (· ≠ p) }

/-- Puts a message at the end of the queue, whoever it is from. -/
def publish (q : Queue) (m : Message) : Except BrokerError Unit × Queue :=
  if !q.isOpen then (.error (.send "broker is shut down"), q)
  else if q.receiver = .gone then (.error (.send "no subscriber queue"), q)
  else (.ok (), { q with messages := q.messages ++ [m] })

/-- Sends a notification through a producer. -/
def send (q : Queue) (p : String) (n : Notification) : Except BrokerError Unit × Queue :=
  if q.producers.contains p then q.publish ⟨n.userId, n.payload⟩ else (.error .notConnected, q)

/-- Takes no more messages; those in the queue can still be received. -/
def shutdown (q : Queue) : Queue := { q with isOpen := false }

/-- Claims the receiving end for a consumer. -/
def connectConsumer (q : Queue) (c : String) : Except BrokerError Unit × Queue :=
  if q.receiver = .claimed c then (.ok (), q)
  else if q.receiver = .free then (.ok (), { q with receiver := .claimed c })
  else (.error (.unavailable "subscriber slot already claimed"), q)

/-- Starts a delivery loop into a new subscription, and tells the subscription's number. -/
def consume (q : Queue) (c : String) (isCancelled : Bool) : Except BrokerError Nat × Queue :=
  if q.receiver = .claimed c then
    (.ok q.subscriptions.length,
      { q with
        receiver := .delivering c q.subscriptions.length
        subscriptions := q.subscriptions ++ [⟨[], true, isCancelled, false⟩] })
  else (.error .notConnected, q)

/-- Ends the delivery loop into a subscription. -/
def endDelivery (q : Queue) (k : Nat) : Queue :=
  { q.modify k ({ · with isEnded := true }) with receiver := .gone, messages := [] }

/-- Releases what a consumer holds; a delivery loop of its own ends before its next turn. -/
def closeConsumer (q : Queue) (c : String) : Queue :=
  match q.receiver with
  | .claimed d => if d = c then { q with receiver := .gone, messages := [] } else q
  | .delivering d k => if d = c then q.modify k ({ · with isCancelled := true }) else q
  | _ => q

/-- One turn of the delivery loop; none if there is no loop or it must wait. -/
def deliver? (q : Queue) : Option Queue :=
  match q.receiver with
  | .delivering _ k =>
    match q.subscriptions[k]? with
    | none => none
    | some s =>
      if s.isCancelled then some (q.endDelivery k)
      else
        match q.messages with
        | [] => if q.isOpen then none else some (q.endDelivery k)
        | m :: rest =>
          let q := { q with messages := rest }
          match Notification.ofOctets? m.payload with
          | none => some q
          | some n =>
            if s.isHeld then some (q.modify k fun s => { s with waiting := s.waiting ++ [n] })
            else some (q.endDelivery k)
  | _ => none

/-- Lets the delivery loop run until it must wait, for at most this many turns. -/
def settleIn : Nat → Queue → Queue
  | 0, q => q
  | n + 1, q =>
    match q.deliver? with
    | some q => settleIn n q
    | none => q

/-- Lets the delivery loop run until it must wait. -/
def settle (q : Queue) : Queue := q.settleIn (q.messages.length + 1)

/-- What there is to take from a subscription. -/
inductive Received
  | notification (n : Notification)
  | pending
  | ended
  deriving DecidableEq

/-- Takes the next notification from a subscription. -/
def receive (q : Queue) (k : Nat) : Received × Queue :=
  match q.subscriptions[k]? with
  | none => (.ended, q)
  | some s =>
    match s.waiting with
    | n :: rest => (.notification n, q.modify k ({ · with waiting := rest }))
    | [] => (if s.isEnded then .ended else .pending, q)

/-- What happens to the queue. -/
inductive Action
  | connectProducer (p : String)
  | closeProducer (p : String)
  | send (p : String) (n : Notification)
  | publish (m : Message)
  | shutdown
  | connectConsumer (c : String)
  | closeConsumer (c : String)
  | consume (c : String) (isCancelled : Bool)
  | receive (k : Nat)
  | cancel (k : Nat)
  | drop (k : Nat)
  | deliver
  deriving DecidableEq

/-- What an action answers. -/
inductive Answer
  | done
  | subscribed (k : Nat)
  | received (r : Received)
  deriving DecidableEq

/-- Takes one action. -/
def step (q : Queue) : Action → Except BrokerError Answer × Queue
  | .connectProducer p => let (r, q) := q.connectProducer p; (r.map fun _ => .done, q)
  | .closeProducer p => (.ok .done, q.closeProducer p)
  | .send p n => let (r, q) := q.send p n; (r.map fun _ => .done, q)
  | .publish m => let (r, q) := q.publish m; (r.map fun _ => .done, q)
  | .shutdown => (.ok .done, q.shutdown)
  | .connectConsumer c => let (r, q) := q.connectConsumer c; (r.map fun _ => .done, q)
  | .closeConsumer c => (.ok .done, q.closeConsumer c)
  | .consume c isCancelled => let (r, q) := q.consume c isCancelled; (r.map .subscribed, q)
  | .receive k => let (r, q) := q.receive k; (.ok (.received r), q)
  | .cancel k => (.ok .done, q.modify k ({ · with isCancelled := true }))
  | .drop k => (.ok .done, q.modify k ({ · with isHeld := false, waiting := [] }))
  | .deliver => (.ok .done, q.deliver?.getD q)

end Queue

end Datebook
