import Datebook.Broker.Queue
import Datebook.Scheduler.Tick
import Datebook.Rehearsal.Store

/-!
# The scheduler's desk

What answers the requests of a tick that is rehearsed: an event store, some of whose calls fail as
planned, and an outbox for notifications, which either keeps a record of them, refusing some, or
sends them through the queue.
-/

namespace Datebook

/-- Where notifications go. -/
inductive Outbox
  | record (refused : List String) (failsToClose : Bool) (sent : List Notification)
  | queue (producer : String) (q : Queue)

namespace Outbox

/-- Sends a notification; a record refuses those of certain titles. -/
def send (o : Outbox) (n : Notification) : Except BrokerError Unit × Outbox :=
  match o with
  | .record refused fails sent =>
    if refused.contains n.eventTitle then (.error (.send "refused"), o)
    else (.ok (), .record refused fails (sent ++ [n]))
  | .queue p q => let (r, q) := q.send p n; (r, .queue p q)

def close (o : Outbox) : Except BrokerError Unit × Outbox :=
  match o with
  | .record _ fails _ => (if fails then .error (.send "cannot flush") else .ok (), o)
  | .queue p q => (.ok (), .queue p (q.closeProducer p))

/-- Takes out what was sent; from a queue, what its first subscription received. -/
def collect (o : Outbox) : List Notification × Outbox :=
  match o with
  | .record refused fails sent => (sent, .record refused fails [])
  | .queue p q =>
    let q := q.settle
    (((q.subscriptions[0]?).map (·.waiting)).getD [],
      .queue p (q.modify 0 ({ · with waiting := [] })))

/-- A connected producer and a consumer that takes what it sends. -/
def connectedQueue : Outbox :=
  .queue "p" (((Queue.empty.connectProducer "p").2.connectConsumer "c").2.consume "c" false).2

/-- A producer that was never connected. -/
def unconnectedQueue : Outbox := .queue "p" Queue.empty

/-- A producer that was connected before the queue was shut down. -/
def closedQueue : Outbox := .queue "p" (Queue.empty.connectProducer "p").2.shutdown

end Outbox

/-- An event store, an outbox, and the count of ids given to notifications so far. -/
structure Desk where
  store : UnsureStore
  outbox : Outbox
  given : Nat

namespace Desk

/-- Answers a request of a tick. -/
def answer (ids : Nat → String) : (r : Request) → Desk → r.Answer × Desk
  | .list start finish, d =>
    let (r, store) := d.store.list start finish
    (r, { d with store })
  | .newId, d => (ids d.given, { d with given := d.given + 1 })
  | .send n, d =>
    let (r, outbox) := d.outbox.send n
    (r, { d with outbox })
  | .delete id, d =>
    let (r, store) := d.store.delete id
    (r, { d with store })

/-- Runs one tick without others acting in between. -/
def tick (ids : Nat → String) (s : SchedulerSettings) (now : Instant) (d : Desk) :
    TickReport × Desk :=
  (Datebook.tick s now).run (answer ids) d

end Desk

end Datebook
