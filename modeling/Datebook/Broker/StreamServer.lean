import Datebook.Broker.Retry
import Datebook.Broker.Stream

/-!
# A server of streams

A server that gives its replies from a script, and the two clients that connect to it. It keeps
every command that it receives. A command without a reply in the script succeeds, except a read,
which waits for entries that never come.
-/

namespace Datebook

/-- What the server still replies, as the texts of errors where it fails, and what it received, the
latest first. Nothing can be received where no server listens. -/
structure StreamServer where
  isListening : Bool
  pings : List (Option String)
  groups : List (Option String)
  appends : List (Option String)
  acknowledgements : List (Option String)
  reads : List ReadOutcome
  received : List StreamCommand

namespace StreamServer

/-- The first reply of a script, and the others. -/
def next : List (Option String) → Option String × List (Option String)
  | [] => (none, [])
  | reply :: replies => (reply, replies)

def note (s : StreamServer) (c : StreamCommand) : StreamServer :=
  { s with received := c :: s.received }

/-- Opens a connection, which the server must answer. -/
def connect (s : StreamServer) : Except BrokerError Unit × StreamServer :=
  if s.isListening then
    let (reply, pings) := next s.pings
    let s := { s.note .ping with pings }
    match reply with
    | some e => (.error (.unavailable e), s)
    | none => (.ok (), s)
  else (.error (.unavailable "connection refused"), s)

/-- The first word of an error tells its kind. -/
def errorKind (e : String) : String := String.ofList (e.toList.takeWhile (· != ' '))

/-- Opens a connection and makes the group, which may be there already. -/
def connectToGroup (b : BrokerSettings) (s : StreamServer) :
    Except BrokerError Unit × StreamServer :=
  match s.connect with
  | (.error e, s) => (.error e, s)
  | (.ok (), s) =>
    let (reply, groups) := next s.groups
    let s := { s.note (.createGroup b.stream b.group) with groups }
    match reply with
    | some e => if errorKind e = "BUSYGROUP" then (.ok (), s) else (.error (.unavailable e), s)
    | none => (.ok (), s)

/-- Appends a notification to the stream. -/
def append (b : BrokerSettings) (n : Notification) (s : StreamServer) :
    Except BrokerError Unit × StreamServer :=
  let (reply, appends) := next s.appends
  let s := { s.note (.append b.stream b.maxLength n.userId n.text) with appends }
  match reply with
  | some e => (.error (.send e), s)
  | none => (.ok (), s)

def acknowledge (b : BrokerSettings) (id : String) (s : StreamServer) : Bool × StreamServer :=
  let (reply, acknowledgements) := next s.acknowledgements
  (reply.isNone, { s.note (.acknowledge b.stream b.group id) with acknowledgements })

/-- The command of a read. -/
def readCommand (b : BrokerSettings) (position : String) : StreamCommand :=
  .read b.group b.consumer b.blockMs b.stream position

end StreamServer

/-- The server, and the subscription that a loop hands notifications to, the latest first. -/
structure StreamDelivery where
  server : StreamServer
  delivered : List Notification
  isHeld : Bool

namespace StreamDelivery

/-- Answers a request of a loop; a read for which there is no reply waits until the loop is
cancelled. -/
def answer (b : BrokerSettings) : (r : DeliveryRequest) → StreamDelivery → r.Answer × StreamDelivery
  | .read position, d =>
    let server := d.server.note (StreamServer.readCommand b position)
    match server.reads with
    | [] => (.cancelled, { d with server })
    | r :: reads => (r, { d with server := { server with reads } })
  | .pause, d => (false, d)
  | .handOver n, d => (d.isHeld, if d.isHeld then { d with delivered := n :: d.delivered } else d)
  | .acknowledge id, d =>
    let (r, server) := d.server.acknowledge b id
    (r, { d with server })

/-- Runs a loop until it ends or its read waits, for at most this many turns. -/
def runFrom (b : BrokerSettings) : Nat → String → StreamDelivery → StreamDelivery
  | 0, _, d => d
  | n + 1, position, d =>
    match (Delivery.turn position).run (answer b) d with
    | (some position, d) => runFrom b n position d
    | (none, d) => d

/-- Runs a new loop until it ends or its read waits. -/
def run (b : BrokerSettings) (d : StreamDelivery) : StreamDelivery :=
  runFrom b (d.server.reads.length + 1) Delivery.pendingStart d

end StreamDelivery

/-- The two clients of a server, each connected or not, and whether a delivery loop was started. -/
structure StreamClients where
  server : StreamServer
  isProducing : Bool
  isConsuming : Bool
  hasDelivered : Bool

namespace StreamClients

/-- What the producer is called. -/
def producerName : String := "redis-producer"

/-- What the consumer is called. -/
def consumerName : String := "redis-consumer"

def connectProducer (c : StreamClients) : Except BrokerError Unit × StreamClients :=
  let (r, server) := c.server.connect
  (r, { c with server, isProducing := c.isProducing || r.isOk })

def connectConsumer (b : BrokerSettings) (c : StreamClients) :
    Except BrokerError Unit × StreamClients :=
  let (r, server) := c.server.connectToGroup b
  (r, { c with server, isConsuming := c.isConsuming || r.isOk })

def closeProducer (c : StreamClients) : StreamClients := { c with isProducing := false }

def closeConsumer (c : StreamClients) : StreamClients := { c with isConsuming := false }

def send (b : BrokerSettings) (n : Notification) (c : StreamClients) :
    Except BrokerError Unit × StreamClients :=
  if c.isProducing then
    let (r, server) := c.server.append b n
    (r, { c with server })
  else (.error .notConnected, c)

/-- Starts a delivery loop, and tells what it hands over until it ends or its read waits. -/
def consume (b : BrokerSettings) (isHeld : Bool) (c : StreamClients) :
    Except BrokerError (List Notification) × StreamClients :=
  if c.isConsuming then
    let d := StreamDelivery.run b ⟨c.server, [], isHeld⟩
    (.ok d.delivered.reverse, { c with server := d.server, hasDelivered := true })
  else (.error .notConnected, c)

end StreamClients

end Datebook
