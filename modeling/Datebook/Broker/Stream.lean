import Datebook.Notification
import Datebook.Script
import Datebook.Settings.Basic

/-!
# The stream

A broker that keeps messages as entries of a stream and remembers for each consumer of a group
which entries it was given and has not acknowledged. A delivery loop first reads those again, from
the start of the stream on, and after the first read without entries the ones that nobody was
given. Each entry is acknowledged once, after it was handed over; one that does not decode is
acknowledged as well.

`turn` is one turn of the loop, a script of what it asks of the server and the subscription.
-/

namespace Datebook

/-- An entry of a stream. -/
structure StreamEntry where
  id : String
  fields : List (String × Octets)
  deriving DecidableEq

/-- The payload of an entry; of fields with one name the last counts. -/
def StreamEntry.payload? (e : StreamEntry) : Option Octets := e.fields.reverse.lookup "payload"

/-- A command to the server of a stream. -/
inductive StreamCommand
  | ping
  | createGroup (stream group : String)
  | append (stream : String) (maxLength : Nat) (key payload : String)
  | read (group consumer : String) (blockMs : Nat) (stream position : String)
  | acknowledge (stream group id : String)
  deriving DecidableEq

/-- The words of a command. A group starts at the head of its stream, the length of a stream is only
approximately limited, and a read gives sixteen entries at most. -/
def StreamCommand.words : StreamCommand → List String
  | .ping => ["PING"]
  | .createGroup stream group => ["XGROUP", "CREATE", stream, group, "0", "MKSTREAM"]
  | .append stream maxLength key payload =>
    ["XADD", stream, "MAXLEN", "~", toString maxLength, "*", "key", key, "payload", payload]
  | .read group consumer blockMs stream position =>
    ["XREADGROUP", "GROUP", group, consumer, "BLOCK", toString blockMs, "COUNT", "16", "STREAMS",
      stream, position]
  | .acknowledge stream group id => ["XACK", stream, group, id]

/-- How a read ends: the loop was cancelled before it, it failed, or it gave entries. -/
inductive ReadOutcome
  | cancelled
  | failed
  | entries (es : List StreamEntry)
  deriving DecidableEq

/-- What a delivery loop asks of its surroundings. -/
inductive DeliveryRequest
  | read (position : String)
  | pause
  | handOver (n : Notification)
  | acknowledge (id : String)

namespace DeliveryRequest

/-- The answers: how the read ended; the loop was cancelled in the pause; the subscription took the
notification; the server took the acknowledgement. -/
abbrev Answer : DeliveryRequest → Type
  | .read _ => ReadOutcome
  | .pause => Bool
  | .handOver _ => Bool
  | .acknowledge _ => Bool

end DeliveryRequest

namespace Delivery

/-- The work of a delivery loop, request by request. -/
abbrev Work : Type → Type := Script DeliveryRequest DeliveryRequest.Answer

def ask (r : DeliveryRequest) : Work r.Answer := Script.query r

/-- The position of the first read: entries given before and not acknowledged, from the start. -/
def pendingStart : String := "0"

/-- The position of a read of entries that nobody was given. -/
def newEntries : String := ">"

/-- The position of the next read, after one whose last entry has the id. -/
def nextPosition (position : String) (last : Option String) : String :=
  if position = newEntries then newEntries else last.getD newEntries

/-- Hands over and acknowledges entries in order; it is false that the loop goes on if there is no
subscription any more for a notification. -/
def handleAll : List StreamEntry → Work Bool
  | [] => return true
  | e :: es => do
    match e.payload?.bind Notification.ofOctets? with
    | some n => if !(← ask (.handOver n)) then return false
    | none => pure ()
    let _ ← ask (.acknowledge e.id)
    handleAll es

/-- One turn of the loop from a position; the position of the next turn, or none if it has ended. -/
def turn (position : String) : Work (Option String) := do
  match ← ask (.read position) with
  | .cancelled => return none
  | .failed =>
    if ← ask .pause then return none
    return some position
  | .entries es =>
    if ← handleAll es then return some (nextPosition position (es.getLast?.map (·.id)))
    return none

end Delivery

end Datebook
