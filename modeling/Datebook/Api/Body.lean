import Datebook.Event

/-!
# Bodies

What a client sends to describe an event, and what it gets to see of one. A client says how many
seconds before the start it wants to be reminded; the event has the instant of that reminder.
-/

namespace Datebook.Api

/-- An event as a client describes it. -/
structure EventBody where
  title : String
  description : String
  startTime : Instant
  endTime : Instant
  userId : String
  notifyBefore : Option Int
  deriving DecidableEq

/-- Why a described event cannot be made. -/
inductive NotifyFault
  | negative
  | outOfRange
  deriving DecidableEq

namespace EventBody

open Json in
/-- The members of a body; the description and the reminder may be left out. -/
def fields : List Field :=
  [⟨"title", .text, none⟩, ⟨"description", .text, some (.text "")⟩,
    ⟨"start_time", .instant, none⟩, ⟨"end_time", .instant, none⟩, ⟨"user_id", .text, none⟩,
    ⟨"notify_before", .optionalInteger, some .null⟩]

open Json in
def ofCells : List Cell → Except Fault EventBody
  | [.text title, .text description, .instant start, .instant finish, .text user, .integer n] =>
    .ok ⟨title, description, start, finish, user, some n⟩
  | [.text title, .text description, .instant start, .instant finish, .text user, .null] =>
    .ok ⟨title, description, start, finish, user, none⟩
  | _ => .error .mismatch

/-- The description of an event that a text holds. -/
def ofOctets (s : Octets) : Except Json.Fault EventBody := (Json.readDocument fields s).bind ofCells

/-- The instant so many seconds before the start. -/
def reminder (start : Instant) (seconds : Int) : Except NotifyFault Instant :=
  if seconds < 0 then .error .negative
  else if Span.longest < Span.ofSeconds seconds then .error .outOfRange
  else
    match start.sub? (Span.ofSeconds seconds) with
    | some t => .ok t
    | none => .error .outOfRange

/-- The event that is described, under an id. -/
def event (b : EventBody) (id : String) : Except NotifyFault Event := do
  return ⟨id, b.title, b.description, b.startTime, b.endTime, b.userId,
    ← b.notifyBefore.mapM (reminder b.startTime)⟩

end EventBody

/-- An event as a client sees it. -/
structure EventView where
  id : String
  title : String
  description : String
  startTime : Instant
  endTime : Instant
  userId : String
  notifyBefore : Option Int
  deriving DecidableEq

namespace EventView

def ofEvent (e : Event) : EventView :=
  ⟨e.id, e.title, e.description, e.startTime, e.endTime, e.userId,
    e.reminderAt.map e.startTime.secondsSince⟩

/-- The view as a record without space; a reminder that is not set is left out. -/
def chars (v : EventView) : List Char :=
  Json.object
    ([("id", Json.quoted v.id), ("title", Json.quoted v.title),
      ("description", Json.quoted v.description),
      ("start_time", Json.quoted v.startTime.text), ("end_time", Json.quoted v.endTime.text),
      ("user_id", Json.quoted v.userId)]
      ++ (v.notifyBefore.map fun n => ("notify_before", (toString n).toList)).toList)

end EventView

end Datebook.Api
