import Datebook.Json.Record

/-!
# Events

An entry in a user's calendar. Events are kept to the microsecond; two of one user that start at the
same instant claim the same slot. `flaw?` finds the first rule that an event breaks, and
`Event.ofOctets?` reads what `Event.text` writes.
-/

namespace Datebook

/-- An entry in the calendar of one user; its id is empty until a store gives it one. -/
structure Event where
  id : String
  title : String
  description : String
  startTime : Instant
  endTime : Instant
  userId : String
  reminderAt : Option Instant
  deriving DecidableEq

namespace Event

/-- The rules for events, in the order in which they are checked. -/
inductive Flaw
  | noTitle
  | noUser
  | endsBeforeStart
  | remindsAfterStart
  deriving DecidableEq

def Flaw.message : Flaw → String
  | .noTitle => "title is required"
  | .noUser => "user_id is required"
  | .endsBeforeStart => "end_time must not be before start_time"
  | .remindsAfterStart => "reminder_at must not be after start_time"

/-- The reminder, if there is one, comes after the start. -/
def remindsLate (e : Event) : Bool := e.reminderAt.any fun r => decide (e.startTime < r)

/-- The first rule that the event breaks. -/
def flaw? (e : Event) : Option Flaw :=
  if isBlank e.title then some .noTitle
  else if isBlank e.userId then some .noUser
  else if e.endTime < e.startTime then some .endsBeforeStart
  else if e.remindsLate then some .remindsAfterStart
  else none

/-- The event with every instant to the microsecond. -/
def atStoragePrecision (e : Event) : Event :=
  { e with
    startTime := e.startTime.floorMicros
    endTime := e.endTime.floorMicros
    reminderAt := e.reminderAt.map Instant.floorMicros }

/-- Both events claim the same slot. -/
def CollidesWith (a b : Event) : Prop := a.userId = b.userId ∧ a.startTime = b.startTime

instance (a b : Event) : Decidable (a.CollidesWith b) := inferInstanceAs (Decidable (_ ∧ _))

open Json in
/-- The members of an event's record. -/
def fields : List Field :=
  [⟨"id", .text, some (.text "")⟩, ⟨"title", .text, none⟩,
    ⟨"description", .text, some (.text "")⟩, ⟨"start_time", .instant, none⟩,
    ⟨"end_time", .instant, none⟩, ⟨"user_id", .text, none⟩,
    ⟨"reminder_at", .optionalInstant, some .null⟩]

open Json in
def ofCells? : List Cell → Option Event
  | [.text id, .text title, .text description, .instant start, .instant finish, .text user,
      .instant reminder] =>
    some ⟨id, title, description, start, finish, user, some reminder⟩
  | [.text id, .text title, .text description, .instant start, .instant finish, .text user,
      .null] =>
    some ⟨id, title, description, start, finish, user, none⟩
  | _ => none

/-- The event that a text holds, if it is an event's record and nothing else. -/
def ofOctets? (s : Octets) : Option Event := (Json.readDocument fields s).toOption.bind ofCells?

/-- The event as a record without space; a reminder that is not set is left out. -/
def text (e : Event) : String :=
  String.ofList (Json.object
    ([("id", Json.quoted e.id), ("title", Json.quoted e.title),
      ("description", Json.quoted e.description),
      ("start_time", Json.quoted e.startTime.text), ("end_time", Json.quoted e.endTime.text),
      ("user_id", Json.quoted e.userId)]
      ++ (e.reminderAt.map fun r => ("reminder_at", Json.quoted r.text)).toList))

theorem CollidesWith.symm {a b : Event} (h : a.CollidesWith b) : b.CollidesWith a :=
  ⟨h.1.symm, h.2.symm⟩

end Event

end Datebook
