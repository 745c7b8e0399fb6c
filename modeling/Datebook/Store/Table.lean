import Datebook.Script
import Datebook.Store.Error

/-!
# Events in a table

Rows with their instants as integer microseconds. A call is a script of statements, each of which
the table carries out whole; between two of them other clients of the table may have theirs carried
out. An instant read back is an ordinary one, so a leap second comes back in the next second, and a
row with an integer beyond the calendar cannot be read.
-/

namespace Datebook

/-- An event as a row. -/
structure EventRow where
  id : String
  title : String
  description : String
  start : Int
  finish : Int
  userId : String
  reminder : Option Int
  deriving DecidableEq

/-- The rows in the order in which they were inserted. -/
abbrev EventTable := List EventRow

namespace EventRow

def ofEvent (e : Event) : EventRow :=
  ⟨e.id, e.title, e.description, e.startTime.micros, e.endTime.micros, e.userId,
    e.reminderAt.map Instant.micros⟩

/-- The instant in a column. -/
def instant (value : Int) (column : Nat) : Except StoreError Instant :=
  match Instant.ofMicros? value with
  | some t => .ok t
  | none => .error (.outOfRange value column)

/-- The event in a row; the reminder is read first, then the start, then the end. -/
def event (r : EventRow) : Except StoreError Event := do
  let reminder ← r.reminder.mapM (instant · 6)
  let start ← instant r.start 3
  let finish ← instant r.finish 4
  return ⟨r.id, r.title, r.description, start, finish, r.userId, reminder⟩

end EventRow

/-- What clients ask of the table. -/
inductive Statement
  | hasSlot (userId : String) (start : Int)
  | hasSlotOfOther (userId : String) (start : Int) (id : String)
  | hasRow (id : String)
  | insert (row : EventRow)
  | replace (row : EventRow)
  | delete (id : String)
  | find (id : String)
  | window (start finish : Int)
  deriving DecidableEq

namespace Statement

abbrev Answer : Statement → Type
  | .hasSlot _ _ => Bool
  | .hasSlotOfOther _ _ _ => Bool
  | .hasRow _ => Bool
  | .insert _ => Unit
  | .replace _ => Unit
  | .delete _ => Nat
  | .find _ => Option EventRow
  | .window _ _ => List EventRow

/-- Carries out one statement. Rows of a window come by start, then in the order of insertion. -/
def exec : (s : Statement) → EventTable → s.Answer × EventTable
  | .hasSlot userId start, t => (t.any fun r => r.userId == userId && r.start == start, t)
  | .hasSlotOfOther userId start id, t =>
    (t.any fun r => r.userId == userId && r.start == start && r.id != id, t)
  | .hasRow id, t => (t.any fun r => r.id == id, t)
  | .insert row, t => ((), t ++ [row])
  | .replace row, t => ((), t.map fun r => if r.id = row.id then row else r)
  | .delete id, t => ((t.filter fun r => r.id = id).length, t.filter fun r => r.id ≠ id)
  | .find id, t => (t.find? fun r => r.id = id, t)
  | .window start finish, t =>
    ((t.filter fun r => decide (start ≤ r.start) && decide (r.start ≤ finish)).mergeSort
      fun a b => decide (a.start ≤ b.start), t)

end Statement

namespace EventTable

/-- A client at work, statement by statement. -/
abbrev Client : Type → Type := Script Statement Statement.Answer

def ask (s : Statement) : Client s.Answer := Script.query s

/-- Carries out all of a client's statements without others in between. -/
def run {α : Type} (client : Client α) (t : EventTable) : α × EventTable :=
  Script.run Statement.exec client t

/-- Stores a new event under the id, which must be free. -/
def create (id : String) (e : Event) : Client (Except StoreError Event) :=
  let e := e.atStoragePrecision
  match e.flaw? with
  | some flaw => return .error (.invalid flaw)
  | none => do
    if ← ask (.hasSlot e.userId e.startTime.micros) then return .error .busy
    let e := { e with id := id }
    ask (.insert (.ofEvent e))
    return .ok e

/-- Stores the event in place of the one with its id. -/
def update (e : Event) : Client (Except StoreError Unit) :=
  let e := e.atStoragePrecision
  match e.flaw? with
  | some flaw => return .error (.invalid flaw)
  | none => do
    if !(← ask (.hasRow e.id)) then return .error (.notFound e.id)
    if ← ask (.hasSlotOfOther e.userId e.startTime.micros e.id) then return .error .busy
    ask (.replace (.ofEvent e))
    return .ok ()

def delete (id : String) : Client (Except StoreError Unit) := do
  if (← ask (.delete id)) = 0 then return .error (.notFound id)
  return .ok ()

def get (id : String) : Client (Except StoreError Event) := do
  match ← ask (.find id) with
  | some row => return row.event
  | none => return .error (.notFound id)

/-- The events that start from `start` to `finish`, both included, to the microsecond. -/
def list (start finish : Instant) : Client (Except StoreError (List Event)) := do
  return (← ask (.window start.micros finish.micros)).mapM EventRow.event

end EventTable

end Datebook
