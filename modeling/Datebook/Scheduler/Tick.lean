import Datebook.Broker.Error
import Datebook.Notification
import Datebook.Script
import Datebook.Store.Error

/-!
# Ticks

One tick of the scheduler at an instant: a notification for every reminder that comes due before the
next tick, and then the removal of every event that started longer ago than the retention. Each call
of the store and of the broker is a question of the tick's script, so other clients may act between
any two of them, and any of them may fail on its own.
-/

namespace Datebook

/-- How often the scheduler ticks and how long events are kept, in seconds. -/
structure SchedulerSettings where
  intervalSecs : Nat
  retentionSecs : Nat
  deriving DecidableEq

namespace SchedulerSettings

/-- The time between ticks in milliseconds, of which there is at least one. -/
def intervalMillis (s : SchedulerSettings) : Nat := max (s.intervalSecs * 1000) 1

/-- How far ahead of a tick reminders come due. -/
def lookAhead (s : SchedulerSettings) : Span := min (Span.ofMillis s.intervalMillis) Span.longest

/-- How far before a tick events are kept. -/
def retention (s : SchedulerSettings) : Span := min (Span.ofSeconds s.retentionSecs) Span.longest

end SchedulerSettings

/-- What a tick asks of the store and the broker, and of the source of new ids. -/
inductive Request
  | list (start finish : Instant)
  | newId
  | send (n : Notification)
  | delete (id : String)

namespace Request

abbrev Answer : Request → Type
  | .list _ _ => Except StoreError (List Event)
  | .newId => String
  | .send _ => Except BrokerError Unit
  | .delete _ => Except StoreError Unit

end Request

/-- The counts of one tick: events in the window, notifications accepted and events removed. -/
structure TickReport where
  scanned : Nat
  sent : Nat
  deleted : Nat
  deriving DecidableEq

namespace Tick

/-- The work of a tick, request by request. -/
abbrev Work : Type → Type := Script Request Request.Answer

def ask (r : Request) : Work r.Answer := Script.query r

/-- The end of the window whose reminders come due, or the end of the calendar. -/
def windowEnd (s : SchedulerSettings) (now : Instant) : Instant :=
  (now.add? s.lookAhead).getD Instant.last

/-- The latest start of an event that is removed, or the start of the calendar. -/
def cutoff (s : SchedulerSettings) (now : Instant) : Instant :=
  (now.sub? s.retention).getD Instant.first

/-- The reminder lies strictly inside the window. -/
def IsDue (now finish : Instant) (e : Event) : Prop := ∃ r ∈ e.reminderAt, now < r ∧ r < finish

instance (now finish : Instant) (e : Event) : Decidable (IsDue now finish e) :=
  match h : e.reminderAt with
  | none => isFalse (by simp [IsDue, h])
  | some r => decidable_of_iff (now < r ∧ r < finish) (by simp [IsDue, h])

def message (e : Event) : String :=
  "Reminder: " ++ e.title ++ " starts at " ++ e.startTime.clockText

/-- The notification of an event's reminder. -/
def reminder (id : String) (now : Instant) (e : Event) : Notification :=
  ⟨id, e.id, e.title, e.userId, message e, now, now⟩

/-- Sends a notification for each event that is due and counts those accepted. -/
def sendDue (now finish : Instant) : List Event → Work Nat
  | [] => return 0
  | e :: es => do
    if IsDue now finish e then
      let id ← ask .newId
      match ← ask (.send (reminder id now e)) with
      | .ok () => return (← sendDue now finish es) + 1
      | .error _ => sendDue now finish es
    else sendDue now finish es

/-- Deletes each event and counts the deletions that succeed. -/
def deleteAll : List Event → Work Nat
  | [] => return 0
  | e :: es => do
    match ← ask (.delete e.id) with
    | .ok () => return (← deleteAll es) + 1
    | .error _ => deleteAll es

/-- Sends what comes due after `now`, and counts the events in the window and those accepted. -/
def notifyPass (s : SchedulerSettings) (now : Instant) : Work (Nat × Nat) := do
  match ← ask (.list now (windowEnd s now)) with
  | .ok events => return (events.length, ← sendDue now (windowEnd s now) events)
  | .error _ => return (0, 0)

/-- Removes what started too long before `now`, and counts it. -/
def cleanupPass (s : SchedulerSettings) (now : Instant) : Work Nat := do
  match ← ask (.list Instant.first (cutoff s now)) with
  | .ok events => deleteAll events
  | .error _ => return 0

end Tick

/-- One tick: a list that fails gives up its own pass only. -/
def tick (s : SchedulerSettings) (now : Instant) : Tick.Work TickReport := do
  let (scanned, sent) ← Tick.notifyPass s now
  let deleted ← Tick.cleanupPass s now
  return ⟨scanned, sent, deleted⟩

end Datebook
