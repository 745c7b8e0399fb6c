import Datebook.Rehearsal.Desk
import Datebook.Scheduler.Cadence

/-!
# The scheduler's watch

The scheduler rehearsed as a periodic task under a clock of its own, in milliseconds from its start.
The clock goes on only while a list is asked of the store. The watch is cancelled at a fixed time,
or when the list of a given number is asked for.
-/

namespace Datebook

/-- The desk, what a list takes, when lists were asked for, the latest first, and the plan and the
time of the cancellation. -/
structure Watch where
  desk : Desk
  listTime : Nat
  listedAt : List Nat
  cancelOnList : Option Nat
  cancelledAt : Option Nat

namespace Watch

/-- A list is asked for, upon which the watch may be cancelled. -/
def noteList (now : Nat) (w : Watch) : Watch :=
  let listedAt := now :: w.listedAt
  let cancelled :=
    if w.cancelOnList = some listedAt.length then
      some ((w.cancelledAt.map (min now)).getD now)
    else w.cancelledAt
  { w with listedAt := listedAt, cancelledAt := cancelled }

/-- Answers a request of a tick, and lets the time pass. -/
def answer (ids : Nat → String) (r : Request) (p : Nat × Watch) : r.Answer × Nat × Watch :=
  let (now, w) := match r with
    | .list _ _ => (p.1 + p.2.listTime, p.2.noteList p.1)
    | _ => p
  let (a, desk) := Desk.answer ids r w.desk
  (a, now, { w with desk })

/-- Enough ticks for a watch that is cancelled at a fixed time or on a list. -/
def enoughTicks (w : Watch) : Nat := w.cancelledAt.getD 0 + w.cancelOnList.getD 0 + 1

/-- Runs the scheduler until it stops, and tells when. -/
def run (ids : Nat → String) (s : SchedulerSettings) (wall : Nat → Instant) (w : Watch) :
    Nat × Watch :=
  let t := periodicTicks 1 s wall (answer ids) cancelledAt
  let p := t.run w.enoughTicks ⟨0, 0, w⟩
  (t.stopTime p, p.state)

end Watch

end Datebook
