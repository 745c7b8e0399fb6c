import Datebook.Scheduler.Tick

/-!
# Cadence

When a periodic task runs. Run number `n`, from 0, is due `n` intervals after the start; one that
is late starts at once, and none is left out. A run that has started is never interrupted: whether
the task is cancelled is looked at only before the next one starts. A cancellation that comes at
the very moment when a run is due comes first. The scheduler is such a task, whose runs are ticks.
-/

namespace Datebook

/-- A periodic task: the time between its runs, of at least 1; when it is cancelled, as far as its
state can tell; and what a run that starts at a time does, with the time at which it ends. -/
structure Periodic (σ : Type) where
  interval : Nat
  cancelledAt : σ → Option Nat
  work : Nat → σ → Nat × σ

/-- The runs made so far, when the last of them ended, and the state. -/
structure Progress (σ : Type) where
  runs : Nat
  now : Nat
  state : σ

namespace Periodic

variable {σ : Type}

/-- When the next run starts unless the task is cancelled. -/
def nextStart (t : Periodic σ) (p : Progress σ) : Nat := max (p.runs * t.interval) p.now

/-- The progress after one more run; none if the task is cancelled by its start. -/
def next? (t : Periodic σ) (p : Progress σ) : Option (Progress σ) :=
  let start := t.nextStart p
  if (t.cancelledAt p.state).any (· ≤ start) then none
  else
    let (finish, state) := t.work start p.state
    some ⟨p.runs + 1, finish, state⟩

/-- The progress when the task stops, or after this many runs if it has not stopped by then. -/
def run (t : Periodic σ) : Nat → Progress σ → Progress σ
  | 0, p => p
  | n + 1, p =>
    match t.next? p with
    | some p => run t n p
    | none => p

/-- The time at which a task that runs no more stops. -/
def stopTime (t : Periodic σ) (p : Progress σ) : Nat :=
  max p.now ((t.cancelledAt p.state).getD p.now)

end Periodic

/-- The scheduler under a clock with so many counts to a millisecond, whose ticks are as of the wall
clock's instant at their start. An answer tells the time at which it was there. -/
def periodicTicks {σ : Type} (countsPerMilli : Nat) (s : SchedulerSettings)
    (wall : Nat → Instant) (answer : (r : Request) → Nat × σ → r.Answer × Nat × σ)
    (cancelledAt : σ → Option Nat) : Periodic σ where
  interval := s.intervalMillis * countsPerMilli
  cancelledAt := cancelledAt
  work start state := ((tick s (wall start)).run answer (start, state)).2

end Datebook
