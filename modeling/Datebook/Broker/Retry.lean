import Datebook.Broker.Error
import Datebook.Power

/-!
# Connecting with retries

Attempts to connect are made until one succeeds, the attempts run out or the wait is cancelled.
After the failed attempt `n` the client sleeps `n` times the backoff, never longer than the longest
time; there is no sleep after the last attempt. A cancellation counts if it comes by the end of a
sleep. Attempts are counted in 32 bits.

Times are in nanoseconds from the first attempt.
-/

namespace Datebook

/-- The longest time that can be slept. -/
def longestSleep : Nat := (twoTo 64 - 1) * 1000000000 + 999999999

/-- How long things take: an attempt of a client, and a sleep, by when it begins and how long it is
asked to be. -/
structure Pace (σ : Type) where
  attempt : σ → Nat
  sleep : Nat → Nat → Nat

/-- Attempts take no time, and sleeps as long as asked. -/
def Pace.exact {σ : Type} : Pace σ := ⟨fun _ => 0, fun _ asked => asked⟩

/-- How connecting ended: its result, the number of the last attempt, when each attempt was made,
how long each sleep was asked to be, when it ended, and the client. -/
structure Connecting (σ : Type) where
  result : Except BrokerError Unit
  counter : UInt32
  attempts : List Nat
  sleeps : List Nat
  finish : Nat
  client : σ

namespace Connecting

/-- A number below the limit is not the last that can be counted. -/
theorem toNat_add_one {limit attempt : UInt32} (h : ¬ limit ≤ attempt) :
    (attempt + 1).toNat = attempt.toNat + 1 := by
  have hlimit := limit.toNat_lt
  rw [UInt32.le_iff_toNat_le] at h
  rw [UInt32.toNat_add, UInt32.toNat_one]
  omega

/-- Attempt number `attempt` at the time `now`, and those that follow. -/
def attemptFrom {σ : Type} (connect : σ → Except BrokerError Unit × σ) (pace : Pace σ)
    (limit : UInt32) (backoff : Nat) (cancelledAt : Option Nat) (attempt : UInt32) (now : Nat)
    (s : σ) : Connecting σ :=
  let done := now + pace.attempt s
  match connect s with
  | (.ok (), s) => ⟨.ok (), attempt, [now], [], done, s⟩
  | (.error e, s) =>
    if limit ≤ attempt then
      ⟨.error (.connectFailed attempt.toNat e.message), attempt, [now], [], done, s⟩
    else
      let asked := min (attempt.toNat * backoff) longestSleep
      let wake := done + pace.sleep done asked
      match cancelledAt.filter (· ≤ wake) with
      | some t => ⟨.error .cancelled, attempt, [now], [asked], max done t, s⟩
      | none =>
        let rest := attemptFrom connect pace limit backoff cancelledAt (attempt + 1) wake s
        { rest with attempts := now :: rest.attempts, sleeps := asked :: rest.sleeps }
termination_by limit.toNat - attempt.toNat
decreasing_by
  rename_i h
  rw [toNat_add_one h]
  rw [UInt32.le_iff_toNat_le] at h
  omega

/-- Connects with at most `limit` attempts, of which there is always one. -/
def run {σ : Type} (connect : σ → Except BrokerError Unit × σ) (pace : Pace σ) (limit : UInt32)
    (backoff : Nat) (cancelledAt : Option Nat) (s : σ) : Connecting σ :=
  attemptFrom connect pace (max limit 1) backoff cancelledAt 1 0 s

end Connecting

end Datebook
