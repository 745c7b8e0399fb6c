import Datebook.Text.Decimal

/-!
# Identifiers

Texts by which events and notifications are known, in the usual form of five groups of hexadecimal
digits. A series begins with a seed that is hard to guess, so that nobody else's texts look like it.
`numbered_inj`: no two of a series are the same, and `ofEvent_ne_ofNotification`: those of events
and of notifications never meet.
-/

namespace Datebook

namespace Identifier

/-- The digits of a number in an identifier: twelve, and more only if it needs more. -/
def width (n : Nat) : Nat := if n < tenTo 12 then 12 else n.log2 + 1

/-- The identifier of a series with this number. -/
def numbered (series : List Char) (n : Nat) : String :=
  String.ofList (series ++ fixedDigits (width n) n)

/-- The groups of an identifier but for its first character and its last group, from the digits of a
seed. -/
def groups (seed : Nat) : List Char :=
  let digits := fixedDigits 17 seed
  let group (start size : Nat) := (digits.drop start).take size ++ ['-']
  group 0 7 ++ group 7 4 ++ '4' :: group 11 3 ++ '8' :: group 14 3

/-- The identifier of the event that is number `n` to be stored. -/
def ofEvent (seed n : Nat) : String := numbered ('e' :: groups seed) n

/-- The identifier of the notification that is number `n` to be made. -/
def ofNotification (seed n : Nat) : String := numbered ('f' :: groups seed) n

theorem lt_tenTo_width (n : Nat) : n < tenTo (width n) := by
  simp only [width]
  split
  · assumption
  · exact Nat.lt_of_lt_of_le Nat.lt_log2_self (twoTo_le_tenTo _)

theorem numbered_inj {series : List Char} {m n : Nat} (h : numbered series m = numbered series n) :
    m = n := by
  have h := congrArg natOfDigits (List.append_cancel_left (String.ofList_inj.1 h))
  rwa [natOfDigits_fixedDigits (lt_tenTo_width m), natOfDigits_fixedDigits (lt_tenTo_width n)] at h

theorem ofEvent_ne_ofNotification (s t m n : Nat) : ofEvent s m ≠ ofNotification t n := by
  intro h
  have h := List.cons.inj (String.ofList_inj.1 h)
  exact absurd h.1 (by decide)

end Identifier

end Datebook
