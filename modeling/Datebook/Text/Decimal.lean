import Datebook.Power

/-!
# Decimal digits

Numbers written with a fixed count of digits, and runs of digits read back.
`natOfDigits_fixedDigits`: a number that fits its width is read back from it.
-/

namespace Datebook

/-- The character of the last digit of `n`. -/
def digitChar (n : Nat) : Char := Char.ofNat (48 + n % 10)

/-- The value of a digit. -/
def digitValue (c : Char) : Nat := c.toNat - 48

/-- The last `width` digits of `n`. -/
def fixedDigits : Nat → Nat → List Char
  | 0, _ => []
  | width + 1, n => fixedDigits width (n / 10) ++ [digitChar n]

def natOfDigits (s : List Char) : Nat := s.foldl (fun n c => n * 10 + digitValue c) 0

/-- The digits at the front, at most `limit` of them, and what follows; none if there is none. -/
def takeDigits? (limit : Nat) (s : List Char) : Option (List Char × List Char) :=
  let digits := (s.take limit).takeWhile Char.isDigit
  if digits.isEmpty then none else some (digits, s.drop digits.length)

/-- The number at the front, of at most `limit` digits. -/
def readNat? (limit : Nat) (s : List Char) : Option (Nat × List Char) :=
  (takeDigits? limit s).map fun (digits, rest) => (natOfDigits digits, rest)

theorem digitChar_cases (n : Nat) :
    (digitChar n).isDigit = true ∧ digitValue (digitChar n) = n % 10 := by
  have h : n % 10 < 10 := Nat.mod_lt _ (by decide)
  simp only [digitChar]
  generalize n % 10 = d at h
  revert d
  decide

@[simp] theorem isDigit_digitChar (n : Nat) : (digitChar n).isDigit = true :=
  (digitChar_cases n).1

@[simp] theorem digitValue_digitChar (n : Nat) : digitValue (digitChar n) = n % 10 :=
  (digitChar_cases n).2

@[simp] theorem length_fixedDigits (width n : Nat) : (fixedDigits width n).length = width := by
  induction width generalizing n with
  | zero => rfl
  | succ w ih => simp [fixedDigits, ih]

theorem all_isDigit_fixedDigits (width n : Nat) :
    (fixedDigits width n).all Char.isDigit = true := by
  induction width generalizing n with
  | zero => rfl
  | succ w ih => simp [fixedDigits, ih]

theorem natOfDigits_fixedDigits {width n : Nat} (h : n < tenTo width) :
    natOfDigits (fixedDigits width n) = n := by
  induction width generalizing n with
  | zero => simp at h; simp [fixedDigits, natOfDigits, h]
  | succ w ih =>
    have := ih (n := n / 10) (by rw [tenTo_succ] at h; omega)
    simp only [natOfDigits] at this
    simp only [fixedDigits, natOfDigits, List.foldl_append, List.foldl_cons, List.foldl_nil, this,
      digitValue_digitChar]
    omega

end Datebook
