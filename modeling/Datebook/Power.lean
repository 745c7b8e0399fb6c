/-!
# Powers

How many numbers there are of so many bits or decimal digits. The limits of integers and of
floating-point numbers are given by these.
-/

namespace Datebook

/-- The count of numbers of so many bits. -/
def twoTo (bits : Nat) : Nat := Nat.pow 2 bits

/-- The count of numbers of so many decimal digits. -/
def tenTo (digits : Nat) : Nat := Nat.pow 10 digits

/-- The least number that rounds beyond the largest floating-point number of 64 bits. -/
def floatLimit : Nat := twoTo 1024 - twoTo 970

@[simp] theorem twoTo_zero : twoTo 0 = 1 := rfl

theorem twoTo_succ (n : Nat) : twoTo (n + 1) = twoTo n * 2 := rfl

@[simp] theorem tenTo_zero : tenTo 0 = 1 := rfl

theorem tenTo_succ (n : Nat) : tenTo (n + 1) = tenTo n * 10 := rfl

theorem twoTo_le_tenTo (n : Nat) : twoTo n ≤ tenTo n := by
  induction n with
  | zero => exact Nat.le_refl 1
  | succ n ih =>
    rw [twoTo_succ, tenTo_succ]
    omega

end Datebook
