/-!
# Octets

Text as it travels, a list of octets, and its strict and lenient readings as UTF-8.
`Octets.text?_eq_some_iff`: the strict reading of octets is the text whose octets they are.
-/

namespace Datebook

abbrev Octets := List UInt8

/-- The UTF-8 octets of a text. -/
def octetsOf (s : String) : Octets := s.toList.flatMap String.utf8EncodeChar

/-- The text that these octets encode. -/
def Octets.text? (s : Octets) : Option String := String.fromUTF8? ⟨s.toArray⟩

/-- The value of a hexadecimal digit, in either case. -/
def hexValue? (b : UInt8) : Option Nat :=
  let n := b.toNat
  if 48 ≤ n ∧ n ≤ 57 then some (n - 48)
  else if 97 ≤ n ∧ n ≤ 102 then some (n - 87)
  else if 65 ≤ n ∧ n ≤ 70 then some (n - 55)
  else none

/-- The count of octets of the character that starts here, and the character. -/
def Octets.firstChar? (s : Octets) : Option (Nat × Char) :=
  [1, 2, 3, 4].findSome? fun n =>
    if n ≤ s.length then
      match (Octets.text? (s.take n)).map String.toList with
      | some [c] => some (n, c)
      | _ => none
    else none

/-- The text with the mark U+FFFD for every octet that begins no character. -/
def Octets.lenientText (s : Octets) : String := String.ofList (go s.length s)
where
  go : Nat → Octets → List Char
    | 0, _ => []
    | _, [] => []
    | n + 1, b :: s =>
      match Octets.firstChar? (b :: s) with
      | some (k, c) => c :: go n ((b :: s).drop k)
      | none => '\ufffd' :: go n s

theorem toByteArray_octetsOf (s : String) :
    (⟨(octetsOf s).toArray⟩ : ByteArray) = s.toByteArray := by
  obtain ⟨l, rfl⟩ := s.exists_eq_ofList
  rw [String.toByteArray_ofList, octetsOf, String.toList_ofList, List.utf8Encode]
  apply ByteArray.ext
  rw [List.data_toByteArray]

theorem Octets.text?_eq_some_iff {o : Octets} {s : String} : o.text? = some s ↔ octetsOf s = o := by
  unfold Octets.text? String.fromUTF8?
  constructor
  · intro h
    split at h
    · cases h
      have := toByteArray_octetsOf (String.fromUTF8 ⟨o.toArray⟩ ‹_›)
      simpa [String.fromUTF8] using this
    · cases h
  · rintro rfl
    have hv : (⟨(octetsOf s).toArray⟩ : ByteArray).IsValidUTF8 := by
      rw [toByteArray_octetsOf]
      exact s.isValidUTF8
    rw [dif_pos hv, Option.some.injEq, ← String.toByteArray_inj]
    exact toByteArray_octetsOf s

end Datebook
