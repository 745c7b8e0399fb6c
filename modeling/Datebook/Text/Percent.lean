import Datebook.Text.Octets

/-!
# Percent signs

Text in which a percent sign and two hexadecimal digits stand for one octet, and the parts that such
a text is cut into before its signs are read, so that an escaped mark parts nothing.
-/

namespace Datebook.Octets

/-- The octet that two hexadecimal digits write. -/
def hexPair? (h l : UInt8) : Option UInt8 := do
  return UInt8.ofNat ((← hexValue? h) * 16 + (← hexValue? l))

/-- The octets with every percent sign and the two hexadecimal digits after it made one octet; a
percent sign without two digits stays. -/
def percentDecode : Octets → Octets
  | b :: h :: l :: s =>
    match if b = 0x25 then hexPair? h l else none with
    | some x => x :: percentDecode s
    | none => b :: percentDecode (h :: l :: s)
  | s => s

/-- The parts between marks, of which there is always one. -/
def partsBetween (mark : UInt8) : Octets → List Octets
  | [] => [[]]
  | b :: s =>
    if b = mark then [] :: partsBetween mark s
    else
      match partsBetween mark s with
      | [] => [[b]]
      | part :: parts => (b :: part) :: parts

/-- The octets before a mark, and those after it. -/
def cutAt (mark : UInt8) (s : Octets) : Octets × Octets :=
  (s.takeWhile (· != mark), (s.dropWhile (· != mark)).drop 1)

end Datebook.Octets
