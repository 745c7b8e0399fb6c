import Datebook.Text.Decimal
import Datebook.Text.Escaped

/-!
# Socket addresses

The form of an internet address with a port. An address of the fourth version stands as it is, one
of the sixth between brackets, perhaps with a scope.
-/

namespace Datebook.Address

/-- The parts of a text between marks, of which there is always one. -/
def splitOn (mark : Char) : List Char → List (List Char)
  | [] => [[]]
  | c :: s =>
    if c = mark then [] :: splitOn mark s
    else
      match splitOn mark s with
      | [] => [[c]]
      | part :: parts => (c :: part) :: parts

/-- A decimal number below a limit. -/
def isNumber (limit : Nat) (s : List Char) : Bool :=
  !s.isEmpty && s.all Char.isDigit && decide (natOfDigits s < limit)

/-- A number of an octet, without zeros in front. -/
def isOctet (s : List Char) : Bool := isNumber 256 s && (s.head? != some '0' || s.length == 1)

/-- An address of the fourth version. -/
def isVersion4 (s : List Char) : Bool :=
  (splitOn '.' s).length == 4 && (splitOn '.' s).all isOctet

/-- A group of hexadecimal digits. -/
def isGroup (s : List Char) : Bool :=
  !s.isEmpty && s.length ≤ 4 && s.all fun c => (hexDigit? c).isSome

/-- The count of groups in a part of an address; an address of the fourth version at the end stands
for two of them. -/
def groupCount? (allowsVersion4 : Bool) (s : List Char) : Option Nat :=
  if s.isEmpty then some 0
  else
    let parts := splitOn ':' s
    let front := parts.dropLast
    let last := parts.getLast?.getD []
    if !front.all isGroup then none
    else if isGroup last then some parts.length
    else if allowsVersion4 && isVersion4 last then some (parts.length + 1)
    else none

/-- The texts before and after two colons, if there are two colons. -/
def cutAtGap? : List Char → Option (List Char × List Char)
  | ':' :: ':' :: s => some ([], s)
  | c :: s => (cutAtGap? s).map fun (front, back) => (c :: front, back)
  | [] => none

/-- An address of the sixth version: eight groups, or fewer with a gap of at least one. -/
def isVersion6 (s : List Char) : Bool :=
  match cutAtGap? s with
  | none => groupCount? true s == some 8
  | some (front, back) =>
    match groupCount? false front, groupCount? true back with
    | some m, some n => m + n ≤ 7
    | _, _ => false

/-- An address of the sixth version, perhaps with a percent sign and the number of a scope. -/
def isScoped (s : List Char) : Bool :=
  match splitOn '%' s with
  | [address] => isVersion6 address
  | [address, scope] => isVersion6 address && isNumber (twoTo 32) scope
  | _ => false

/-- The text before the last mark, and the one after it. -/
def cutAtLast? (mark : Char) (s : List Char) : Option (List Char × List Char) :=
  let back := (s.reverse.takeWhile (· != mark)).reverse
  if back.length < s.length then some (s.take (s.length - back.length - 1), back) else none

/-- An address with a port. -/
def isSocketAddress (s : List Char) : Bool :=
  match cutAtLast? ':' s with
  | none => false
  | some (host, port) =>
    isNumber 65536 port &&
      match host with
      | '[' :: host =>
        match cutAtLast? ']' host with
        | some (address, []) => isScoped address
        | _ => false
      | host => isVersion4 host

end Datebook.Address
