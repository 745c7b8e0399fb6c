import Datebook.Json.Numeral

/-!
# Skipping a value

Steps over any value, at any depth, checking no more than its form. The brackets that are still open
are kept in a list, so the depth of a value costs no nesting here.
-/

namespace Datebook.Json

/-- The rest after these octets, if they stand here. -/
def expect? : Octets → Octets → Option Octets
  | [], s => some s
  | _ :: _, [] => none
  | w :: ws, b :: s => if w = b then expect? ws s else none

def wordTrue : Octets := [0x74, 0x72, 0x75, 0x65]

def wordFalse : Octets := [0x66, 0x61, 0x6C, 0x73, 0x65]

def wordNull : Octets := [0x6E, 0x75, 0x6C, 0x6C]

/-- Steps over one octet, after space. -/
def skipMark? (mark : UInt8) (s : Octets) : Option Octets := expect? [mark] (skipSpace s)

/-- Steps over a value that is neither an array nor an object. -/
def skipScalar? (s : Octets) : Option Octets :=
  match s with
  | [] => none
  | b :: rest =>
    if b = 0x22 then skipText? rest
    else if b = 0x74 then expect? wordTrue s
    else if b = 0x66 then expect? wordFalse s
    else if b = 0x6E then expect? wordNull s
    else (numeral? s).map (·.2)

/-- A bracket that is open. -/
inductive Bracket
  | array
  | object
  deriving DecidableEq

def Bracket.closing : Bracket → UInt8
  | .array => 0x5D
  | .object => 0x7D

/-- Steps over a member's name and its colon. -/
def skipName? (s : Octets) : Option Octets :=
  ((skipMark? 0x22 s).bind skipText?).bind (skipMark? 0x3A)

/-- Steps over what must stand before a value inside the bracket. -/
def Bracket.enter? : Bracket → Octets → Option Octets
  | .array, s => some s
  | .object, s => skipName? s

/-- What comes next in the text: a value, or what may follow one. -/
inductive Awaited
  | value
  | ending

/-- Steps over the rest of a value inside the open brackets; each step takes an octet. -/
def skipFrom? : Nat → Awaited → List Bracket → Octets → Option Octets
  | 0, _, _, _ => none
  | n + 1, .value, stack, s =>
    match skipSpace s with
    | [] => none
    | b :: rest =>
      if b = 0x5B ∨ b = 0x7B then
        let bracket := if b = 0x5B then Bracket.array else .object
        match skipMark? bracket.closing rest with
        | some r => skipFrom? n .ending stack r
        | none => (bracket.enter? rest).bind (skipFrom? n .value (bracket :: stack))
      else (skipScalar? (b :: rest)).bind (skipFrom? n .ending stack)
  | _ + 1, .ending, [], s => some s
  | n + 1, .ending, bracket :: stack, s =>
    match skipSpace s with
    | [] => none
    | b :: rest =>
      if b = 0x2C then (bracket.enter? rest).bind (skipFrom? n .value (bracket :: stack))
      else if b = bracket.closing then skipFrom? n .ending stack rest
      else none

/-- Steps over a value. -/
def skipValue? (s : Octets) : Option Octets := skipFrom? (s.length + 1) .value [] s

end Datebook.Json
