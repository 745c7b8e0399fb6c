import Datebook.Json.Skip
import Datebook.Time.Timestamp

/-!
# Records

Objects with known members, read in one pass over the text. A record may also be an array of its
members in order, of which those at the end may be left out if they have a fallback. Members that
are not known are skipped; a known one that occurs twice is refused where its name occurs again.

Two faults are told apart, and the one that is met first counts: the text is no JSON up to here, or
it is JSON of another shape than the record's.
-/

namespace Datebook.Json

/-- Why a text is not a record. -/
inductive Fault
  | malformed
  | mismatch
  deriving DecidableEq

/-- The values that a member may have. -/
inductive Kind
  | text
  | instant
  | optionalInstant
  | optionalInteger
  deriving DecidableEq

/-- A member's value. -/
inductive Cell
  | text (s : String)
  | instant (t : Instant)
  | integer (n : Int)
  | null
  deriving DecidableEq

/-- A known member; one with a fallback may be left out. -/
structure Field where
  name : String
  kind : Kind
  fallback : Option Cell

/-- The text must go on as JSON. -/
def wellFormed {α : Type} : Option α → Except Fault α
  | some a => .ok a
  | none => .error .malformed

/-- The value must have the right shape. -/
def fits {α : Type} : Option α → Except Fault α
  | some a => .ok a
  | none => .error .mismatch

/-- The fault of a value of another kind than the one that is due. -/
def unexpected (s : Octets) : Fault :=
  match s with
  | [] => .malformed
  | b :: rest =>
    if b = 0x5B ∨ b = 0x7B then .mismatch
    else if b = 0x22 then if (readText? rest).isSome then .mismatch else .malformed
    else if b = 0x2D ∨ isDigit b then
      match numeral? s with
      | some (x, _) => if x.integer?.isNone && x.outOfRange then .malformed else .mismatch
      | none => .malformed
    else if (skipScalar? s).isSome then .mismatch
    else .malformed

def readTextCell (s : Octets) : Except Fault (Cell × Octets) :=
  match s with
  | b :: rest =>
    if b = 0x22 then (wellFormed (readText? rest)).map fun (t, r) => (.text t, r)
    else .error (unexpected s)
  | [] => .error .malformed

def readInstantCell (s : Octets) : Except Fault (Cell × Octets) :=
  match readTextCell s with
  | .ok (.text t, r) => (fits (Instant.ofText? t)).map fun t => (.instant t, r)
  | .ok _ => .error .mismatch
  | .error e => .error e

/-- An integer of 64 bits with a sign. -/
def readIntegerCell (s : Octets) : Except Fault (Cell × Octets) :=
  match numeral? s with
  | some (x, r) =>
    match x.integer? with
    | some n => if n < twoTo 63 then .ok (.integer n, r) else .error .mismatch
    | none => .error (unexpected s)
  | none => .error (unexpected s)

/-- Reads null, or else a value. -/
def readOptional (read : Octets → Except Fault (Cell × Octets)) (s : Octets) :
    Except Fault (Cell × Octets) :=
  match s with
  | b :: _ =>
    if b = 0x6E then (wellFormed (expect? wordNull s)).map fun r => (.null, r) else read s
  | [] => .error .malformed

/-- A value of the kind, after space. -/
def readCell (kind : Kind) (s : Octets) : Except Fault (Cell × Octets) :=
  match kind with
  | .text => readTextCell (skipSpace s)
  | .instant => readInstantCell (skipSpace s)
  | .optionalInstant => readOptional readInstantCell (skipSpace s)
  | .optionalInteger => readOptional readIntegerCell (skipSpace s)

/-- Known members with their values, the last read first. -/
abbrev Members := List (String × Cell)

/-- Reads one member, from the quote before its name. -/
def readMember (fields : List Field) (found : Members) (s : Octets) :
    Except Fault (Members × Octets) := do
  let (name, s) ← wellFormed ((expect? [0x22] s).bind readText?)
  match fields.find? (·.name == name) with
  | some field =>
    if (found.lookup name).isSome then throw .mismatch
    let (cell, s) ← readCell field.kind (← wellFormed (skipMark? 0x3A s))
    return ((name, cell) :: found, s)
  | none =>
    return (found, ← wellFormed ((skipMark? 0x3A s).bind skipValue?))

/-- Reads the members from the quote before a name to the closing bracket. -/
def readMembers (fields : List Field) : Nat → Members → Octets → Except Fault (Members × Octets)
  | 0, _, _ => .error .malformed
  | n + 1, found, s => do
    let (found, s) ← readMember fields found s
    match skipSpace s with
    | [] => throw .malformed
    | b :: rest =>
      if b = 0x2C then readMembers fields n found (skipSpace rest)
      else if b = 0x7D then return (found, rest)
      else throw .malformed

/-- The value of a field, or its fallback. -/
def cellOf (found : Members) (field : Field) : Except Fault Cell :=
  fits ((found.lookup field.name).or field.fallback)

/-- Reads an object from after its opening bracket. -/
def readObject (fields : List Field) (s : Octets) : Except Fault (List Cell × Octets) := do
  let (found, s) ← match skipMark? 0x7D s with
    | some rest => pure ([], rest)
    | none => readMembers fields (s.length + 1) [] (skipSpace s)
  return (← fields.mapM (cellOf found), s)

/-- Reads the elements for the fields that are left, up to the closing bracket. -/
def readElements : List Field → Bool → Octets → Except Fault (List Cell × Octets)
  | [], _, s => do return ([], ← wellFormed (skipMark? 0x5D s))
  | field :: fields, isFirst, s =>
    match skipSpace s with
    | [] => .error .malformed
    | b :: rest => do
      if b = 0x5D then
        let cell ← fits field.fallback
        let (cells, r) ← readElements fields isFirst (b :: rest)
        return (cell :: cells, r)
      else if b = 0x2C && !isFirst then
        match skipMark? 0x5D rest with
        | some _ => throw .malformed
        | none =>
          let (cell, r) ← readCell field.kind rest
          let (cells, r) ← readElements fields false r
          return (cell :: cells, r)
      else if isFirst then
        let (cell, r) ← readCell field.kind (b :: rest)
        let (cells, r) ← readElements fields false r
        return (cell :: cells, r)
      else throw .malformed

/-- Reads a record: the values of its fields in order. -/
def readRecord (fields : List Field) (s : Octets) : Except Fault (List Cell × Octets) :=
  match skipSpace s with
  | [] => .error .malformed
  | b :: rest =>
    if b = 0x7B then readObject fields rest
    else if b = 0x5B then readElements fields true rest
    else .error (unexpected (b :: rest))

/-- Reads a text that is a record and nothing else. -/
def readDocument (fields : List Field) (s : Octets) : Except Fault (List Cell) := do
  let (cells, rest) ← readRecord fields s
  if (skipSpace rest).isEmpty then return cells else throw .malformed

end Datebook.Json
