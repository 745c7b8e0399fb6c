import Datebook.Text.Percent
import Datebook.Time.Timestamp

/-!
# Request targets

The path and the query of a request, which may stand in a whole address. The path names a route,
part by part as written; an event's id in it is escaped with percent signs. The query is a form, in
which a plus sign is a space.
-/

namespace Datebook.Api

def slash : UInt8 := 0x2F

/-- What a request is addressed to. -/
structure Target where
  path : Octets
  query : Octets
  deriving DecidableEq

/-- A scheme is written with letters, digits and these signs. -/
def isSchemeOctet (b : UInt8) : Bool :=
  (Char.ofUInt8 b).isAlphanum || b == 0x2B || b == 0x2D || b == 0x2E

/-- What follows the scheme and the authority of a whole address; any other text is as it was. -/
def afterAuthority (s : Octets) : Octets :=
  let rest := s.dropWhile isSchemeOctet
  if rest.take 3 = octetsOf "://" then
    (rest.drop 3).dropWhile fun b => b != slash && b != 0x3F && b != 0x23
  else s

/-- The target that is written so, alone or as a whole address; what follows a number sign does not
count. -/
def Target.ofText (s : String) : Target :=
  let (path, query) := Octets.cutAt 0x3F (Octets.cutAt 0x23 (afterAuthority (octetsOf s))).1
  ⟨path, query⟩

/-- The resources that there are. -/
inductive Route
  | health
  | events
  | event (id : Octets)
  deriving DecidableEq

/-- The resource of a path. -/
def Route.ofPath? (path : Octets) : Option Route :=
  match path.partsBetween slash with
  | [[], part] =>
    if part = octetsOf "health" then some .health
    else if part = octetsOf "events" then some .events
    else none
  | [[], part, id] => if part = octetsOf "events" ∧ id ≠ [] then some (.event id) else none
  | _ => none

/-- The text of a key or value in a form. -/
def formText (s : Octets) : String :=
  Octets.lenientText (Octets.percentDecode (s.map fun b => if b = 0x2B then 0x20 else b))

/-- The keys and values of a form, in order. -/
def formPairs (query : Octets) : List (String × String) :=
  ((query.partsBetween 0x26).filter (· ≠ [])).map fun pair =>
    (formText (Octets.cutAt 0x3D pair).1, formText (Octets.cutAt 0x3D pair).2)

/-- The instant under a key of a form, if there is one; none if it is no instant or not the only
one. -/
def formInstant? (pairs : List (String × String)) (key : String) : Option (Option Instant) :=
  match pairs.filter fun pair => pair.1 == key with
  | [] => some none
  | [(_, value)] => (Instant.ofText? value).map some
  | _ => none

/-- The bounds that a query sets. -/
structure Bounds where
  start : Option Instant
  finish : Option Instant
  deriving DecidableEq

def Bounds.ofQuery? (query : Octets) : Option Bounds := do
  let pairs := formPairs query
  return ⟨← formInstant? pairs "from", ← formInstant? pairs "to"⟩

end Datebook.Api
