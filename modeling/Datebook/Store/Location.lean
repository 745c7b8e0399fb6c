import Datebook.Text.Decimal
import Datebook.Text.Percent

/-!
# Locations

A database is named by the path of its file, or by a location: the word `file:`, an authority that
must be this host, a path, and options after a question mark. An option can ask for less than there
is and never for more; one that asks for what there is not refuses the location, and one with
another name does not count.
-/

namespace Datebook

/-- What a database is opened for; one in memory needs no file. -/
inductive Access
  | reading
  | writing
  | creating
  | memory
  deriving DecidableEq

namespace Access

/-- The access that a word asks for, if it is no more than this one. -/
def narrow? (a : Access) (word : String) : Option Access :=
  if word = "ro" then some .reading
  else if word = "rw" then if a = .reading then none else some .writing
  else if word = "rwc" then if a = .reading ∨ a = .writing then none else some .creating
  else if word = "memory" then some .memory
  else none

end Access

/-- The path of a database, and how it is opened. -/
structure Location where
  path : String
  access : Access
  isOnDisk : Bool
  isFrozen : Bool
  deriving DecidableEq

namespace Location

/-- The database has no file of its own and is gone when it is closed. -/
def isPrivate (l : Location) : Bool := l.path == "" || l.path == ":memory:" || l.access == .memory

/-- The text of a part, which ends where an octet zero is escaped. -/
def partText (s : Octets) : String := Octets.lenientText (s.percentDecode.takeWhile (· != 0))

/-- The names and values of the options; one without a name does not count. -/
def options (query : Octets) : List (String × String) :=
  ((query.partsBetween 0x26).map fun pair =>
    let (name, value) := Octets.cutAt 0x3D pair
    (partText name, partText value)).filter fun (name, _) => name ≠ ""

/-- The access that the options leave, each in turn. -/
def access? (options : List (String × String)) : Option Access :=
  options.foldlM
    (fun a (name, value) =>
      if name = "mode" then a.narrow? value
      else if name = "cache" ∧ value ≠ "shared" ∧ value ≠ "private" then none
      else some a)
    .creating

/-- The value is a word for yes, or begins with a number whose last octet is not zero. -/
def isOn (value : String) : Bool :=
  match takeDigits? 11 value.toList with
  | some (digits, _) => natOfDigits digits < twoTo 31 && natOfDigits digits % 256 != 0
  | none => ["on", "yes", "true"].contains value.toLower

/-- The file systems that keep a database on the disk. -/
def diskSystems : List String := ["unix", "unix-none", "unix-dotfile", "unix-excl"]

/-- Whether the last file system that the options name is on the disk; none if it is unknown. -/
def onDisk? (options : List (String × String)) : Option Bool :=
  match options.reverse.lookup "vfs" with
  | none => some true
  | some name =>
    if diskSystems.contains name then some true
    else if name = "memdb" then some false
    else none

/-- What follows the authority, if that is this host or nothing. -/
def afterHost? (s : Octets) : Option Octets :=
  if s.take 2 = octetsOf "//" then
    let (host, rest) := (s.drop 2).span (· != 0x2F)
    if host = [] ∨ host = octetsOf "localhost" then some rest else none
  else some s

/-- Reads what follows the word `file:`. -/
def ofAddress? (s : Octets) : Option Location := do
  let (path, query) := Octets.cutAt 0x3F (Octets.cutAt 0x23 (← afterHost? s)).1
  let options := options query
  return ⟨partText path, ← access? options, ← onDisk? options,
    ((options.lookup "immutable").map isOn).getD false⟩

/-- The location that a text names. -/
def ofText? (text : String) : Option Location :=
  let s := octetsOf text
  if s.take 5 = octetsOf "file:" then ofAddress? (s.drop 5) else some ⟨text, .creating, true, false⟩

end Location

end Datebook
