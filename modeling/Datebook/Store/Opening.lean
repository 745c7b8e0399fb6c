import Datebook.Store.Folder
import Datebook.Store.Location

/-!
# Opening a database

The directories above a database's path are made first. Then the path is read by its letters alone,
and if there is no file the database is made; a file with something else in it is refused, and so is
a name that leaves no room for the file of changes beside it. What was stored stays in the file when
the database is closed (`at?_close`), and a database without a file is gone.
-/

namespace Datebook

/-- Why a database cannot be opened: its directory cannot be made, or it is none. -/
inductive OpenError
  | io
  | database
  deriving DecidableEq

/-- The short name of the cause. -/
def OpenError.code : OpenError → String
  | .io => "IO_ERROR"
  | .database => "DATABASE_ERROR"

/-- The beginning of the text of the error. -/
def OpenError.message : OpenError → String
  | .io => "I/O error"
  | .database => "database error"

/-- A database in use, with the place of its file unless it is private. -/
structure OpenDatabase where
  place : Option Place
  content : Database
  deriving DecidableEq

/-- The octets of a place's path. -/
def Place.size (p : Place) : Nat := p.path.utf8ByteSize

/-- The octets of the longest path while it is read, and of the longest path of a database. -/
def longestReading : Nat := 511

def longestDatabasePath : Nat := 504

/-- The longest name of a database, which a file of changes with a longer name stands beside. -/
def longestDatabaseName : Nat := 247

/-- The parts of a path that lead to the directory of what it names. -/
def directoryParts (path : String) : List String :=
  ((((pathParts path).reverse.dropWhile staysPut).drop 1).dropWhile staysPut).reverse

namespace Folder

/-- Makes the directories above what a path names; none if that cannot be done. -/
def makeRoom (f : Folder) (base : Place) (path : String) : Option Place × Folder :=
  let parts := directoryParts path
  let text := "/".intercalate parts
  if longestPath < text.utf8ByteSize ∨ text.toList.contains '\x00' then (none, f)
  else f.makeDirectories (base.start path) parts

/-- What is here, if there is anything, is a directory. -/
def isOpen (f : Folder) (p : Place) : Bool :=
  match f.at? p with
  | some .directory | none => true
  | some _ => false

/-- Adds a part to a place by its letters: it need not be there, but nothing lies in a file. -/
def append? (f : Folder) (p : Place) (part : String) : Option Place :=
  if staysPut part then some p
  else if part = ".." then some p.dropLast
  else
    let q := p ++ [part]
    if f.isOpen p && isName part && q.size ≤ longestReading then some q else none

/-- The place of a database's file. -/
def databasePlace? (f : Folder) (base : Place) (path : String) : Option Place := do
  let p ← (pathParts path).foldlM f.append? (base.start path)
  if p ≠ [] ∧ p.size ≤ longestDatabasePath ∧ f.at? p.dropLast = some .directory then some p
  else none

/-- Nothing keeps changes from being written to the database at this place. -/
def takesChanges (l : Location) (p : Place) : Bool :=
  !l.isFrozen && (p.getLast?.getD "").utf8ByteSize ≤ longestDatabaseName

/-- Opens the file at a place. -/
def openPlace (f : Folder) (l : Location) (p : Place) : Except OpenError OpenDatabase × Folder :=
  let opened (d : Database) : Except OpenError OpenDatabase × Folder :=
    if takesChanges l p then (.ok ⟨some p, d⟩, f.put p (.database d))
    else (.error .database, if f.at? p = none then f.put p (.file []) else f)
  match f.at? p with
  | none => if l.access = .creating then opened .empty else (.error .database, f)
  | some (.file []) => opened .empty
  | some (.database d) => opened d
  | some _ => (.error .database, f)

/-- Opens what a location names. -/
def openLocation (f : Folder) (base : Place) (l : Location) :
    Except OpenError OpenDatabase × Folder :=
  if l.access = .reading then (.error .database, f)
  else if l.isPrivate ∨ (!l.isOnDisk ∧ !l.isFrozen) then (.ok ⟨none, .empty⟩, f)
  else if !l.isOnDisk then (.error .database, f)
  else
    match f.databasePlace? base l.path with
    | some p => f.openPlace l p
    | none => (.error .database, f)

/-- Opens the database of a path or a location, seen from the place `base`. -/
def openDatabase (f : Folder) (base : Place) (path : String) :
    Except OpenError OpenDatabase × Folder :=
  match f.makeRoom base path with
  | (none, f) => (.error .io, f)
  | (some _, f) =>
    if path.toList.contains '\x00' then (.error .database, f)
    else
      match Location.ofText? path with
      | some l => f.openLocation base l
      | none => (.error .database, f)

/-- Closes a database, which leaves what it holds in its file. -/
def close (f : Folder) (d : OpenDatabase) : Folder :=
  match d.place with
  | some p => f.put p (.database d.content)
  | none => f

theorem at?_close {f : Folder} {p : Place} (h : p ≠ []) (d : Database) :
    (f.close ⟨some p, d⟩).at? p = some (.database d) := by
  simp [close, at?_put_self h]

end Folder

end Datebook
