import Datebook.Store.Events
import Datebook.Store.Notifications

/-!
# Files and directories

A tree of files, some of which hold a database. A path is followed part by part and may only go on
from a directory, so that a step back undoes only a step that could be taken. Directories that a
path needs are made in the same order. `at?_put_self` and `at?_put_of_ne`: to put something in one
place changes that place and no other.
-/

namespace Datebook

/-- The two tables of a database. -/
structure Database where
  events : EventTable
  notifications : NotificationTable
  deriving DecidableEq

def Database.empty : Database := ⟨[], []⟩

/-- A place in the tree: the names on the way from its root. -/
abbrev Place := List String

/-- What a place holds. -/
inductive Node
  | directory
  | file (content : Octets)
  | database (content : Database)
  | device
  deriving DecidableEq

/-- The places that hold something; the root of the tree is always a directory. -/
structure Folder where
  nodes : List (Place × Node)
  deriving DecidableEq

/-- The parts of a path; an empty one or a single point stays where it is, two points go back. -/
def pathParts (path : String) : List String := path.splitToList (· == '/')

/-- The path begins at the root. -/
def isWhole (path : String) : Bool := path.toList.head? = some '/'

def staysPut (part : String) : Bool := part == "" || part == "."

/-- A text that can be the name of something: not too long, and without the character zero. -/
def isName (part : String) : Bool :=
  part.utf8ByteSize ≤ 255 && !part.toList.contains '\x00'

/-- The octets of the longest path. -/
def longestPath : Nat := 4095

namespace Place

/-- The path of a place. -/
def path (p : Place) : String := String.join (p.map ("/" ++ ·))

/-- Where a path begins that is seen from this place. -/
def start (base : Place) (path : String) : Place := if isWhole path then [] else base

end Place

namespace Folder

def at? (f : Folder) (p : Place) : Option Node :=
  if p = [] then some .directory else f.nodes.lookup p

def put (f : Folder) (p : Place) (n : Node) : Folder :=
  ⟨f.nodes.filter (fun entry => entry.1 ≠ p) ++ [(p, n)]⟩

/-- Takes one step of a path, which only a directory lets go on. -/
def step? (f : Folder) (p : Place) (part : String) : Option Place :=
  if f.at? p ≠ some .directory then none
  else if staysPut part then some p
  else if part = ".." then some p.dropLast
  else if isName part then some (p ++ [part])
  else none

/-- Makes the directories that the parts of a path lead through, and tells where they lead; none if
something else is in the way, but what was made by then stays. -/
def makeDirectories (f : Folder) (p : Place) : List String → Option Place × Folder
  | [] => (some p, f)
  | part :: parts =>
    if staysPut part then f.makeDirectories p parts
    else if part = ".." then f.makeDirectories p.dropLast parts
    else if !isName part then (none, f)
    else
      match f.at? (p ++ [part]) with
      | some .directory => f.makeDirectories (p ++ [part]) parts
      | some _ => (none, f)
      | none => (f.put (p ++ [part]) .directory).makeDirectories (p ++ [part]) parts

/-- Makes the directory of a path, and those above it. -/
def addDirectory (f : Folder) (base : Place) (path : String) : Folder :=
  (f.makeDirectories (base.start path) (pathParts path)).2

/-- Puts a file into the tree, and the directories above it. -/
def addFile (f : Folder) (base : Place) (path : String) (content : Octets) : Folder :=
  let parts := pathParts path
  match f.makeDirectories (base.start path) parts.dropLast with
  | (some p, f) => f.put (p ++ (parts.drop (parts.length - 1))) (.file content)
  | (none, f) => f

/-- The content of the file that a path leads to, if there is one. -/
def file? (f : Folder) (base : Place) (path : String) : Option Octets := do
  let path := if isWhole path then path else base.path ++ "/" ++ path
  if longestPath < path.utf8ByteSize then none
  let p ← (pathParts path).foldlM f.step? []
  match f.at? p with
  | some (.file content) => some content
  | _ => none

theorem lookup_filter_ne (nodes : List (Place × Node)) (p : Place) :
    (nodes.filter fun entry => decide (entry.1 ≠ p)).lookup p = none := by
  rw [List.lookup_eq_none_iff]
  intro entry hentry
  have := (List.mem_filter.1 hentry).2
  simp only [decide_eq_true_eq] at this
  simpa using fun hp => this hp.symm

theorem lookup_filter_of_ne (nodes : List (Place × Node)) {p q : Place} (h : q ≠ p) :
    (nodes.filter fun entry => decide (entry.1 ≠ p)).lookup q = nodes.lookup q := by
  induction nodes with
  | nil => rfl
  | cons entry nodes ih =>
    obtain ⟨r, n⟩ := entry
    rw [List.filter_cons, List.lookup_cons]
    split
    · rw [List.lookup_cons, ih]
    · rename_i hr
      have hr : r = p := by simpa using hr
      rw [ih, hr, beq_eq_false_iff_ne.2 h]

theorem at?_put_self {f : Folder} {p : Place} (h : p ≠ []) (n : Node) :
    (f.put p n).at? p = some n := by
  simp only [at?, put, h, if_false, List.lookup_append, lookup_filter_ne]
  simp

theorem at?_put_of_ne {f : Folder} {p q : Place} (h : q ≠ p) (n : Node) :
    (f.put p n).at? q = f.at? q := by
  have hq : ([(p, n)] : List (Place × Node)).lookup q = none := by
    rw [List.lookup_cons, beq_eq_false_iff_ne.2 h]
    rfl
  simp only [at?, put, List.lookup_append, lookup_filter_of_ne f.nodes h, hq, Option.or_none]

end Folder

end Datebook
