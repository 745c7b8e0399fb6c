import Datebook.Toml.Number
import Datebook.Toml.Text
import Datebook.Toml.Tree

/-!
# TOML documents

A document is read line by line: blank lines, comments, headers of tables, and keys with their
values. Arrays may go over several lines, tables between braces may not. Values are nested to a
fixed depth at most.
-/

namespace Datebook.Toml

/-- Keys have fewer parts than this, and values fewer brackets that are open at a time. -/
def depthLimit : Nat := 80

/-- Skips blanks, line ends and comments; none if a comment holds a control character. -/
def skipFiller? : Bool → List Char → Option (List Char)
  | _, [] => some []
  | isComment, c :: s =>
    if c = '\n' then skipFiller? false s
    else if isComment then if isLineChar c then skipFiller? true s else none
    else if c = '#' then skipFiller? true s
    else if isGap c then skipFiller? false s
    else some (c :: s)

/-- Reads the values of an array up to its end, with the reader for one of them. -/
def readArray? (read? : List Char → Option (Setting × List Char)) :
    Nat → List Char → Option (List Setting × List Char)
  | 0, _ => none
  | n + 1, s => do
    match ← skipFiller? false s with
    | ']' :: s => return ([], s)
    | s =>
      let (value, s) ← read? s
      match ← skipFiller? false s with
      | ',' :: s =>
        let (values, s) ← readArray? read? n s
        return (value :: values, s)
      | ']' :: s => return ([value], s)
      | _ => none

/-- Reads a key and its value, and adds it to the members. -/
def readMember? (read? : List Char → Option (Setting × List Char)) (ms : Members) (s : List Char) :
    Option (Members × List Char) := do
  let (path, s) ← readKey? (depthLimit - 1) s
  let (value, s) ← read? (skipGap (← expect? ['='] s))
  return (← ms.add? (path.getLast?.getD "") (.value value) path.dropLast, s)

/-- Reads the members of a table between braces, at least one, up to its end. -/
def readInline? (read? : List Char → Option (Setting × List Char)) :
    Nat → Members → List Char → Option (Members × List Char)
  | 0, _, _ => none
  | n + 1, ms, s => do
    let (ms, s) ← readMember? read? ms s
    match skipGap s with
    | ',' :: s => readInline? read? n ms s
    | '\x7d' :: s => return (ms, s)
    | _ => none

/-- Reads a value inside which at most so many brackets may be open at a time. -/
def readValue? : Nat → List Char → Option (Setting × List Char)
  | depth, s =>
    match s with
    | [] => none
    | c :: rest =>
      if c = '"' ∨ c = '\'' then (readString? s).map fun (t, s) => (.text t, s)
      else if c = '[' then
        match depth with
        | 0 => none
        | depth + 1 =>
          (readArray? (readValue? depth) s.length rest).map fun (items, s) => (.list items, s)
      else if c = '\x7b' then
        match depth with
        | 0 => none
        | depth + 1 =>
          match skipGap rest with
          | '\x7d' :: s => some (.empty, s)
          | rest =>
            (readInline? (readValue? depth) s.length [] rest).map fun (ms, s) =>
              (.table (settings ms), s)
      else if c = 't' then (expect? "true".toList s).map fun s => (.boolean true, s)
      else if c = 'f' then (expect? "false".toList s).map fun s => (.boolean false, s)
      else readNumeric? s

/-- What has been read: the tables, and the path to the one that keys are added to. -/
structure Document where
  root : Members
  current : List String

namespace Document

/-- Takes a header, whose last part names a table of its own or the next one of a series. -/
def header? (d : Document) (path : List String) (isSeries : Bool) : Option Document := do
  let key ← path.getLast?
  let opened := if isSeries then Members.openNext? key else Members.open? key
  return ⟨← d.root.within? opened path.dropLast, path⟩

/-- Steps over the rest of a line, which holds no more than a comment. -/
def endLine? (s : List Char) : Option (List Char) :=
  match skipGap s with
  | [] => some []
  | '\n' :: s => some s
  | '#' :: s =>
    match s.dropWhile isLineChar with
    | [] => some []
    | '\n' :: s => some s
    | _ => none
  | _ => none

/-- Reads one line that holds more than blanks. -/
def readLine? (d : Document) (s : List Char) : Option (Document × List Char) :=
  match s with
  | '#' :: _ => (endLine? s).map fun s => (d, s)
  | '\n' :: s => some (d, s)
  | '[' :: '[' :: s => do
    let (path, s) ← readKey? (depthLimit - 1) s
    return (← d.header? path true, ← endLine? (← expect? [']', ']'] s))
  | '[' :: s => do
    let (path, s) ← readKey? (depthLimit - 1) s
    return (← d.header? path false, ← endLine? (← expect? [']'] s))
  | s => do
    let (path, s) ← readKey? (depthLimit - 1) s
    let (value, s) ← readValue? (depthLimit - 1) (skipGap (← expect? ['='] s))
    let add := Members.add? (path.getLast?.getD "") (.value value) path.dropLast
    return (⟨← d.root.within? add d.current, d.current⟩, ← endLine? s)

/-- Reads the lines of a document, of which there are at most this many. -/
def readLines? : Nat → Document → List Char → Option Document
  | 0, _, _ => none
  | n + 1, d, s =>
    match skipGap s with
    | [] => some d
    | s => do
      let (d, s) ← d.readLine? s
      readLines? n d s

end Document

/-- The text with a line feed alone at the end of every line. -/
def lineFeeds : List Char → List Char
  | '\x0d' :: '\n' :: s => '\n' :: lineFeeds s
  | c :: s => c :: lineFeeds s
  | [] => []

/-- The text without a byte order mark in front. -/
def dropMark : List Char → List Char
  | '\ufeff' :: s => s
  | s => s

/-- The table that a document is. -/
def ofText? (text : String) : Option Setting :=
  let s := lineFeeds (dropMark text.toList)
  (Document.readLines? (s.length + 1) ⟨[], []⟩ s).map fun d => .table (settings d.root)

end Datebook.Toml
