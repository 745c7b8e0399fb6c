import Datebook.Settings.Value
import Datebook.Text.Blank
import Datebook.Text.Decimal
import Datebook.Text.Escaped

/-!
# Settings from the environment

An entry of the environment sets one key if its name begins as those of this program do; the rest
of the name is the path to the key, in any case. Its value is read as a word, a quoted text, a list
or a table; one that cannot be read as any of these is a text as it stands, with the blanks around
it.
-/

namespace Datebook.Environment

def isSpace (c : Char) : Bool := c == ' ' || c == '\t' || c == '\n' || c == '\x0c' || c == '\x0d'

def skipSpace (s : List Char) : List Char := s.dropWhile isSpace

/-- The characters that end a word. -/
def isSeparator (c : Char) : Bool := c == ',' || c == '\x7b' || c == '\x7d' || c == '[' || c == ']'

def dropSign : List Char → List Char
  | '+' :: s => s
  | '-' :: s => s
  | s => s

/-- The word is an integer of at most 64 bits, with a sign or without. -/
def integer? (word : List Char) : Option Int :=
  let digits := dropSign word
  if digits.isEmpty || !digits.all Char.isDigit then none
  else
    let n : Int := natOfDigits digits
    if word.head? = some '-' then
      if n ≤ twoTo 63 then some (-n) else none
    else if n < twoTo 64 then some n else none

/-- There is nothing here, or an exponent. -/
def isExponent : List Char → Bool
  | [] => true
  | c :: s => (c == 'e' || c == 'E') && !(dropSign s).isEmpty && (dropSign s).all Char.isDigit

/-- The word is a number with a decimal point. -/
def isFloat (word : List Char) : Bool :=
  let s := dropSign word
  let whole := s.takeWhile Char.isDigit
  match s.dropWhile Char.isDigit with
  | '.' :: s =>
    let fraction := s.takeWhile Char.isDigit
    !(whole.isEmpty && fraction.isEmpty) && isExponent (s.dropWhile Char.isDigit)
  | _ => false

/-- The value of a word that is not quoted. -/
def wordValue (word : List Char) : Setting :=
  if isFloat word then .float
  else
    match integer? word with
    | some n => .integer n
    | none => .text (String.ofList word)

/-- Steps over a word if it stands here. -/
def expectWord? : List Char → List Char → Option (List Char)
  | [], s => some s
  | _ :: _, [] => none
  | w :: ws, c :: s => if w = c then expectWord? ws s else none

/-- The characters at the front that fit into this many octets. -/
def fitting : Nat → List Char → List Char
  | _, [] => []
  | n, c :: s => if c.utf8Size ≤ n then c :: fitting (n - c.utf8Size) s else []

/-- Reads a quoted text from after the quote that opens it. Of what stands before its first escape
only as many octets are kept as that has characters. -/
def readQuoted? (s : List Char) : Option (String × List Char) := do
  let (raw, rest) ← untilQuote? s
  let text ← unescape? isLineChar raw
  let front := raw.takeWhile (· != '\\')
  let kept := if raw.contains '\\' then fitting front.length front else front
  return (String.ofList (kept ++ text.drop front.length), rest)

def isKeyChar (c : Char) : Bool := c.isAlphanum || c == '_' || c == '-'

/-- The key of a member, up to the mark after it. -/
def readKey? (s : List Char) : Option (String × List Char) := do
  let s := skipSpace s
  let (key, s) ← match s with
    | '"' :: s => readQuoted? s
    | _ =>
      let key := s.takeWhile isKeyChar
      if key.isEmpty then none else some (String.ofList key, s.dropWhile isKeyChar)
  return (key, ← expectWord? ['='] (skipSpace s))

/-- Reads a word up to the next separator. -/
def readWord (s : List Char) : Setting × List Char :=
  (wordValue (trimBlanks (s.takeWhile (!isSeparator ·))), s.dropWhile (!isSeparator ·))

mutual

/-- Reads a value and the space around it, at most this deep. -/
def readValue? : Nat → List Char → Option (Setting × List Char)
  | 0, _ => none
  | n + 1, s => do
    let s := skipSpace s
    let (value, s) ←
      if let some s := expectWord? "true".toList s then some (.boolean true, s)
      else if let some s := expectWord? "false".toList s then some (.boolean false, s)
      else match s with
        | '\x7b' :: s => (readMembers? n [] s).map fun (ms, s) => (.table ms, s)
        | '[' :: s => (readItems? n s).map fun (items, s) => (.list items, s)
        | '"' :: s => (readQuoted? s).map fun (t, s) => (.text t, s)
        | '\'' :: s =>
          match s with
          | c :: '\'' :: s => some (.text (String.ofList [c]), s)
          | _ => none
        | s => some (readWord s)
    return (value, skipSpace s)

/-- Reads the items of a list up to its end; a separator may stand after the last one. -/
def readItems? : Nat → List Char → Option (List Setting × List Char)
  | 0, _ => none
  | n + 1, s =>
    match s with
    | ']' :: s => some ([], s)
    | s => do
      let (item, s) ← readValue? n s
      match s with
      | ',' :: s => do
        let (items, s) ← readItems? n s
        return (item :: items, s)
      | s => return ([item], ← expectWord? [']'] s)

/-- Reads the members of a table up to its end, on top of those that were read. -/
def readMembers? : Nat → Setting.Members → List Char → Option (Setting.Members × List Char)
  | 0, _, _ => none
  | n + 1, found, s =>
    match s with
    | '\x7d' :: s => some (found, s)
    | s => do
      let (key, s) ← readKey? s
      let (value, s) ← readValue? n s
      let found := Setting.Members.put key value found
      match s with
      | ',' :: s => readMembers? n found s
      | s => return (found, ← expectWord? ['\x7d'] s)

end

/-- The value of an entry. -/
def valueOf (text : String) : Setting :=
  match readValue? (2 * text.length + 2) text.toList with
  | some (value, []) => value
  | _ => .text text

/-- How the names of this program's entries begin. -/
def programName : List Char := "calendar_".toList

/-- The usual name of the entry for a key of a section. -/
def entryName (part key : String) : String :=
  "CALENDAR_" ++ part.toUpper ++ "__" ++ key.toUpper

/-- Each pair of underscores parts the names on the path. -/
def dotPairs : List Char → List Char
  | '_' :: '_' :: s => '.' :: dotPairs s
  | c :: s => c :: dotPairs s
  | [] => []

/-- The path to the key that an entry sets; none if it sets none. -/
def path? (name : String) : Option (List String) :=
  let name := (trimBlanks name.toList).map Char.toLower
  match expectWord? programName name with
  | none => none
  | some rest =>
    let path := (String.ofList (trimBlanks (dotPairs rest))).splitToList (· == '.')
    if path.contains "" then none else some path

/-- The layer of settings that the entries make, each laid over those before it. -/
def layer (entries : List (String × String)) : Setting :=
  entries.foldl
    (fun below (name, text) =>
      match path? name with
      | some path => below.overlay (Setting.nested path (valueOf text))
      | none => below)
    .empty

end Datebook.Environment
