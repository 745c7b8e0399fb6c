import Datebook.Text.Escaped

/-!
# TOML strings and keys

The four ways to write a string, and keys of parts with points between them. Lines end with a line
feed alone here: a document has its line ends made so before it is read.
-/

namespace Datebook.Toml

def isGap (c : Char) : Bool := c == ' ' || c == '\t'

/-- The text from the first character that is neither a space nor a tab. -/
def skipGap (s : List Char) : List Char := s.dropWhile isGap

/-- Steps over what stands here. -/
def expect? : List Char → List Char → Option (List Char)
  | [], s => some s
  | _ :: _, [] => none
  | w :: ws, c :: s => if w = c then expect? ws s else none

/-- A character that may stand for itself in a string of several lines. -/
def isLinesChar (c : Char) : Bool := isLineChar c || c == '\n'

/-- Quotes that stand before the last three belong to the string, two of them at most. -/
def closingQuotes (q : Char) (s : List Char) : List Char × List Char :=
  let extra := (s.take 2).takeWhile (· == q)
  (extra, s.drop extra.length)

/-- The characters up to three quotes, and what follows them. -/
def untilQuotes? (q : Char) (hasEscapes : Bool) : List Char → Option (List Char × List Char)
  | [] => none
  | c :: s =>
    if c = q then
      if s.take 2 = [q, q] then some (closingQuotes q (s.drop 2))
      else (untilQuotes? q hasEscapes s).map fun (cs, rest) => (c :: cs, rest)
    else if hasEscapes && c == '\\' then
      match s with
      | [] => none
      | d :: s => (untilQuotes? q hasEscapes s).map fun (cs, rest) => (c :: d :: cs, rest)
    else (untilQuotes? q hasEscapes s).map fun (cs, rest) => (c :: cs, rest)

/-- A backslash at the end of a line takes away all blanks and line ends up to the next
character. -/
def joinLines : Bool → List Char → List Char
  | _, [] => []
  | isSkipping, c :: s =>
    if isSkipping && (isGap c || c == '\n') then joinLines true s
    else if c = '\\' then
      if (skipGap s).head? = some '\n' then joinLines true s
      else
        match s with
        | [] => [c]
        | d :: s => c :: d :: joinLines false s
    else c :: joinLines false s

/-- A line end right after the opening quotes does not count. -/
def dropLineEnd : List Char → List Char
  | '\n' :: s => s
  | s => s

/-- A string of several lines, after its opening quotes. -/
def readLines? (q : Char) (s : List Char) : Option (String × List Char) := do
  let (raw, rest) ← untilQuotes? q (q == '"') (dropLineEnd s)
  if q = '"' then
    return (String.ofList (← unescape? isLinesChar (joinLines false raw)), rest)
  else if raw.all isLinesChar then return (String.ofList raw, rest)
  else none

/-- A string without escapes, after its opening quote. -/
def readLiteral? (s : List Char) : Option (String × List Char) :=
  match s.dropWhile fun c => isLineChar c && c != '\'' with
  | '\'' :: rest => some (String.ofList (s.takeWhile fun c => isLineChar c && c != '\''), rest)
  | _ => none

/-- A string of any kind, from its first quote. -/
def readString? (s : List Char) : Option (String × List Char) :=
  match s with
  | '"' :: '"' :: '"' :: s => readLines? '"' s
  | '\'' :: '\'' :: '\'' :: s => readLines? '\'' s
  | '"' :: s => readEscaped? s
  | '\'' :: s => readLiteral? s
  | _ => none

def isBareChar (c : Char) : Bool := c.isAlphanum || c == '_' || c == '-'

/-- One part of a key. -/
def readPart? (s : List Char) : Option (String × List Char) :=
  match s with
  | '"' :: s => readEscaped? s
  | '\'' :: s => readLiteral? s
  | s =>
    if (s.takeWhile isBareChar).isEmpty then none
    else some (String.ofList (s.takeWhile isBareChar), s.dropWhile isBareChar)

/-- The parts of a key, of which there are at most this many, with the blanks around them. -/
def readKey? : Nat → List Char → Option (List String × List Char)
  | 0, _ => none
  | n + 1, s => do
    let (part, s) ← readPart? (skipGap s)
    match skipGap s with
    | '.' :: s => do
      let (parts, s) ← readKey? n s
      return (part :: parts, s)
    | s => return ([part], s)

end Datebook.Toml
