/-!
# Media types

Whether a body is said to be JSON: a media type of the application kind whose name, or whose suffix
after its last plus sign, is `json`. Case makes no difference, and parameters may follow as long as
they are well formed.
-/

namespace Datebook.Api

def isTokenChar (c : Char) : Bool := c.isAlphanum || "!#$%&'*+-.^_`|~".toList.contains c

/-- A character that a header may have. -/
def isHeaderChar (c : Char) : Bool := (' ' ≤ c && c < '\x7f') || c == '\t'

/-- The rest after the value of a parameter; a value between quotes has at least one character. -/
def skipParameterValue? (s : List Char) : Option (List Char) :=
  match s with
  | '"' :: s =>
    match s with
    | [] => none
    | c :: s =>
      match s.dropWhile fun d => d != '"' && ' ' ≤ d with
      | '"' :: rest => if ' ' ≤ c then some (rest.dropWhile (· == ' ')) else none
      | _ => none
  | s =>
    let rest := s.dropWhile isTokenChar
    if (s.takeWhile isTokenChar).isEmpty && !rest.isEmpty then none else some rest

/-- The text is a list of parameters, of at most so many characters. -/
def areParameters : Nat → List Char → Bool
  | 0, s => s.isEmpty
  | n + 1, s =>
    match s with
    | [] => true
    | ' ' :: s => areParameters n s
    | s =>
      match s.dropWhile isTokenChar with
      | '=' :: value =>
        !(s.takeWhile isTokenChar).isEmpty &&
          match skipParameterValue? value with
          | some [] => true
          | some (';' :: rest) => areParameters n rest
          | _ => false
      | _ => false

/-- The name of a media type and its suffix, if it has one: a plus sign that is not its first
character begins the suffix. -/
def nameAndSuffix (s : List Char) : List Char × Option (List Char) :=
  let suffix := (s.reverse.takeWhile (· != '+')).reverse
  let name := s.take (s.length - suffix.length - 1)
  if s.contains '+' && !name.isEmpty then (name, some suffix) else (s, none)

/-- The media type is one for JSON. -/
def isJsonType (mediaType : String) : Bool :=
  let s := mediaType.toList.map Char.toLower
  let (kind, rest) := (s.takeWhile (· != '/'), (s.dropWhile (· != '/')).drop 1)
  let (subtype, parameters) := (rest.takeWhile isTokenChar, rest.dropWhile isTokenChar)
  let (name, suffix) := nameAndSuffix subtype
  s.all isHeaderChar && kind == "application".toList &&
    (name == "json".toList || suffix == some "json".toList) &&
    match parameters with
    | [] => true
    | ';' :: parameters => areParameters parameters.length parameters
    | _ => false

end Datebook.Api
