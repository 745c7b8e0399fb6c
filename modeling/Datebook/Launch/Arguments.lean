/-!
# Command lines

The arguments of a program, read from the first to the last. The first that asks for the help or
the version decides, and so does the first that is wrong; the path of the configuration may be
given once.
-/

namespace Datebook

/-- What the arguments ask for; a run may be given the path of its configuration. -/
inductive Arguments
  | help
  | version
  | misused
  | run (path : Option String)
  deriving DecidableEq

/-- What one argument is; the value of an option may be the next argument. -/
inductive Argument
  | help
  | version
  | config (value : Option String)
  | ending
  | wrong
  deriving DecidableEq

namespace Argument

/-- A value that is written right after an option's letter, perhaps after an equals sign. -/
def attached : List Char → Option String
  | [] => none
  | '=' :: s => some (String.ofList s)
  | s => some (String.ofList s)

/-- An option by its whole name, after two hyphens. -/
def ofName (s : List Char) : Argument :=
  let name := s.takeWhile (· != '=')
  if s = "help".toList then .help
  else if s = "version".toList then .version
  else if name = "config".toList then .config (attached (s.drop name.length))
  else .wrong

/-- An option by its letter, after one hyphen. -/
def ofLetter (letter : Char) (s : List Char) : Argument :=
  if letter = 'h' then .help
  else if letter = 'V' then .version
  else if letter = 'c' then .config (attached s)
  else .wrong

def ofText (s : String) : Argument :=
  match s.toList with
  | ['-', '-'] => .ending
  | '-' :: '-' :: s => ofName s
  | '-' :: letter :: s => ofLetter letter s
  | _ => .wrong

/-- The text can be the value of an option before it. -/
def isValue (s : String) : Bool := s.toList.head? != some '-' || s == "-"

/-- The arguments with their values, up to the first that decides or is wrong. -/
def scan : List String → List Argument
  | [] => []
  | s :: rest =>
    match ofText s with
    | .help => [.help]
    | .version => [.version]
    | .wrong => [.wrong]
    | .ending => if rest.isEmpty then [] else [.wrong]
    | .config (some value) => .config (some value) :: scan rest
    | .config none =>
      match rest with
      | [] => [.wrong]
      | value :: rest => if isValue value then .config (some value) :: scan rest else [.wrong]

end Argument

namespace Arguments

/-- What arguments ask for, after those that gave this path. -/
def settle (path : Option String) : List Argument → Arguments
  | [] => .run path
  | .help :: _ => .help
  | .version :: _ => .version
  | .config value :: rest => if path.isSome then .misused else settle value rest
  | _ :: _ => .misused

def ofTexts (texts : List String) : Arguments := settle none (Argument.scan texts)

end Arguments

end Datebook
