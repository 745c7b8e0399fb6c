/-!
# Escaped text

Text between double quotes in which a backslash begins an escape. It is read in two stages: up to
the quote that closes it, and then without its escapes.
-/

namespace Datebook

/-- The characters up to the quote that closes the text, escapes as they stand, and what follows. -/
def untilQuote? : List Char → Option (List Char × List Char)
  | [] => none
  | c :: s =>
    if c = '"' then some ([], s)
    else if c = '\\' then
      match s with
      | [] => none
      | d :: s => (untilQuote? s).map fun (cs, rest) => (c :: d :: cs, rest)
    else (untilQuote? s).map fun (cs, rest) => (c :: cs, rest)

/-- What a letter stands for after a backslash. -/
def escapedChar? (c : Char) : Option Char :=
  if c = '"' ∨ c = '\\' then some c
  else if c = 'b' then some '\x08'
  else if c = 't' then some '\x09'
  else if c = 'n' then some '\x0a'
  else if c = 'f' then some '\x0c'
  else if c = 'r' then some '\x0d'
  else none

def hexDigit? (c : Char) : Option Nat :=
  let n := c.toNat
  if 48 ≤ n ∧ n ≤ 57 then some (n - 48)
  else if 97 ≤ n ∧ n ≤ 102 then some (n - 87)
  else if 65 ≤ n ∧ n ≤ 70 then some (n - 55)
  else none

/-- The character whose number these hexadecimal digits are. -/
def charOfHex? (digits : List Char) : Option Char := do
  let n ← digits.foldlM (fun n c => (hexDigit? c).map (n * 16 + ·)) 0
  if n.isValidChar then some (Char.ofNat n) else none

/-- A character that may stand for itself on one line: a tab or one that is no control character. -/
def isLineChar (c : Char) : Bool := c == '\x09' || (' ' ≤ c && c != '\x7f')

/-- The text without its escapes; every other character must be one that may stand for itself. -/
def unescape? (isPlain : Char → Bool) : List Char → Option (List Char)
  | [] => some []
  | c :: s =>
    if c = '\\' then
      match s with
      | [] => none
      | e :: s =>
        if e = 'u' then
          match s with
          | a :: b :: c :: d :: s => do
            let x ← charOfHex? [a, b, c, d]
            return x :: (← unescape? isPlain s)
          | _ => none
        else if e = 'U' then
          match s with
          | a :: b :: c :: d :: e :: f :: g :: h :: s => do
            let x ← charOfHex? [a, b, c, d, e, f, g, h]
            return x :: (← unescape? isPlain s)
          | _ => none
        else do
          let x ← escapedChar? e
          return x :: (← unescape? isPlain s)
    else if isPlain c then (unescape? isPlain s).map (c :: ·)
    else none

/-- Reads a text from after the quote that opens it. -/
def readEscaped? (s : List Char) : Option (String × List Char) := do
  let (raw, rest) ← untilQuote? s
  return (String.ofList (← unescape? isLineChar raw), rest)

end Datebook
