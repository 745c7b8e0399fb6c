import Datebook.Text.Octets

/-!
# JSON strings

A string is read in two stages. Its pieces are the octets that stand for themselves and the UTF-16
units written with an escape; any pieces will do where a value is skipped. The text of the pieces
exists only if each leading surrogate is followed by a trailing one and the octets are UTF-8.

Written, a string escapes the quote, the backslash and the control characters, and nothing else.
-/

namespace Datebook.Json

/-- A part of a string: an octet, or a UTF-16 unit given by its number. -/
inductive Piece
  | octet (b : UInt8)
  | unit (u : Nat)
  deriving DecidableEq

def isSpace (b : UInt8) : Bool := b == 0x20 || b == 0x09 || b == 0x0A || b == 0x0D

/-- The octets from the first that is not space. -/
def skipSpace (s : Octets) : Octets := s.dropWhile isSpace

def unit? (a b c d : UInt8) : Option Nat := do
  return ((((← hexValue? a) * 16 + (← hexValue? b)) * 16 + (← hexValue? c)) * 16) + (← hexValue? d)

/-- What a letter stands for after a backslash. -/
def escaped? (e : UInt8) : Option UInt8 :=
  if e = 0x22 ∨ e = 0x5C ∨ e = 0x2F then some e
  else if e = 0x62 then some 0x08
  else if e = 0x66 then some 0x0C
  else if e = 0x6E then some 0x0A
  else if e = 0x72 then some 0x0D
  else if e = 0x74 then some 0x09
  else none

/-- The pieces up to the closing quote, and what follows it. -/
def pieces? : Octets → Option (List Piece × Octets)
  | [] => none
  | b :: s =>
    if b = 0x22 then some ([], s)
    else if b = 0x5C then
      match s with
      | [] => none
      | e :: s =>
        if e = 0x75 then
          match s with
          | a :: b :: c :: d :: s =>
            match unit? a b c d with
            | some u => (pieces? s).map fun (ps, r) => (.unit u :: ps, r)
            | none => none
          | _ => none
        else
          match escaped? e with
          | some x => (pieces? s).map fun (ps, r) => (.octet x :: ps, r)
          | none => none
    else if b < 0x20 then none
    else (pieces? s).map fun (ps, r) => (.octet b :: ps, r)

def isLeading (u : Nat) : Bool := 0xD800 ≤ u && u < 0xDC00

def isTrailing (u : Nat) : Bool := 0xDC00 ≤ u && u < 0xE000

/-- The character of two surrogates. -/
def charOfPair (u v : Nat) : Char :=
  Char.ofNat (0x10000 + (u - 0xD800) * 0x400 + (v - 0xDC00))

/-- The octets of the pieces, with each pair of surrogates made one character. -/
def joinPieces? : List Piece → Option Octets
  | [] => some []
  | .octet b :: ps => (joinPieces? ps).map (b :: ·)
  | .unit u :: ps =>
    if isLeading u then
      match ps with
      | .unit v :: ps =>
        if isTrailing v then
          (joinPieces? ps).map (String.utf8EncodeChar (charOfPair u v) ++ ·)
        else none
      | _ => none
    else if isTrailing u then none
    else (joinPieces? ps).map (String.utf8EncodeChar (Char.ofNat u) ++ ·)

/-- The text up to the closing quote, and what follows it. -/
def readText? (s : Octets) : Option (String × Octets) := do
  let (ps, rest) ← pieces? s
  return (← (← joinPieces? ps).text?, rest)

/-- Steps over a string of which only the form matters. -/
def skipText? (s : Octets) : Option Octets := (pieces? s).map (·.2)

def hexDigit (n : Nat) : Char := if n < 10 then Char.ofNat (48 + n) else Char.ofNat (87 + n)

/-- A character as it is written inside a string. -/
def escapeChar (c : Char) : List Char :=
  if c = '"' then ['\\', '"']
  else if c = '\\' then ['\\', '\\']
  else if c = '\x08' then ['\\', 'b']
  else if c = '\x09' then ['\\', 't']
  else if c = '\x0a' then ['\\', 'n']
  else if c = '\x0c' then ['\\', 'f']
  else if c = '\x0d' then ['\\', 'r']
  else if c.toNat < 0x20 then
    ['\\', 'u', '0', '0', hexDigit (c.toNat / 16), hexDigit (c.toNat % 16)]
  else [c]

/-- The text between quotes. -/
def quoted (s : String) : List Char := '"' :: s.toList.flatMap escapeChar ++ ['"']

/-- An object without space, of members whose values are written already. -/
def object (members : List (String × List Char)) : List Char :=
  let written := members.map fun (name, value) => quoted name ++ ':' :: value
  '\x7b' :: (List.intersperse [','] written).flatten ++ ['\x7d']

/-- An array without space, of values written already. -/
def array (values : List (List Char)) : List Char :=
  '[' :: (List.intersperse [','] values).flatten ++ [']']

end Datebook.Json
