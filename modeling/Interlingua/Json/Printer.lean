import Interlingua.Json.Basic
import Interlingua.Number.Shortest

/-!
# JSON text

A value is spelled as a sequence of tokens. The compact form is their concatenation; the indented
form puts every item and member on a line of its own, two spaces deeper than what holds it.
-/

namespace Interlingua.Json

inductive Token where
  | openArr
  | closeArr
  | openObj
  | closeObj
  | colon
  | comma
  | scalar (value : Json)

def hexDigit (n : Nat) : Char :=
  Nat.digitChar n

def escapeChar (c : Char) : List Char :=
  if c = '"' then ['\\', '"']
  else if c = '\\' then ['\\', '\\']
  else if c = '\n' then ['\\', 'n']
  else if c = '\r' then ['\\', 'r']
  else if c = '\t' then ['\\', 't']
  else if c = '\x08' then ['\\', 'b']
  else if c = '\x0c' then ['\\', 'f']
  else if c.toNat < 0x20 then ['\\', 'u', '0', '0', hexDigit (c.toNat / 16), hexDigit (c.toNat % 16)]
  else [c]

def stringText (s : String) : List Char :=
  '"' :: s.toList.flatMap escapeChar ++ ['"']

def intText (n : Int) : List Char :=
  if n < 0 then '-' :: Nat.toDigits 10 n.natAbs else Nat.toDigits 10 n.natAbs

/-- A double always has a point, so that it is not read as a whole number; one that is not finite
has no text of its own. -/
def floatText (x : Binary64) : List Char :=
  if !x.isFinite then "null".toList
  else if '.' ∈ x.text then x.text
  else x.text ++ ['.', '0']

/-- The text of a value that holds no other. -/
def scalarText : Json → List Char
  | null => "null".toList
  | bool true => "true".toList
  | bool false => "false".toList
  | int value => intText value
  | float value => floatText value
  | str value => stringText value
  | arr _ | obj _ => []

def Token.text : Token → List Char
  | openArr => ['[']
  | closeArr => [']']
  | openObj => ['{']
  | closeObj => ['}']
  | colon => [':']
  | comma => [',']
  | scalar value => scalarText value

mutual

def tokens : Json → List Token
  | arr items => .openArr :: itemTokens items ++ [.closeArr]
  | obj members => .openObj :: memberTokens members ++ [.closeObj]
  | value => [.scalar value]

def itemTokens : List Json → List Token
  | [] => []
  | [item] => tokens item
  | item :: next :: rest => tokens item ++ .comma :: itemTokens (next :: rest)

def memberTokens : List (String × Json) → List Token
  | [] => []
  | [(key, value)] => .scalar (.str key) :: .colon :: tokens value
  | (key, value) :: next :: rest =>
    .scalar (.str key) :: .colon :: tokens value ++ .comma :: memberTokens (next :: rest)

end

/-- The value on one line without blanks. -/
def compact (v : Json) : List Char :=
  (tokens v).flatMap Token.text

def newline (depth : Nat) : List Char :=
  '\n' :: List.replicate (2 * depth) ' '

mutual

def prettyAt (depth : Nat) : Json → List Char
  | arr [] => ['[', ']']
  | arr (item :: items) =>
    '[' :: newline (depth + 1) ++ prettyAt (depth + 1) item ++ prettyItems (depth + 1) items
      ++ newline depth ++ [']']
  | obj [] => ['{', '}']
  | obj ((key, value) :: members) =>
    '{' :: newline (depth + 1) ++ stringText key ++ [':', ' '] ++ prettyAt (depth + 1) value
      ++ prettyMembers (depth + 1) members ++ newline depth ++ ['}']
  | value => scalarText value

def prettyItems (depth : Nat) : List Json → List Char
  | [] => []
  | item :: items => ',' :: newline depth ++ prettyAt depth item ++ prettyItems depth items

def prettyMembers (depth : Nat) : List (String × Json) → List Char
  | [] => []
  | (key, value) :: members =>
    ',' :: newline depth ++ stringText key ++ [':', ' '] ++ prettyAt depth value
      ++ prettyMembers depth members

end

/-- The value over several lines. -/
def pretty (v : Json) : List Char :=
  prettyAt 0 v

end Interlingua.Json
