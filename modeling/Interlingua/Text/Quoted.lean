import Interlingua.Text.Find

/-!
# Quoted text

`quote` writes a text between two delimiters, with the delimiter, the backslash and the line and
tab controls escaped. `unquote` reads a literal of any of the supported languages back.
-/

namespace Interlingua.Text

def escape (delimiter c : Char) : List Char :=
  match c with
  | '\\' => ['\\', '\\']
  | '\n' => ['\\', 'n']
  | '\t' => ['\\', 't']
  | '\r' => ['\\', 'r']
  | c => if c = delimiter then ['\\', c] else [c]

def quote (delimiter : Char) (value : List Char) : List Char :=
  delimiter :: value.flatMap (escape delimiter) ++ [delimiter]

/-- The character a backslash and `c` stand for, where they stand for one. -/
def escaped? : Char → Option Char
  | 'n' => some '\n'
  | 't' => some '\t'
  | 'r' => some '\r'
  | '0' => some '\x00'
  | '\\' => some '\\'
  | '\'' => some '\''
  | '"' => some '"'
  | '\x60' => some '\x60'
  | _ => none

/-- Resolve the escapes of a literal's body. An unknown escape keeps its backslash. -/
def unescape : List Char → List Char
  | [] => []
  | ['\\'] => ['\\']
  | '\\' :: c :: cs =>
    match escaped? c with
    | some e => e :: unescape cs
    | none => '\\' :: c :: unescape cs
  | c :: cs => c :: unescape cs

def isQuote (c : Char) : Bool :=
  c = '\'' || c = '"' || c = '\x60'

/-- The delimiters a literal may have, the longer ones first. -/
def delimiters : List (List Char) :=
  [['"', '"', '"'], ['\'', '\'', '\''], ['"'], ['\''], ['\x60']]

/-- The text between the two copies of `d` around a literal. -/
def between? (d quoted : List Char) : Option (List Char) :=
  (stripFront d quoted).bind (stripBack d)

/-- The letters before a literal's first quote, none if it has no quote. -/
def lead (literal : List Char) : List Char :=
  if literal.any isQuote then literal.takeWhile (!isQuote ·) else []

/-- The text a literal denotes. A lead with `r` or `R` switches escapes off. -/
def unquote (literal : List Char) : List Char :=
  let quoted := literal.drop (lead literal).length
  let inner := (delimiters.findSome? fun d => between? d quoted).getD quoted
  if (lead literal).any fun c => c = 'r' || c = 'R' then inner else unescape inner

end Interlingua.Text
