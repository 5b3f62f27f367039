import Interlingua.Text.Find
import Interlingua.Text.Lines

/-!
# Indentation

A source whose blocks are marked by leading blanks is turned into a stream with explicit block
tokens, in one pass with a stack of indentation widths. Every line of the source gives one line
token. Lines inside a string over several lines are kept as they are.
-/

namespace Interlingua.Layout

open Text

inductive Token where
  | blockStart
  | blockEnd
  /-- A line without its leading blanks. -/
  | line (content : List Char)
  /-- A line of blanks only. -/
  | blank
  /-- A line inside a string over several lines. -/
  | verbatim (raw : List Char)
  deriving DecidableEq

def tabWidth : Nat := 8

/-- The width of the leading spaces and tabs; a tab goes on to the next tab stop. -/
def widthFrom (width : Nat) : List Char → Nat
  | ' ' :: cs => widthFrom (width + 1) cs
  | '\t' :: cs => widthFrom ((width / tabWidth + 1) * tabWidth) cs
  | _ => width

def width (line : List Char) : Nat :=
  widthFrom 0 line

/-- The delimiters of strings over several lines. -/
def longQuotes : List (List Char) :=
  [['"', '"', '"'], ['\'', '\'', '\'']]

def isOdd (n : Nat) : Bool :=
  n % 2 = 1

/-- The long delimiter a line leaves open. -/
def leftOpen? (content : List Char) : Option (List Char) :=
  longQuotes.find? fun quote => isOdd (count quote content)

structure State where
  /-- The widths of the open blocks, the innermost first. -/
  levels : List Nat := []
  /-- The delimiter of the string that is open. -/
  quote : Option (List Char) := none
  deriving DecidableEq

/-- Enter or leave blocks for a line of this width. -/
def shift (levels : List Nat) (width : Nat) : List Token × List Nat :=
  let top := levels.head?.getD 0
  if top < width then ([.blockStart], width :: levels)
  else
    let kept := levels.dropWhile (width < ·)
    (List.replicate (levels.length - kept.length) .blockEnd, kept)

/-- The tokens of a line. A line that starts with `comment` belongs to the current block. -/
def step (comment : Option (List Char)) (state : State) (line : List Char) : List Token × State :=
  match state.quote with
  | some quote =>
    ([.verbatim line], if isOdd (count quote line) then { state with quote := none } else state)
  | none =>
    let content := trimStart line
    if content.isEmpty then ([.blank], state)
    else if comment.any (startsWith · content) then ([.line content], state)
    else
      let (blocks, levels) := shift state.levels (width line)
      (blocks ++ [.line content], { levels, quote := leftOpen? content })

def tokensFrom (comment : Option (List Char)) (state : State) : List (List Char) → List Token
  | [] => List.replicate state.levels.length .blockEnd
  | line :: rest =>
    let (tokens, next) := step comment state line
    tokens ++ tokensFrom comment next rest

def tokens (comment : Option (List Char)) (source : List Char) : List Token :=
  tokensFrom comment {} (lines source)

def Token.marker : Token → List Char
  | blockStart => "INDENT".toList
  | blockEnd => "DEDENT".toList
  | line content => content
  | blank => []
  | verbatim raw => raw

/-- The stream with a line of its own for every block token. -/
def markers (comment : Option (List Char)) (source : List Char) : List Char :=
  joinLines ((tokens comment source).map Token.marker)

/-- The lines of a stream, each with one unit for every block it is in. -/
def render (unit : List Char) : Nat → List Token → List (List Char)
  | _, [] => []
  | depth, .blockStart :: rest => render unit (depth + 1) rest
  | depth, .blockEnd :: rest => render unit (depth - 1) rest
  | depth, .line content :: rest =>
    ((List.replicate depth unit).flatten ++ content) :: render unit depth rest
  | depth, .blank :: rest => [] :: render unit depth rest
  | depth, .verbatim raw :: rest => raw :: render unit depth rest

/-- The source with its indentation replaced by one unit for every block. -/
def reindent (comment : Option (List Char)) (unit source : List Char) : List Char :=
  joinLines (render unit 0 (tokens comment source)) ++
    if source.getLast? = some '\n' then ['\n'] else []

end Interlingua.Layout
