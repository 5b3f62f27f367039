import Interlingua.Json.Printer
import Interlingua.Number.Scaled
import Interlingua.Text.Find

/-!
# Reading JSON

Strict reading in two steps: the text is cut into tokens, and the tokens drive a machine with a
stack of open arrays and objects. Of two members with one key the later holds. Nesting deeper than
a limit is refused.
-/

namespace Interlingua.Json

def isSpace (c : Char) : Bool :=
  c = ' ' || c = '\n' || c = '\t' || c = '\r'

def hexValue? (c : Char) : Option Nat :=
  if '0' ≤ c && c ≤ '9' then some (c.toNat - '0'.toNat)
  else if 'a' ≤ c && c ≤ 'f' then some (c.toNat - 'a'.toNat + 10)
  else if 'A' ≤ c && c ≤ 'F' then some (c.toNat - 'A'.toNat + 10)
  else none

def hex4? (a b c d : Char) : Option Nat := do
  let a ← hexValue? a
  let b ← hexValue? b
  let c ← hexValue? c
  let d ← hexValue? d
  return ((a * 16 + b) * 16 + c) * 16 + d

def isHigh (unit : Nat) : Bool :=
  0xD800 ≤ unit && unit < 0xDC00

def isLow (unit : Nat) : Bool :=
  0xDC00 ≤ unit && unit < 0xE000

/-- The character of a pair of surrogates. -/
def pairChar (high low : Nat) : Char :=
  Char.ofNat (0x10000 + (high - 0xD800) * 0x400 + (low - 0xDC00))

def shortEscape? : Char → Option Char
  | '"' => some '"'
  | '\\' => some '\\'
  | '/' => some '/'
  | 'b' => some '\x08'
  | 'f' => some '\x0c'
  | 'n' => some '\n'
  | 'r' => some '\r'
  | 't' => some '\t'
  | _ => none

/-- Read up to the closing quote: the text of the string and what follows it. -/
def stringBody : List Char → Option (List Char × List Char)
  | [] => none
  | '"' :: rest => some ([], rest)
  | '\\' :: 'u' :: a :: b :: c :: d :: rest =>
    match hex4? a b c d with
    | none => none
    | some unit =>
      if isHigh unit then
        match rest with
        | '\\' :: 'u' :: e :: f :: g :: h :: rest =>
          match hex4? e f g h with
          | none => none
          | some low =>
            if isLow low then
              (stringBody rest).map fun (text, rest) => (pairChar unit low :: text, rest)
            else none
        | _ => none
      else if isLow unit then none
      else (stringBody rest).map fun (text, rest) => (Char.ofNat unit :: text, rest)
  | '\\' :: c :: rest =>
    match shortEscape? c with
    | none => none
    | some e => (stringBody rest).map fun (text, rest) => (e :: text, rest)
  | c :: rest =>
    if c.toNat < 0x20 then none
    else (stringBody rest).map fun (text, rest) => (c :: text, rest)

def isNumberChar (c : Char) : Bool :=
  c.isDigit || c = '-' || c = '+' || c = '.' || c = 'e' || c = 'E'

/-- A whole part has digits, and no zero in front of others. -/
def wholeOk (digits : List Char) : Bool :=
  match digits with
  | [] => false
  | '0' :: rest => rest.isEmpty
  | _ => true

/-- Whole numbers of 64 bits are kept; all other numbers are doubles, read by scaling, and have to
be in range. -/
def unsigned? (minus : Bool) (cs : List Char) : Option Json := do
  let d ← Decimal.parse? cs
  guard (wholeOk d.whole && d.exponentOk && d.fraction.all (!·.isEmpty))
  let n := Decimal.digitsValue d.whole
  if d.fraction.isNone && d.exponent.isNone && !minus && n < Nat.pow 2 64 then
    return int n
  else if d.fraction.isNone && d.exponent.isNone && minus && 0 < n && n ≤ Nat.pow 2 63 then
    return int (-n)
  else
    return float (← d.scaled? minus)

def number? : List Char → Option Json
  | '-' :: cs => unsigned? true cs
  | cs => unsigned? false cs

/-- The token that starts with `c`, and what follows it. -/
def next (c : Char) (cs : List Char) : Option (Token × List Char) :=
  match c with
  | '[' => some (.openArr, cs)
  | ']' => some (.closeArr, cs)
  | '{' => some (.openObj, cs)
  | '}' => some (.closeObj, cs)
  | ':' => some (.colon, cs)
  | ',' => some (.comma, cs)
  | '"' => (stringBody cs).map fun (text, rest) => (.scalar (.str (String.ofList text)), rest)
  | 't' => (Text.stripFront "rue".toList cs).map fun rest => (.scalar (.bool true), rest)
  | 'f' => (Text.stripFront "alse".toList cs).map fun rest => (.scalar (.bool false), rest)
  | 'n' => (Text.stripFront "ull".toList cs).map fun rest => (.scalar .null, rest)
  | c =>
    (number? (c :: cs.takeWhile isNumberChar)).map fun value =>
      (.scalar value, cs.dropWhile isNumberChar)

theorem stringBody_length {cs text rest : List Char} (h : stringBody cs = some (text, rest)) :
    rest.length ≤ cs.length := by
  fun_induction stringBody cs generalizing text rest <;>
    simp only [Option.map_eq_some_iff, Prod.mk.injEq, Prod.exists, Option.some.injEq,
      List.length_cons, reduceCtorEq] at h ⊢
  · exact h.2 ▸ Nat.le_succ _
  all_goals
    rename_i ih
    obtain ⟨_, _, found, _, rfl⟩ := h
    have := ih found
    omega

theorem stripFront_length {front cs rest : List Char} (h : Text.stripFront front cs = some rest) :
    rest.length ≤ cs.length := by
  fun_induction Text.stripFront front cs <;> grind

theorem next_length {c : Char} {cs rest : List Char} {token : Token}
    (h : next c cs = some (token, rest)) : rest.length ≤ cs.length := by
  have drop : (cs.dropWhile isNumberChar).length ≤ cs.length :=
    (List.dropWhile_sublist isNumberChar).length_le
  unfold next at h
  split at h <;> simp only [Option.map_eq_some_iff, Option.some.injEq, Prod.mk.injEq] at h <;>
    grind [→ stringBody_length, → stripFront_length]

/-- The tokens of a text, blanks between them left out. -/
def lex (cs : List Char) : Option (List Token) :=
  match cs with
  | [] => some []
  | c :: cs =>
    if isSpace c then lex cs
    else
      match h : next c cs with
      | none => none
      | some (token, rest) =>
        have := next_length h
        (lex rest).map (token :: ·)
termination_by cs.length

/-- An array or object that is still open, with what it holds so far, the last first. An object
has the key of the member that is being read. -/
inductive Frame where
  | arr (items : List Json)
  | obj (members : List (String × Json)) (key : String)

/-- What may come next. -/
inductive Want where
  | value
  | valueOrClose
  | key
  | keyOrClose
  | colon
  | commaOrClose

inductive Progress where
  | inside (stack : List Frame) (want : Want)
  | done (value : Json)

/-- The members in the order they were given, of several with one key the last given. -/
def lastMembers (members : List (String × Json)) : List (String × Json) :=
  members.foldl (fun kept m => if kept.any (·.1 = m.1) then kept else m :: kept) []

/-- Hand a finished value to what holds it. -/
def deliver (value : Json) : List Frame → Progress
  | [] => .done value
  | .arr items :: stack => .inside (.arr (value :: items) :: stack) .commaOrClose
  | .obj members key :: stack => .inside (.obj ((key, value) :: members) key :: stack) .commaOrClose

def openFrame (limit : Nat) (frame : Frame) (want : Want) (stack : List Frame) : Option Progress :=
  if stack.length < limit then some (.inside (frame :: stack) want) else none

def closeArr : List Frame → Option Progress
  | .arr items :: stack => some (deliver (.arr items.reverse) stack)
  | _ => none

def closeObj : List Frame → Option Progress
  | .obj members _ :: stack => some (deliver (.obj (lastMembers members)) stack)
  | _ => none

def setKey (key : String) : List Frame → Option Progress
  | .obj members _ :: stack => some (.inside (.obj members key :: stack) .colon)
  | _ => none

def afterComma : List Frame → Option Progress
  | .arr items :: stack => some (.inside (.arr items :: stack) .value)
  | .obj members key :: stack => some (.inside (.obj members key :: stack) .key)
  | [] => none

def step (limit : Nat) : Progress → Token → Option Progress
  | .inside stack .value, .scalar value => some (deliver value stack)
  | .inside stack .valueOrClose, .scalar value => some (deliver value stack)
  | .inside stack .value, .openArr => openFrame limit (.arr []) .valueOrClose stack
  | .inside stack .valueOrClose, .openArr => openFrame limit (.arr []) .valueOrClose stack
  | .inside stack .value, .openObj => openFrame limit (.obj [] "") .keyOrClose stack
  | .inside stack .valueOrClose, .openObj => openFrame limit (.obj [] "") .keyOrClose stack
  | .inside stack .valueOrClose, .closeArr => closeArr stack
  | .inside stack .key, .scalar (.str key) => setKey key stack
  | .inside stack .keyOrClose, .scalar (.str key) => setKey key stack
  | .inside stack .keyOrClose, .closeObj => closeObj stack
  | .inside stack .colon, .colon => some (.inside stack .value)
  | .inside stack .commaOrClose, .comma => afterComma stack
  | .inside stack .commaOrClose, .closeArr => closeArr stack
  | .inside stack .commaOrClose, .closeObj => closeObj stack
  | _, _ => none

/-- Read a text nested at most `limit` deep. -/
def parseWithin (limit : Nat) (cs : List Char) : Option Json := do
  match ← (← lex cs).foldlM (step limit) (.inside [] .value) with
  | .done value => some value
  | .inside _ _ => none

/-- The deepest nesting a document may have. -/
def depthLimit : Nat := 127

def parse (cs : List Char) : Option Json :=
  parseWithin depthLimit cs

end Interlingua.Json
