import Interlingua.Number.Radix

/-!
# Text of TOML documents

Blanks, comments, line ends, strings and keys. What reads a part of a document returns it with what
follows.
-/

namespace Interlingua.Toml

def isSpace (c : Char) : Bool :=
  c = ' ' || c = '\t'

def skipSpace (cs : List Char) : List Char :=
  cs.dropWhile isSpace

/-- The characters that stand nowhere but at the end of a line. -/
def isControl (c : Char) : Bool :=
  c.toNat < 0x20 && c ≠ '\t' || c.toNat = 0x7F

/-- Cut the end of a line off. -/
def newline? : List Char → Option (List Char)
  | '\n' :: rest => some rest
  | '\r' :: '\n' :: rest => some rest
  | _ => none

/-- Skip blanks, line ends and comments. A comment ends with its line. -/
def skipLines : Bool → List Char → Option (List Char)
  | _, '\n' :: rest => skipLines false rest
  | _, '\r' :: '\n' :: rest => skipLines false rest
  | true, c :: rest => if isControl c then none else skipLines true rest
  | true, [] => none
  | false, '#' :: rest => skipLines true rest
  | false, c :: rest => if isSpace c then skipLines false rest else some (c :: rest)
  | false, [] => some []

/-- What follows the line, if nothing but blanks and a comment is left of it. -/
def restOfLine : Bool → List Char → Option (List Char)
  | _, [] => some []
  | _, '\n' :: rest => some rest
  | _, '\r' :: '\n' :: rest => some rest
  | true, c :: rest => if isControl c then none else restOfLine true rest
  | false, '#' :: rest => restOfLine true rest
  | false, c :: rest => if isSpace c then restOfLine false rest else none

/-- What follows a line that ends here or after a comment. -/
def endLine (cs : List Char) : Option (List Char) :=
  restOfLine false cs

def addChar (c : Char) (found : List Char × List Char) : List Char × List Char :=
  (c :: found.1, found.2)

def escape? : Char → Option Char
  | 'b' => some '\x08'
  | 't' => some '\t'
  | 'n' => some '\n'
  | 'f' => some '\x0c'
  | 'r' => some '\r'
  | '"' => some '"'
  | '\\' => some '\\'
  | _ => none

/-- The character with this number. -/
def charOf? (hex : List Char) : Option Char :=
  (Radix.nat? 16 hex).bind fun n =>
    if n < 0xD800 || 0xE000 ≤ n && n < 0x110000 then some (Char.ofNat n) else none

/-- Read up to the closing quote of a string with escapes. -/
def basicBody : List Char → Option (List Char × List Char)
  | [] => none
  | '"' :: rest => some ([], rest)
  | '\\' :: 'u' :: a :: b :: c :: d :: rest =>
    (charOf? [a, b, c, d]).bind fun char => (basicBody rest).map (addChar char)
  | '\\' :: 'U' :: a :: b :: c :: d :: e :: f :: g :: h :: rest =>
    (charOf? [a, b, c, d, e, f, g, h]).bind fun char => (basicBody rest).map (addChar char)
  | '\\' :: c :: rest => (escape? c).bind fun char => (basicBody rest).map (addChar char)
  | c :: rest => if isControl c || c = '\\' then none else (basicBody rest).map (addChar c)

/-- Read up to the closing quote of a string without escapes. -/
def literalBody : List Char → Option (List Char × List Char)
  | [] => none
  | '\'' :: rest => some ([], rest)
  | c :: rest => if isControl c then none else (literalBody rest).map (addChar c)

/-- Whether only blanks are left of the line. -/
def endsLine (cs : List Char) : Bool :=
  (newline? (skipSpace cs)).isSome

/-- Read up to the three closing quotes of a string with escapes. Up to two quotes before them belong
to the string. After a backslash at the end of a line, blanks and line ends are skipped. -/
def longBasicBody : Bool → List Char → Option (List Char × List Char)
  | _, [] => none
  | _, '"' :: '"' :: '"' :: '"' :: '"' :: rest => some (['"', '"'], rest)
  | _, '"' :: '"' :: '"' :: '"' :: rest => some (['"'], rest)
  | _, '"' :: '"' :: '"' :: rest => some ([], rest)
  | skipping, '\r' :: '\n' :: rest =>
    if skipping then longBasicBody true rest else (longBasicBody false rest).map (addChar '\n')
  | _, '\\' :: 'u' :: a :: b :: c :: d :: rest =>
    (charOf? [a, b, c, d]).bind fun char => (longBasicBody false rest).map (addChar char)
  | _, '\\' :: 'U' :: a :: b :: c :: d :: e :: f :: g :: h :: rest =>
    (charOf? [a, b, c, d, e, f, g, h]).bind fun char =>
      (longBasicBody false rest).map (addChar char)
  | skipping, c :: rest =>
    if skipping && (isSpace c || c = '\n') then longBasicBody true rest
    else if c = '\n' then (longBasicBody false rest).map (addChar '\n')
    else if c = '\\' then
      if endsLine rest then longBasicBody true rest
      else
        match rest with
        | [] => none
        | escaped :: rest =>
          (escape? escaped).bind fun char => (longBasicBody false rest).map (addChar char)
    else if isControl c then none
    else (longBasicBody false rest).map (addChar c)

/-- Read up to the three closing quotes of a string without escapes. -/
def longLiteralBody : List Char → Option (List Char × List Char)
  | [] => none
  | '\'' :: '\'' :: '\'' :: '\'' :: '\'' :: rest => some (['\'', '\''], rest)
  | '\'' :: '\'' :: '\'' :: '\'' :: rest => some (['\''], rest)
  | '\'' :: '\'' :: '\'' :: rest => some ([], rest)
  | '\r' :: '\n' :: rest => (longLiteralBody rest).map (addChar '\n')
  | '\n' :: rest => (longLiteralBody rest).map (addChar '\n')
  | c :: rest => if isControl c then none else (longLiteralBody rest).map (addChar c)

/-- A line end right after the opening quotes is no part of the string. -/
def dropNewline (cs : List Char) : List Char :=
  (newline? cs).getD cs

def string? (cs : List Char) : Option (String × List Char) :=
  let body := match cs with
    | '"' :: '"' :: '"' :: rest => longBasicBody false (dropNewline rest)
    | '"' :: rest => basicBody rest
    | '\'' :: '\'' :: '\'' :: rest => longLiteralBody (dropNewline rest)
    | '\'' :: rest => literalBody rest
    | _ => none
  body.map fun (text, rest) => (String.ofList text, rest)

def isBare (c : Char) : Bool :=
  c.isAlphanum || c = '_' || c = '-'

/-- Read one key. -/
def simpleKey? (cs : List Char) : Option (String × List Char) :=
  match cs with
  | '"' :: rest => (basicBody rest).map fun (key, rest) => (String.ofList key, rest)
  | '\'' :: rest => (literalBody rest).map fun (key, rest) => (String.ofList key, rest)
  | cs =>
    let bare := cs.takeWhile isBare
    if bare.isEmpty then none else some (String.ofList bare, cs.dropWhile isBare)

/-- The levels that keys or values may be nested to, this one excluded. -/
def levelLimit : Nat := 80

/-- Read at most so many keys with dots between them, and the blanks around them. -/
def keys? : Nat → List Char → Option (List String × List Char)
  | 0, _ => none
  | limit + 1, cs =>
    (simpleKey? (skipSpace cs)).bind fun (key, rest) =>
      match skipSpace rest with
      | '.' :: rest => (keys? limit rest).map fun (more, rest) => (key :: more, rest)
      | rest => some ([key], rest)

def dottedKey? (cs : List Char) : Option (List String × List Char) :=
  keys? (levelLimit - 1) cs

end Interlingua.Toml
