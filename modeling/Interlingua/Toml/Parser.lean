import Interlingua.Toml.Scalar
import Interlingua.Toml.Table

/-!
# TOML documents

A document is a sequence of lines: headers, and keys with their values. Only arrays and long strings
go over several lines.
-/

namespace Interlingua.Toml

mutual

/-- Read a value. The first number bounds the steps, the second the levels of nesting. -/
def value? : Nat → Nat → List Char → Option (Toml × List Char)
  | 0, _, _ => none
  | steps + 1, levels, cs =>
    match cs, levels with
    | '[' :: _, 0 | '{' :: _, 0 => none
    | '[' :: rest, levels + 1 =>
      (items? steps levels rest).map fun (items, rest) => (arr items, rest)
    | '{' :: rest, levels + 1 =>
      match skipSpace rest with
      | '}' :: rest => some (table .inline [], rest)
      | _ => (pairs? steps levels [] rest).map fun (fields, rest) => (table .inline fields, rest)
    | cs, _ => scalar? cs

/-- Read the items of an array up to its closing bracket. A comma may stand after the last. -/
def items? : Nat → Nat → List Char → Option (List Toml × List Char)
  | 0, _, _ => none
  | steps + 1, levels, cs =>
    match skipLines false cs with
    | none => none
    | some (']' :: rest) => some ([], rest)
    | some cs => do
      let (item, rest) ← value? steps levels cs
      match ← skipLines false rest with
      | ',' :: rest => (items? steps levels rest).map fun (items, rest) => (item :: items, rest)
      | ']' :: rest => some ([item], rest)
      | _ => none

/-- Read keys with their values up to a closing brace. -/
def pairs? : Nat → Nat → Fields → List Char → Option (Fields × List Char)
  | 0, _, _, _ => none
  | steps + 1, levels, fields, cs => do
    let (path, rest) ← dottedKey? cs
    let (value, rest) ← value? steps levels (skipSpace (← char? '=' rest))
    let fields ← define value true path fields
    match skipSpace rest with
    | ',' :: rest => pairs? steps levels fields rest
    | '}' :: rest => some (fields, rest)
    | _ => none

end

/-- Read a value that may be nested up to the limit. No text takes more than two steps for every
character. -/
def anyValue? (cs : List Char) : Option (Toml × List Char) :=
  value? (2 * cs.length + 2) (levelLimit - 1) cs

/-- The fields so far, and the header that is open. -/
structure Document where
  fields : Fields := []
  header : List String := []

namespace Document

/-- Open what a header names. -/
def openWith (doc : Document) (change : String → Fields → Option Fields) (path : List String) :
    Option Document := do
  let fields ← within (change (← path.getLast?)) path.dropLast doc.fields
  return { fields, header := path }

/-- Set a key in the table that is open. -/
def set (doc : Document) (path : List String) (value : Toml) : Option Document := do
  return { doc with fields := ← within (define value true path) doc.header doc.fields }

/-- Take in a header or a key with its value, and return what follows its line. -/
def expression (doc : Document) (cs : List Char) : Option (Document × List Char) :=
  match cs with
  | '[' :: '[' :: rest => do
    let (path, rest) ← dottedKey? rest
    let rest ← endLine (← char? ']' (← char? ']' rest))
    return (← doc.openWith openElement path, rest)
  | '[' :: rest => do
    let (path, rest) ← dottedKey? rest
    let rest ← endLine (← char? ']' rest)
    return (← doc.openWith openTable path, rest)
  | cs => do
    let (path, rest) ← dottedKey? cs
    let (value, rest) ← anyValue? (skipSpace (← char? '=' rest))
    let rest ← endLine rest
    return (← doc.set path value, rest)

/-- Take in lines, at most as many as the number. -/
def read : Nat → Document → List Char → Option Document
  | 0, _, _ => none
  | lines + 1, doc, cs =>
    match skipSpace cs with
    | [] => some doc
    | cs =>
      match endLine cs with
      | some rest => read lines doc rest
      | none => (doc.expression cs).bind fun (doc, rest) => read lines doc rest

end Document

/-- The mark that may stand at the start of a text. -/
def byteOrderMark : Char := '\ufeff'

/-- The fields of a document, if it is one. -/
def parse (text : List Char) : Option Fields :=
  let cs := match text with
    | c :: rest => if c = byteOrderMark then rest else c :: rest
    | [] => []
  (Document.read (cs.length + 1) {} cs).map Document.fields

end Interlingua.Toml
