import Interlingua.Proofs.Syntax.Clause
import Interlingua.Proofs.Text.Words
import Interlingua.Reading.Source

/-!
# The trees of written text

What the grammars of Python and JavaScript make of the text of clauses: for every phrase and clause
the kind of its node, the fields of its children and the texts of its leaves. Tokens and comments
that stand beside the named children are left open. Clauses are valid when the grammars give their
text this structure and no other.
-/

namespace Interlingua

/-- The identifiers of a language, those that written programs have of their own among them. -/
structure Lexicon where
  known : String → Bool
  isWord_of_known : ∀ id, known id = true → Text.isWord id = true
  own : ∀ id ∈ ["print", "console", "log", "self"], known id = true

namespace Phrase

/-- Whether a phrase can stand in front of a dot. -/
def isObject : Phrase → Bool
  | literal value => value.baseType ≠ .number
  | e => Expr.atom ≤ e.strength

/-- Whether a phrase can be called without parentheses around it. -/
def isCallee : Phrase → Bool
  | name _ | member _ _ | call _ _ => true
  | _ => false

def isName : Phrase → Bool
  | name _ => true
  | _ => false

section

variable (lex : Lexicon)

mutual

/-- Whether the names of a phrase are identifiers, and operands bind tighter than their operator
wherever there are no parentheses. -/
def isValid : Phrase → Bool
  | name id => lex.known id
  | literal (.float _) => false
  | literal _ => true
  | paren inner => isValid inner
  | member object property => isValid object && object.isObject && lex.known property
  | call callee args => isValid callee && callee.isCallee && areValid args
  | binary left op right =>
    isValid left && isValid right && op.strength ≤ left.strength && op.strength < right.strength
  | compare left _ right =>
    isValid left && isValid right && CompareOp.strength < left.strength
      && CompareOp.strength < right.strength
  | list elements => areValid elements
  | tuple _ => false

def areValid : List Phrase → Bool
  | [] => true
  | e :: es => isValid e && areValid es

end

end

end Phrase

/-- Whether a block can have this body. -/
def Untyped.isBody (u : Untyped) (body : List Clause) : Bool :=
  match u with
  | python => !body.isEmpty
  | javascript => true

section

variable (u : Untyped) (lex : Lexicon)

mutual

/-- Whether a clause can stand in the body of a class or outside. -/
def Clause.isValid (inClass : Bool) : Clause → Bool
  | .expr value => !inClass && value.isValid lex
  | .assign _ declares id value =>
    lex.known id && value.isValid lex && (!declares || u = .javascript && !inClass)
  | .declare id => u = .javascript && !inClass && lex.known id
  | .pass => u = .python
  | .ret value => !inClass && value.all (·.isValid lex)
  | .function _ method name params body =>
    method = inClass && lex.known name && params.all lex.known && u.isBody body
      && Clause.areValid false body
  | .classDef name bases body =>
    !inClass && lex.known name && bases.length ≤ 1 && bases.all Phrase.isName
      && Phrase.areValid lex bases && u.isBody body && Clause.areValid true body
  | .cond test body rest =>
    !inClass && test.isValid lex && u.isBody body && Clause.areValid inClass body
      && Alternative.isValid inClass rest

def Alternative.isValid (inClass : Bool) : Alternative → Bool
  | .none => true
  | .elseIf test body rest =>
    test.isValid lex && u.isBody body && Clause.areValid inClass body
      && Alternative.isValid inClass rest
  | .otherwise body => u.isBody body && Clause.areValid inClass body

def Clause.areValid (inClass : Bool) : List Clause → Bool
  | [] => true
  | c :: cs => Clause.isValid inClass c && Clause.areValid inClass cs

end

end

namespace Tree

/-- A node with a text that is all there is to it. -/
def Is (kind text : String) (t : Tree) : Prop :=
  t.kind = kind ∧ t.text = text

/-- The first child in a field. -/
def Has (t : Tree) (field : String) (P : Tree → Prop) : Prop :=
  ∃ c, t.child? field = some c ∧ P c

/-- The only named part. -/
def Holds (t : Tree) (P : Tree → Prop) : Prop :=
  ∃ c, t.parts = [c] ∧ P c

end Tree

namespace Untyped

def numberKind : Untyped → String
  | python => "integer"
  | javascript => "number"

def nullKind : Untyped → String
  | python => "none"
  | javascript => "null"

def unaryKind : Untyped → String
  | python => "unary_operator"
  | javascript => "unary_expression"

def memberKind : Untyped → String
  | python => "attribute"
  | javascript => "member_expression"

/-- The field of the property of a member. -/
def propertyField : Untyped → String
  | python => "attribute"
  | javascript => "property"

def callKind : Untyped → String
  | python => "call"
  | javascript => "call_expression"

def argumentsKind : Untyped → String
  | python => "argument_list"
  | javascript => "arguments"

def binaryKind (u : Untyped) (op : BinaryOp) : String :=
  match u, op with
  | python, .and | python, .or => "boolean_operator"
  | python, _ => "binary_operator"
  | javascript, _ => "binary_expression"

def listKind : Untyped → String
  | python => "list"
  | javascript => "array"

def functionKind (u : Untyped) (method : Bool) : String :=
  match u with
  | python => "function_definition"
  | javascript => if method then "method_definition" else "function_declaration"

def classKind : Untyped → String
  | python => "class_definition"
  | javascript => "class_declaration"

def blockKind : Untyped → String
  | python => "block"
  | javascript => "statement_block"

/-- The node of a literal. A negative number is the sign and the number without it. -/
def LiteralShape (u : Untyped) : Literal → Tree → Prop
  | .str s, t => t.Is "string" (u.dialect.literal (.str s)) ∧ ∀ c ∈ t.children, c.kind ≠ "interpolation"
  | .bool b, t => t.kind = if b then "true" else "false"
  | .null, t => t.kind = u.nullKind
  | .int n, t =>
    let digits := String.ofList (Nat.toDigits 10 n.toInt.natAbs)
    if n < 0 then
      t.kind = u.unaryKind ∧ t.childText? "operator" = some "-" ∧
        t.Has "argument" (Tree.Is u.numberKind digits)
    else t.Is u.numberKind digits
  | .float _, _ => False

end Untyped

section

variable (u : Untyped)

mutual

/-- The node of a phrase. -/
def Phrase.Shaped : Phrase → Tree → Prop
  | .name id, t => t.Is "identifier" id
  | .literal value, t => u.LiteralShape value t
  | .paren inner, t => t.kind = "parenthesized_expression" ∧ t.Holds (Phrase.Shaped inner)
  | .member object property, t =>
    t.kind = u.memberKind ∧ t.Has "object" (Phrase.Shaped object) ∧
      t.childText? u.propertyField = some property
  | .call callee args, t =>
    t.kind = u.callKind ∧ t.Has "function" (Phrase.Shaped callee) ∧
      t.Has "arguments" fun a => a.kind = u.argumentsKind ∧ Phrase.ShapedAll args a.parts
  | .binary left op right, t =>
    t.kind = u.binaryKind op ∧ t.childText? "operator" = some (u.dialect.binarySymbol op) ∧
      t.Has "left" (Phrase.Shaped left) ∧ t.Has "right" (Phrase.Shaped right)
  | .compare left op right, t =>
    match u with
    | .python =>
      t.kind = "comparison_operator" ∧ ∃ a symbol b, t.children = [a, symbol, b] ∧
        symbol.text = u.dialect.compareSymbol op ∧ Phrase.Shaped left a ∧ Phrase.Shaped right b
    | .javascript =>
      t.kind = "binary_expression" ∧ t.childText? "operator" = some (u.dialect.compareSymbol op) ∧
        t.Has "left" (Phrase.Shaped left) ∧ t.Has "right" (Phrase.Shaped right)
  | .list elements, t => t.kind = u.listKind ∧ Phrase.ShapedAll elements t.parts
  | .tuple _, _ => False

def Phrase.ShapedAll : List Phrase → List Tree → Prop
  | [], ts => ts = []
  | e :: es, ts => ∃ t rest, ts = t :: rest ∧ Phrase.Shaped e t ∧ Phrase.ShapedAll es rest

end

end

namespace Untyped

/-- The expression that a test is in the header of a branch. -/
def condition (u : Untyped) (test : Phrase) : Phrase :=
  match u with
  | python => test
  | javascript => .paren test

/-- The parts that name the bases of a class. -/
def baseParts (u : Untyped) (t : Tree) : List Tree :=
  match u with
  | python => ((t.child? "superclasses").map Tree.parts).getD []
  | javascript => (t.parts.filter (·.kind = "class_heritage")).flatMap Tree.parts

/-- Plain parameters, each an identifier. -/
def ParamsShape (params : List String) (t : Tree) : Prop :=
  t.parts.map (fun p => (p.kind, p.text)) = params.map (("identifier", ·))

/-- An assignment that starts on a row. -/
def AssignShape (u : Untyped) (inClass declares : Bool) (row : Nat) (id : String)
    (value : Tree → Prop) (t : Tree) : Prop :=
  match u, inClass, declares with
  | python, _, _ =>
    t.kind = "assignment" ∧ t.label.row = row ∧ t.Has "left" (Tree.Is "identifier" id) ∧
      t.Has "right" value ∧ t.child? "type" = none
  | javascript, true, _ =>
    t.kind = "field_definition" ∧ t.label.row = row ∧ t.childText? "property" = some id ∧
      t.Has "value" value
  | javascript, false, true =>
    t.kind = "lexical_declaration" ∧ t.Holds fun d =>
      d.kind = "variable_declarator" ∧ d.label.row = row ∧
        d.Has "name" (Tree.Is "identifier" id) ∧ d.Has "value" value
  | javascript, false, false =>
    t.kind = "expression_statement" ∧ t.label.row = row ∧ t.Holds fun a =>
      a.kind = "assignment_expression" ∧ a.Has "left" (Tree.Is "identifier" id) ∧
        a.Has "right" value

/-- An expression by itself. -/
def ExprShape (u : Untyped) (value : Tree → Prop) (t : Tree) : Prop :=
  match u with
  | python => value t
  | javascript => t.kind = "expression_statement" ∧ t.Holds value

/-- The declaration of a variable without a value. -/
def DeclareShape (id : String) (t : Tree) : Prop :=
  t.kind = "lexical_declaration" ∧ t.Holds fun d =>
    d.kind = "variable_declarator" ∧ d.Has "name" (Tree.Is "identifier" id) ∧
      d.child? "value" = none

end Untyped

section

variable (u : Untyped)

mutual

/-- The node of a clause at a depth, from a row on. -/
def Clause.Shaped (inClass : Bool) (depth row : Nat) : Clause → Tree → Prop
  | .expr value, t => u.ExprShape (value.Shaped u) t
  | .assign _ declares id value, t => u.AssignShape inClass declares row id (value.Shaped u) t
  | .declare id, t => Untyped.DeclareShape id t
  | .pass, t => t.kind = "pass_statement"
  | .ret none, t => t.kind = "return_statement" ∧ t.parts = []
  | .ret (some value), t => t.kind = "return_statement" ∧ t.Holds (value.Shaped u)
  | .function _ method name params body, t =>
    t.kind = u.functionKind method ∧ t.label.row = row ∧ t.childText? "name" = some name ∧
      t.Has "parameters" (Untyped.ParamsShape params) ∧ t.child? "return_type" = none ∧
      t.Has "body" fun b => Clause.ShapedAll false (depth + 1) (row + 1) body b.parts
  | .classDef name bases body, t =>
    t.kind = u.classKind ∧ t.childText? "name" = some name ∧
      Phrase.ShapedAll u bases (u.baseParts t) ∧
      t.Has "body" fun b => Clause.ShapedAll true (depth + 1) (row + 1) body b.parts
  | .cond test body rest, t =>
    t.kind = "if_statement" ∧ t.Has "condition" ((u.condition test).Shaped u) ∧
      (t.Has "consequence" fun b =>
        b.kind = u.blockKind ∧ Clause.ShapedAll inClass (depth + 1) (row + 1) body b.parts) ∧
      match u with
      | .python => Alternative.Clauses inClass depth
          (row + 1 + (Clause.linesAll u (depth + 1) body).length) rest (t.childrenAt "alternative")
      | .javascript => Alternative.Branch inClass depth
          (row + 1 + (Clause.linesAll u (depth + 1) body).length) rest t

/-- Further branches as clauses of the conditional, one after the other. -/
def Alternative.Clauses (inClass : Bool) (depth row : Nat) : Alternative → List Tree → Prop
  | .none, ts => ts = []
  | .elseIf test body rest, ts => ∃ t others, ts = t :: others ∧
      t.kind = "elif_clause" ∧ t.Has "condition" (test.Shaped u) ∧
      (t.Has "consequence" fun b => Clause.ShapedAll inClass (depth + 1) (row + 1) body b.parts) ∧
      Alternative.Clauses inClass depth
        (row + 1 + (Clause.linesAll u (depth + 1) body).length) rest others
  | .otherwise body, ts => ∃ t, ts = [t] ∧ t.kind = "else_clause" ∧
      t.Has "body" fun b => Clause.ShapedAll inClass (depth + 1) (row + 1) body b.parts

/-- Another branch of a conditional, which holds those after it. -/
def Alternative.Branch (inClass : Bool) (depth row : Nat) : Alternative → Tree → Prop
  | .none, t => t.child? "alternative" = none
  | .elseIf test body rest, t => t.Has "alternative" fun a => a.Holds fun b =>
      b.kind = "if_statement" ∧ b.Has "condition" ((u.condition test).Shaped u) ∧
      (b.Has "consequence" fun b =>
        b.kind = u.blockKind ∧ Clause.ShapedAll inClass (depth + 1) (row + 1) body b.parts) ∧
      Alternative.Branch inClass depth
        (row + 1 + (Clause.linesAll u (depth + 1) body).length) rest b
  | .otherwise body, t => t.Has "alternative" fun a => a.Holds fun b =>
      b.kind = u.blockKind ∧ Clause.ShapedAll inClass (depth + 1) (row + 1) body b.parts

def Clause.ShapedAll (inClass : Bool) (depth row : Nat) : List Clause → List Tree → Prop
  | [], ts => ts = []
  | c :: cs, ts => ∃ t rest, ts = t :: rest ∧ Clause.Shaped inClass depth row c t ∧
      Clause.ShapedAll inClass depth (row + (Clause.lines u depth c).length) cs rest

end

end

namespace Untyped

variable (u : Untyped)

/-- The text of clauses without records. -/
def code (cs : List Clause) : List Char :=
  Text.joinLines ((Clause.linesAll u 0 cs).map Line.plain)

/-- What the grammar of a language promises of its parser at one text: if the text is that of valid
clauses, it is parsed, and every clause has its node under the root. -/
def Parses (lex : Lexicon) (parse : Parser) (cs : List Clause) : Prop :=
  Clause.areValid u lex false cs = true →
    ∃ t, parse (String.ofList (u.code cs)) = some t ∧ Clause.ShapedAll u false 0 0 cs t.parts

end Untyped

end Interlingua
