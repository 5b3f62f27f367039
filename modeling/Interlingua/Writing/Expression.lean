import Interlingua.Dialect.Basic

/-!
# Writing expressions

Parentheses stand where an operand binds looser than its place asks for. The right operand of an
operator has to bind tighter than the operator, and comparisons never chain.
-/

namespace Interlingua.Dialect

variable (d : Dialect)

/-- The pieces of an operand in a place that asks for a binding strength. -/
def operand (least : Nat) (e : Expr) (pieces : List Piece) : List Piece :=
  Piece.group (e.strength < least) pieces

/-- Whether an argument that follows its function needs parentheses. -/
def isCompound : Expr → Bool
  | .call _ args => !args.isEmpty
  | e => e.strength < Expr.atom

mutual

/-- The pieces of an expression without parentheses around it. -/
def exprPieces : Expr → List Piece
  | .call callee args =>
    (match callee with
      | .name n => [.token (d.functionName n.id)]
      | _ =>
        match d.application with
        | .listed => operand Expr.atom callee (exprPieces callee)
        | .juxtaposed => Piece.group (isCompound callee) (exprPieces callee)) ++
    match d.application with
    | .listed => .token "(" :: listedPieces args ++ [.token ")"]
    | .juxtaposed => juxtaposedPieces args
  | .name n => [.token n.id]
  | .const value _ => [.token (d.literal value)]
  | .member object property =>
    operand Expr.atom object (exprPieces object) ++ [.token d.memberLink, .token property]
  | .binary left op right =>
    operand op.strength left (exprPieces left)
      ++ [.gap, .token (d.binarySymbol op), .gap]
      ++ operand (op.strength + 1) right (exprPieces right)
  | .compare left op right =>
    operand (CompareOp.strength + 1) left (exprPieces left)
      ++ [.gap, .token (d.compareSymbol op), .gap]
      ++ operand (CompareOp.strength + 1) right (exprPieces right)
  | .list elements element _ =>
    d.listOpen element ++ listedPieces elements ++ [.token d.listClose]
  | .tuple elements _ =>
    d.tupleOpen ++ listedPieces elements ++ [.token (d.tupleClose elements.length)]
  | .unknown description => d.unknownExpr description

/-- Expressions with commas between them. -/
def listedPieces : List Expr → List Piece
  | [] => []
  | [e] => exprPieces e
  | e :: next :: rest => exprPieces e ++ .token "," :: .gap :: listedPieces (next :: rest)

/-- Arguments, each after a space. -/
def juxtaposedPieces : List Expr → List Piece
  | [] => []
  | e :: rest => .gap :: Piece.group (isCompound e) (exprPieces e) ++ juxtaposedPieces rest

end

def printPieces (e : Expr) : List Piece :=
  exprPieces d (.call (.name ⟨"print", .load⟩) [e])

/-- The value of a conditional without another branch. -/
def unitPieces : List Piece :=
  [.token "return", .gap, .token "()"]

mutual

/-- Statements as one expression: the first decides its form. -/
def bodyPieces : List Stmt → List Piece
  | [] => [.token "undefined"]
  | [stmt] => headPieces stmt none
  | stmt :: next :: rest => headPieces stmt (some (bodyPieces (next :: rest)))

/-- A statement as an expression, with the pieces of those after it. An assignment is a binding
around them. -/
def headPieces : Stmt → Option (List Piece) → List Piece
  | .ret (some value), _ => exprPieces d value
  | .expr value, _ => exprPieces d value
  | .ret none, _ => unitPieces
  | .print value, _ => printPieces d value
  | .call callee args, _ => exprPieces d (.call callee args)
  | .cond test body orelse, _ =>
    [.token "if", .gap] ++ exprPieces d test ++ [.gap, .token "then", .gap] ++ bodyPieces body
      ++ [.gap, .token "else", .gap]
      ++ if orelse.isEmpty then unitPieces else bodyPieces orelse
  | .assign a, rest =>
    [.token "let", .gap, .token a.target.id, .gap, .token "=", .gap] ++ exprPieces d a.value
      ++ [.gap, .token "in", .gap] ++ rest.getD [.token a.target.id]
  | _, _ => [.token "undefined"]

end

end Interlingua.Dialect
