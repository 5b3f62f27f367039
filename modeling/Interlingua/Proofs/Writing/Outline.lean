import Interlingua.Dialect.Braces
import Interlingua.Proofs.Writing.Pages

/-!
# Programs with their declarations

A marked program is a program with the decisions of a writer whose variables are local to blocks:
every body has the variables that are declared ahead of it, and every assignment is marked with what
it does to its variable. The text of a marked program declares what the marks say and nothing else.
The text that is written for a program is that of its outline, which is the program with such marks.
-/

namespace Interlingua

/-- What an assignment does to its variable. -/
inductive Mark where
  | declares
  | updates
  | field
  deriving DecidableEq

/-- A statement with marks. A function has the assignments whose variables are declared ahead. -/
inductive Marked where
  | expr (value : Expr)
  | print (value : Expr)
  | assign (mark : Mark) (a : Assign)
  | call (callee : Expr) (args : List Expr)
  | ret (value : Option Expr)
  | unknown (description : String)
  | function (f : Signature) (ahead : List Assign) (body : List Marked)
  | classDef (name : String) (bases : List Expr) (body : List Marked)
  | cond (test : Expr) (body : List Marked) (orelse : List Marked)

namespace Marked

def isCond : Marked → Bool
  | cond _ _ _ => true
  | _ => false

mutual

/-- The statement without its marks. -/
def erase : Marked → Stmt
  | expr value => .expr value
  | print value => .print value
  | assign _ a => .assign a
  | call callee args => .call callee args
  | ret value => .ret value
  | unknown description => .unknown description
  | function f _ body => .function f (eraseAll body)
  | classDef name bases body => .classDef name bases (eraseAll body)
  | cond test body orelse => .cond test (eraseAll body) (eraseAll orelse)

def eraseAll : List Marked → List Stmt
  | [] => []
  | s :: ss => erase s :: eraseAll ss

end

end Marked

namespace Dialect

variable (d : Dialect) (mode : RecordMode)

/-- A block in braces, with what ends its header. -/
def blockText (depth : Nat) (ending : String) (lines : List String) : String :=
  " \x7b" ++ ending ++ d.linesText (depth + 1) lines ++ "\n" ++ d.indentation depth ++ "\x7d"

/-- The line that declares the variable of an assignment ahead of a body. -/
def aheadText (a : Assign) : String :=
  "let " ++ a.target.id ++ d.noteText a ++ ";"

/-- A variable as the target of an assignment. -/
def targetText (a : Assign) : Mark → String
  | .declares => "let " ++ a.target.id ++ d.noteText a
  | .updates => a.target.id
  | .field => a.target.id ++ d.noteText a

mutual

/-- The text of a marked statement. -/
def markedText (inClass : Bool) (depth : Nat) : Marked → String
  | .expr value => d.exprText value ++ ";"
  | .print value => Piece.text (printPieces d value) ++ ";"
  | .assign mark a =>
    d.targetText a mark ++ " = " ++ d.exprText a.value ++ ";" ++ d.recordText mode (Record.ofAssign a)
  | .call callee args => d.exprText (.call callee args) ++ ";"
  | .ret value => "return" ++ (value.map (" " ++ d.exprText ·)).getD "" ++ ";"
  | .unknown description => d.unknownStmt description
  | .function f ahead body =>
    d.functionHeader f inClass ++ d.blockText depth (d.recordText mode (Record.ofSignature f))
      (ahead.map d.aheadText ++ markedTexts false (depth + 1) body)
  | .classDef name bases body =>
    d.classHeader name (bases.map d.exprText)
      ++ d.blockText depth "" (markedTexts true (depth + 1) body)
  | .cond test body orelse =>
    "if (" ++ d.exprText test ++ ")"
      ++ d.blockText depth "" (markedTexts inClass (depth + 1) body)
      ++ match orelse with
        | [] => ""
        | [alternative] =>
          if alternative.isCond then " else " ++ markedText inClass depth alternative
          else " else" ++ d.blockText depth "" [markedText inClass (depth + 1) alternative]
        | first :: second :: rest =>
          " else" ++ d.blockText depth "" (markedTexts inClass (depth + 1) (first :: second :: rest))

def markedTexts (inClass : Bool) (depth : Nat) : List Marked → List String
  | [] => []
  | s :: ss => markedText inClass depth s :: markedTexts inClass depth ss

end

end Dialect

/-- The body of a program or function: the parameters, the assignments whose variables are declared
ahead, and the statements. -/
structure MarkedBody where
  params : List String
  ahead : List Assign
  stmts : List Marked

/-- The text of the body of a program. -/
def MarkedBody.text (d : Dialect) (mode : RecordMode) (b : MarkedBody) : String :=
  "\n".intercalate (b.ahead.map d.aheadText ++ d.markedTexts mode false 0 b.stmts)

/-- The mark of an assignment after variables are declared, and the variables declared then. -/
def Assign.mark (inClass : Bool) (declared : List String) (a : Assign) : Mark × List String :=
  if inClass then (.field, declared)
  else if a.target.id ∈ declared then (.updates, declared)
  else (.declares, a.target.id :: declared)

theorem Assign.mark_of_mem {declared : List String} {a : Assign} (known : a.target.id ∈ declared) :
    a.mark false declared = (.updates, declared) := by
  simp [mark, known]

theorem Assign.mark_of_notMem {declared : List String} {a : Assign}
    (new : a.target.id ∉ declared) :
    a.mark false declared = (.declares, a.target.id :: declared) := by
  simp [mark, new]

/-- Of assignments whose variables have to be declared ahead, those with a variable that is not
declared yet, and the variables declared then. -/
def Assign.hoist : List Assign → List String → List Assign × List String
  | [], declared => ([], declared)
  | a :: as, declared =>
    if a.target.id ∈ declared then hoist as declared
    else
      let (ahead, final) := hoist as (a.target.id :: declared)
      (a :: ahead, final)

namespace Stmt

mutual

/-- The statement with its marks after variables are declared, and the variables declared then. -/
def outline (inClass : Bool) : Stmt → List String → Marked × List String
  | expr value, declared => (.expr value, declared)
  | print value, declared => (.print value, declared)
  | assign a, declared =>
    let (mark, declared) := a.mark inClass declared
    (.assign mark a, declared)
  | call callee args, declared => (.call callee args, declared)
  | ret value, declared => (.ret value, declared)
  | unknown description, declared => (.unknown description, declared)
  | function f body, declared =>
    let (ahead, own) := Assign.hoist (escaping body) f.paramNames
    (.function f ahead (outlineAll false body own).1, declared)
  | classDef name bases body, declared =>
    (.classDef name bases (outlineAll true body []).1, declared)
  | cond test body orelse, declared =>
    let (body, declared) := outlineAll inClass body declared
    let (orelse, declared) := outlineAll inClass orelse declared
    (.cond test body orelse, declared)

def outlineAll (inClass : Bool) : List Stmt → List String → List Marked × List String
  | [], declared => ([], declared)
  | s :: ss, declared =>
    let (s, declared) := outline inClass s declared
    let (ss, declared) := outlineAll inClass ss declared
    (s :: ss, declared)

end

end Stmt

/-- A body with its marks. -/
def outlineBody (params : List String) (body : List Stmt) : MarkedBody :=
  let (ahead, declared) := Assign.hoist (escaping body) params
  ⟨params, ahead, (Stmt.outlineAll false body declared).1⟩

def Program.outline (p : Program) : MarkedBody :=
  outlineBody [] p.body

/-- A dialect with braces around blocks, in which a new variable is introduced by a word of its own
and an expression owes nothing to the end of its line. -/
structure Dialect.BlockScoped (d : Dialect) : Prop where
  blocks : d.blocks = .braces
  bodies : d.bodies = .statements
  application : d.application = .listed
  terminator : d.terminator = ";"
  filler : d.filler = none
  keyword : ∀ a inClass, d.keyword a inClass = if inClass then none else some "let"
  forward : ∀ a, d.forward a = some (d.aheadText a)
  listOpen : ∀ element, d.listOpen element = [.token "["]
  tupleOpen : d.tupleOpen = [.token "["]
  unknownExpr : ∀ description, ∃ text, d.unknownExpr description = [.token text]

namespace Dialect

theorem blockScoped_javascript : javascript.BlockScoped where
  blocks := rfl
  bodies := rfl
  application := rfl
  terminator := rfl
  filler := rfl
  keyword _ _ := rfl
  forward _ := rfl
  listOpen _ := rfl
  tupleOpen := rfl
  unknownExpr _ := ⟨_, rfl⟩

theorem blockScoped_typescript : typescript.BlockScoped where
  blocks := rfl
  bodies := rfl
  application := rfl
  terminator := rfl
  filler := rfl
  keyword _ _ := rfl
  forward _ := rfl
  listOpen _ := rfl
  tupleOpen := rfl
  unknownExpr _ := ⟨_, rfl⟩

end Dialect

theorem Piece.notes_group (needed : Bool) {pieces : List Piece} (h : notes pieces = []) :
    notes (group needed pieces) = [] := by
  cases needed with
  | false => exact h
  | true => simpa [group, notes] using h

namespace Dialect.BlockScoped

variable {d : Dialect}

mutual

/-- An expression owes nothing to the end of its line. -/
theorem notes_exprPieces (braced : d.BlockScoped) (e : Expr) : Piece.notes (d.exprPieces e) = [] :=
  match e with
  | .call callee args => by
    have called : Piece.notes (operand Expr.atom callee (d.exprPieces callee)) = [] :=
      Piece.notes_group _ (braced.notes_exprPieces callee)
    have listed := braced.notes_listedPieces args
    simp only [exprPieces, braced.application]
    cases callee <;> simp_all [Piece.notes]
  | .name _ | .const _ _ => rfl
  | .member object _ => by
    have held : Piece.notes (operand Expr.atom object (d.exprPieces object)) = [] :=
      Piece.notes_group _ (braced.notes_exprPieces object)
    simp_all [exprPieces, Piece.notes]
  | .binary left op right => by
    have first : Piece.notes (operand op.strength left (d.exprPieces left)) = [] :=
      Piece.notes_group _ (braced.notes_exprPieces left)
    have second : Piece.notes (operand (op.strength + 1) right (d.exprPieces right)) = [] :=
      Piece.notes_group _ (braced.notes_exprPieces right)
    simp_all [exprPieces, Piece.notes]
  | .compare left op right => by
    have first : Piece.notes (operand (CompareOp.strength + 1) left (d.exprPieces left)) = [] :=
      Piece.notes_group _ (braced.notes_exprPieces left)
    have second : Piece.notes (operand (CompareOp.strength + 1) right (d.exprPieces right)) = [] :=
      Piece.notes_group _ (braced.notes_exprPieces right)
    simp_all [exprPieces, Piece.notes]
  | .list elements element _ => by
    have listed := braced.notes_listedPieces elements
    simp_all [exprPieces, braced.listOpen, Piece.notes]
  | .tuple elements _ => by
    have listed := braced.notes_listedPieces elements
    simp_all [exprPieces, braced.tupleOpen, Piece.notes]
  | .unknown description => by
    obtain ⟨text, pieces⟩ := braced.unknownExpr description
    rw [exprPieces, pieces]
    rfl

theorem notes_listedPieces (braced : d.BlockScoped) (es : List Expr) :
    Piece.notes (d.listedPieces es) = [] :=
  match es with
  | [] => rfl
  | [e] => braced.notes_exprPieces e
  | e :: next :: rest => by
    have first := braced.notes_exprPieces e
    have others := braced.notes_listedPieces (next :: rest)
    simp_all [listedPieces, Piece.notes]

end

theorem lineText_eq (braced : d.BlockScoped) (front : String) (e : Expr) (back : String) :
    Piece.lineText front (d.exprPieces e) back = front ++ d.exprText e ++ back := by
  simp [Piece.lineText, Piece.trailing, braced.notes_exprPieces, exprText]

theorem nestedText_eq (braced : d.BlockScoped) (depth : Nat) (ending : String) (lines : List String) :
    d.nestedText depth ending lines = d.blockText depth ending lines := by
  have filled : (if lines.isEmpty then d.filler.toList else lines) = lines := by
    cases lines <;> simp [braced.filler]
  simp only [nestedText, blockText, filled, opener, closer, braced.blocks, String.append_assoc]

theorem hoisted_eq (braced : d.BlockScoped) (as : List Assign) (declared : List String) :
    d.hoisted as declared =
      ((Assign.hoist as declared).1.map d.aheadText, (Assign.hoist as declared).2) := by
  induction as generalizing declared with
  | nil => rfl
  | cons a as ih =>
    simp only [hoisted, Assign.hoist, braced.forward, ih]
    split <;> rfl

theorem assignText_eq (braced : d.BlockScoped) (mode : RecordMode) (inClass : Bool) (depth : Nat)
    (a : Assign) (declared : List String) :
    d.assignText mode inClass a declared =
      (d.markedText mode inClass depth (.assign (a.mark inClass declared).1 a),
        (a.mark inClass declared).2) := by
  cases inClass with
  | true =>
    simp [assignText, braced.lineText_eq, braced.keyword, braced.terminator, Assign.mark, markedText,
      targetText]
  | false =>
    by_cases known : a.target.id ∈ declared <;>
      simp [assignText, braced.lineText_eq, braced.keyword, braced.terminator, Assign.mark, markedText,
        targetText, known]

theorem isCond_outline (s : Stmt) (inClass : Bool) (declared : List String) :
    (s.outline inClass declared).1.isCond = s.isCond := by
  cases s <;> rfl

variable (mode : RecordMode)

mutual

/-- The text of a statement is that of its outline, which declares the same variables. -/
theorem stmtText_eq (braced : d.BlockScoped) (s : Stmt) (inClass : Bool) (depth : Nat)
    (declared : List String) :
    d.stmtText mode inClass depth s declared =
      (d.markedText mode inClass depth (s.outline inClass declared).1,
        (s.outline inClass declared).2) :=
  match s with
  | .expr value => by
    simp [stmtText, braced.lineText_eq, braced.terminator, Stmt.outline, markedText]
  | .print value => by
    simp [stmtText, printPieces, braced.lineText_eq, braced.terminator, Stmt.outline, markedText,
      exprText]
  | .call callee args => by
    simp [stmtText, braced.lineText_eq, braced.terminator, Stmt.outline, markedText]
  | .ret none => by simp [stmtText, braced.terminator, Stmt.outline, markedText]
  | .ret (some value) => by
    have gap : "return " = "return" ++ " " := rfl
    rw [stmtText, braced.lineText_eq, braced.terminator, gap]
    simp only [Stmt.outline, markedText, Option.map_some, Option.getD_some, String.append_assoc]
  | .unknown _ => rfl
  | .assign a => by rw [stmtText, braced.assignText_eq mode inClass depth, Stmt.outline]
  | .function f body => by
    simp only [stmtText, braced.hoisted_eq, braced.stmtTexts_eq body, braced.nestedText_eq,
      Stmt.outline, markedText]
  | .classDef name bases body => by
    simp only [stmtText, braced.stmtTexts_eq body, braced.nestedText_eq, Stmt.outline, markedText]
  | .cond test body orelse => by
    obtain ⟨branches, final⟩ := braced.orelseText_eq orelse inClass depth
      (Stmt.outlineAll inClass body declared).2 test (Stmt.outlineAll inClass body declared).1
    have header : d.testText test = "if (" ++ d.exprText test ++ ")" := by
      simp only [testText, braced.blocks]
    simp only [stmtText, braced.stmtTexts_eq body, header, braced.notes_exprPieces,
      braced.nestedText_eq, final, Stmt.outline, branches]
    rfl

theorem stmtTexts_eq (braced : d.BlockScoped) (ss : List Stmt) (inClass : Bool) (depth : Nat)
    (declared : List String) :
    d.stmtTexts mode inClass depth ss declared =
      (d.markedTexts mode inClass depth (Stmt.outlineAll inClass ss declared).1,
        (Stmt.outlineAll inClass ss declared).2) :=
  match ss with
  | [] => rfl
  | s :: rest => by
    simp only [stmtTexts, braced.stmtText_eq s, braced.stmtTexts_eq rest, Stmt.outlineAll, markedTexts]

/-- What follows the first block of a conditional is what its outline has there. -/
theorem orelseText_eq (braced : d.BlockScoped) (orelse : List Stmt) (inClass : Bool) (depth : Nat)
    (declared : List String) (test : Expr) (body : List Marked) :
    d.markedText mode inClass depth (.cond test body (Stmt.outlineAll inClass orelse declared).1) =
        "if (" ++ d.exprText test ++ ")"
          ++ d.blockText depth "" (d.markedTexts mode inClass (depth + 1) body)
          ++ (d.orelseText mode inClass depth orelse declared).1 ∧
      (d.orelseText mode inClass depth orelse declared).2 =
        (Stmt.outlineAll inClass orelse declared).2 :=
  match orelse with
  | [] => by simp [Stmt.outlineAll, markedText, orelseText]
  | [alternative] => by
    have next := braced.stmtText_eq alternative inClass
    by_cases chained : alternative.isCond
    · simp [Stmt.outlineAll, markedText, orelseText, next, chained, isCond_outline, elseIfText,
        braced.blocks]
    · simp [Stmt.outlineAll, markedText, orelseText, stmtTexts, next, chained, isCond_outline,
        elseText, braced.blocks, braced.nestedText_eq]
  | first :: second :: rest => by
    have next := braced.stmtText_eq first inClass
    have others := braced.stmtTexts_eq (second :: rest) inClass
    simp [Stmt.outlineAll, markedText, markedTexts, orelseText, next, others, elseText, braced.blocks,
      braced.nestedText_eq]

end

/-- The text of a program is that of its outline. -/
theorem render_eq (braced : d.BlockScoped) (p : Program) : render d mode p = p.outline.text d mode := by
  rw [render_eq_texts mode braced.bodies, braced.hoisted_eq, braced.stmtTexts_eq]
  rfl

end Dialect.BlockScoped

namespace Stmt

mutual

/-- Marking a statement changes nothing else. -/
theorem erase_outline (inClass : Bool) (s : Stmt) (declared : List String) :
    (s.outline inClass declared).1.erase = s :=
  match s with
  | expr _ | print _ | assign _ | call _ _ | ret _ | unknown _ => rfl
  | function f body => by rw [outline, Marked.erase, eraseAll_outlineAll false body]
  | classDef name bases body => by rw [outline, Marked.erase, eraseAll_outlineAll true body]
  | cond test body orelse => by
    rw [outline, Marked.erase, eraseAll_outlineAll inClass body, eraseAll_outlineAll inClass orelse]

theorem eraseAll_outlineAll (inClass : Bool) (ss : List Stmt) (declared : List String) :
    Marked.eraseAll (outlineAll inClass ss declared).1 = ss :=
  match ss with
  | [] => rfl
  | s :: ss => by
    rw [outlineAll, Marked.eraseAll, erase_outline inClass s, eraseAll_outlineAll inClass ss]

end

end Stmt

end Interlingua
