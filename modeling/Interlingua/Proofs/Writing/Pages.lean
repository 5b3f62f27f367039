import Interlingua.Proofs.Writing.Appending

/-!
# What is written on a page

A sheet that owes nothing is a page. What a statement puts on a page depends on the depth of the
blocks around it, on whether it is a member of a class and on the variables that are declared, and on
nothing else. So the text of a statement can be told without a sheet, and writing the statement
appends this text and leaves a page. This holds in every dialect in which the bodies of functions are
statements.
-/

namespace Interlingua

namespace Piece

/-- What pieces owe to the end of the line. -/
def notes (pieces : List Piece) : List String :=
  pieces.filterMap fun
    | note text => some text
    | _ => none

/-- Notes at the end of a line. -/
def trailing (notes : List String) : String :=
  String.join (notes.map ("  " ++ ·))

/-- A line with pieces in it, between what stands in front of them and behind them. What they owe
stands at its end. -/
def lineText (front : String) (pieces : List Piece) (back : String) : String :=
  front ++ text pieces ++ back ++ trailing (notes pieces)

end Piece

namespace Dialect

variable (d : Dialect) (mode : RecordMode)

def exprText (e : Expr) : String :=
  Piece.text (exprPieces d e)

/-- The type that stands after a variable where it is introduced. -/
def noteText (a : Assign) : String :=
  ((d.typeNote a).map (": " ++ ·)).getD ""

/-- A record at the end of a line. -/
def recordText (r : Record) : String :=
  if mode = .inline && d.embedsRecords && !r.isEmpty then
    " " ++ String.ofList (Record.encode d.comment.toList r)
  else ""

def indentation (depth : Nat) : String :=
  String.join (List.replicate depth d.unit)

/-- Lines that follow another. -/
def linesText (depth : Nat) (lines : List String) : String :=
  String.join (lines.map fun line => "\n" ++ d.indentation depth ++ line)

/-- Lines with a text in front of the first. -/
def ledText (lead : String) (depth : Nat) : List String → String
  | [] => ""
  | line :: rest => lead ++ d.indentation depth ++ line ++ d.linesText depth rest

theorem linesText_cons (depth : Nat) (line : String) (rest : List String) :
    d.linesText depth (line :: rest) =
      "\n" ++ d.indentation depth ++ line ++ d.linesText depth rest := by
  simp [linesText]

theorem linesText_append (depth : Nat) (lines more : List String) :
    d.linesText depth (lines ++ more) = d.linesText depth lines ++ d.linesText depth more := by
  simp [linesText, String.join_append]

theorem ledText_newline (depth : Nat) (lines : List String) :
    d.ledText "\n" depth lines = d.linesText depth lines := by
  cases lines <;> simp [ledText, linesText]

theorem ledText_empty (lines : List String) : d.ledText "" 0 lines = "\n".intercalate lines := by
  have unindented : d.indentation 0 = "" := rfl
  cases lines with
  | nil => rfl
  | cons line rest =>
    rw [ledText, unindented]
    induction rest generalizing line with
    | nil => simp [linesText]
    | cons next rest ih =>
      rw [String.intercalate_cons_cons, ← ih next]
      simp [linesText, unindented, String.append_assoc]

/-- What ends the header of a block. -/
def opener : String :=
  match d.blocks with
  | .braces => " \x7b"
  | .indented => ":"

/-- What ends a block, if anything does. -/
def closer (depth : Nat) : String :=
  match d.blocks with
  | .braces => "\n" ++ d.indentation depth ++ "\x7d"
  | .indented => ""

/-- A block, with what follows on the line of its header. A block without lines has a filler, if
there is one. -/
def nestedText (depth : Nat) (ending : String) (lines : List String) : String :=
  d.opener ++ ending ++ d.linesText (depth + 1) (if lines.isEmpty then d.filler.toList else lines)
    ++ d.closer depth

/-- The header of a conditional. -/
def testText (test : Expr) : String :=
  match d.blocks with
  | .braces => "if (" ++ d.exprText test ++ ")"
  | .indented => "if " ++ d.exprText test

/-- What stands between a block and another branch after it. -/
def elseIfText (depth : Nat) : String :=
  match d.blocks with
  | .braces => " else "
  | .indented => "\n" ++ d.indentation depth ++ "el"

def elseText (depth : Nat) : String :=
  match d.blocks with
  | .braces => " else"
  | .indented => "\n" ++ d.indentation depth ++ "else"

/-- The lines that declare variables of assignments ahead of a body, where some are declared already,
and all that are declared then. -/
def hoisted : List Assign → List String → List String × List String
  | [], declared => ([], declared)
  | a :: as, declared =>
    match d.forward a with
    | none => hoisted as declared
    | some line =>
      if a.target.id ∈ declared then hoisted as declared
      else
        let (ahead, final) := hoisted as (a.target.id :: declared)
        (line :: ahead, final)

/-- An assignment where some variables are declared, and those that are declared after it. -/
def assignText (inClass : Bool) (a : Assign) (declared : List String) : String × List String :=
  let known := a.target.id ∈ declared
  let new := inClass || !decide known
  let word := if new then ((d.keyword a inClass).map (· ++ " ")).getD "" else ""
  let type := if new then d.noteText a else ""
  (Piece.lineText (word ++ a.target.id ++ type ++ " = ") (exprPieces d a.value) d.terminator
      ++ d.recordText mode (Record.ofAssign a),
    if inClass || known then declared else a.target.id :: declared)

mutual

/-- The text of a statement where some variables are declared, and those that are declared after
it. -/
def stmtText (inClass : Bool) (depth : Nat) : Stmt → List String → String × List String
  | .expr value, declared => (Piece.lineText "" (exprPieces d value) d.terminator, declared)
  | .print value, declared => (Piece.lineText "" (printPieces d value) d.terminator, declared)
  | .assign a, declared => assignText d mode inClass a declared
  | .call callee args, declared =>
    (Piece.lineText "" (exprPieces d (.call callee args)) d.terminator, declared)
  | .ret none, declared => ("return" ++ d.terminator, declared)
  | .ret (some value), declared =>
    (Piece.lineText "return " (exprPieces d value) d.terminator, declared)
  | .unknown description, declared => (d.unknownStmt description, declared)
  | .function f body, declared =>
    let (ahead, own) := d.hoisted (escaping body) f.paramNames
    (d.functionHeader f inClass ++ d.nestedText depth (d.recordText mode (Record.ofSignature f))
      (ahead ++ (stmtTexts false (depth + 1) body own).1), declared)
  | .classDef name bases body, declared =>
    (d.classHeader name (bases.map d.exprText)
      ++ d.nestedText depth "" (stmtTexts true (depth + 1) body []).1, declared)
  | .cond test body orelse, declared =>
    let (lines, declared) := stmtTexts inClass (depth + 1) body declared
    let (rest, declared) := orelseText inClass depth orelse declared
    (d.testText test ++ d.nestedText depth (Piece.trailing (Piece.notes (exprPieces d test))) lines
      ++ rest, declared)

/-- The texts of statements one after the other. -/
def stmtTexts (inClass : Bool) (depth : Nat) : List Stmt → List String → List String × List String
  | [], declared => ([], declared)
  | s :: ss, declared =>
    let (text, declared) := stmtText inClass depth s declared
    let (texts, declared) := stmtTexts inClass depth ss declared
    (text :: texts, declared)

/-- What follows the first block of a conditional. A conditional alone goes on with the chain. -/
def orelseText (inClass : Bool) (depth : Nat) : List Stmt → List String → String × List String
  | [], declared => ("", declared)
  | s :: ss, declared =>
    if s.isCond && ss.isEmpty then
      let (text, declared) := stmtText inClass depth s declared
      (d.elseIfText depth ++ text, declared)
    else
      let (text, declared) := stmtText inClass (depth + 1) s declared
      let (texts, declared) := stmtTexts inClass (depth + 1) ss declared
      (d.elseText depth ++ d.nestedText depth "" (text :: texts), declared)

end

theorem isEmpty_stmtTexts (inClass : Bool) (depth : Nat) (ss : List Stmt) (declared : List String) :
    (d.stmtTexts mode inClass depth ss declared).1.isEmpty = ss.isEmpty := by
  cases ss <;> rfl

end Dialect

namespace Sheet

variable (d : Dialect) (mode : RecordMode) (output : String) (depth : Nat) (inClass : Bool)
  (declared : List String) (outer : List (List String))

/-- A sheet without declarations and notes that are still to be written. -/
def page : Sheet :=
  { output, depth, inClass, scopes := declared :: outer }

/-- The sheet with lines that are to open the next body. -/
def withAhead (s : Sheet) (lines : List String) : Sheet :=
  { s with forward := lines }

/-- The sheet with notes that are owed to the line. -/
def noting (s : Sheet) (notes : List String) : Sheet :=
  { s with notes }

theorem push_page (text : String) :
    (page output depth inClass declared outer).push text =
      page (output ++ text) depth inClass declared outer :=
  rfl

theorem push_noting (s : Sheet) (notes : List String) (text : String) :
    (s.noting notes).push text = (s.push text).noting notes :=
  rfl

theorem flush_noting (notes : List String) :
    ((page output depth inClass declared outer).noting notes).flush =
      page (output ++ Piece.trailing notes) depth inClass declared outer :=
  rfl

theorem flush_page :
    (page output depth inClass declared outer).flush = page output depth inClass declared outer := by
  simp [page, flush, push]

theorem indent_page :
    (page output depth inClass declared outer).indent d =
      page (output ++ d.indentation depth) depth inClass declared outer :=
  rfl

theorem newline_page :
    (page output depth inClass declared outer).newline d =
      page (output ++ "\n" ++ d.indentation depth) depth inClass declared outer :=
  rfl

theorem write_eq (s : Sheet) (pieces : List Piece) :
    s.write pieces = (s.push (Piece.text pieces)).noting (s.notes ++ Piece.notes pieces) := by
  induction pieces generalizing s with
  | nil => simp [write, push, noting, Piece.text, Piece.notes]
  | cons piece pieces ih =>
    have rest : (s.put piece).write pieces = s.write (piece :: pieces) := rfl
    rw [← rest, ih]
    cases piece <;> simp [put, push, noting, Piece.text, Piece.inPlace, Piece.notes,
      String.append_assoc]

theorem write_page (pieces : List Piece) :
    (page output depth inClass declared outer).write pieces =
      (page (output ++ Piece.text pieces) depth inClass declared outer).noting
        (Piece.notes pieces) :=
  write_eq _ pieces

/-- A line with pieces in it, and with their notes at its end. -/
theorem line_page (front : String) (pieces : List Piece) (back : String) :
    ((((page output depth inClass declared outer).push front).write pieces).push back).flush =
      page (output ++ Piece.lineText front pieces back) depth inClass declared outer := by
  rw [push_page, write_page, push_noting, push_page, flush_noting]
  simp only [Piece.lineText, String.append_assoc]

theorem pieces_page (pieces : List Piece) (back : String) :
    (((page output depth inClass declared outer).write pieces).push back).flush =
      page (output ++ Piece.lineText "" pieces back) depth inClass declared outer := by
  rw [← line_page, push_page, String.append_empty]

/-- The record of a line stands behind the notes. -/
theorem record_eq_push (r : Record) (s : Sheet) :
    s.record d mode r = s.flush.push (d.recordText mode r) := by
  rw [record, Dialect.recordText]
  split
  · rfl
  · simp [push]

theorem declare_page (id : String) :
    (page output depth inClass declared outer).declare id =
      (!decide (id ∈ declared), page output depth inClass
        (if id ∈ declared then declared else id :: declared) outer) := by
  by_cases known : id ∈ declared <;> simp [declare, page, known]

theorem foldl_newline_page (lines : List String) :
    lines.foldl (fun s line => (s.newline d).push line) (page output depth inClass declared outer) =
      page (output ++ d.linesText depth lines) depth inClass declared outer := by
  induction lines generalizing output with
  | nil => simp [Dialect.linesText]
  | cons line rest ih =>
    rw [List.foldl_cons, newline_page, push_page, ih, d.linesText_cons]
    simp only [String.append_assoc]

/-- A body with lines that are to open it. -/
theorem body_withAhead (ahead lines : List String) (lead : String) (final : List String)
    (write : String → Sheet → Sheet)
    (written : ∀ output lead, write lead (page output depth inClass declared outer) =
      page (output ++ d.ledText lead depth lines) depth inClass final outer) :
    ((page output depth inClass declared outer).withAhead ahead).body d lead write =
      page (output ++ d.ledText lead depth (ahead ++ lines)) depth inClass final outer := by
  cases ahead with
  | nil => exact written output lead
  | cons line rest =>
    change write "\n" (rest.foldl _ ((((page output depth inClass declared outer).push lead).indent
      d).push line)) = _
    rw [push_page, indent_page, push_page, foldl_newline_page, written, d.ledText_newline,
      List.cons_append, Dialect.ledText, d.linesText_append]
    simp only [String.append_assoc]

theorem openBlock_page (ahead notes : List String) (header : Option Record) :
    (((page output depth inClass declared outer).withAhead ahead).noting notes).openBlock d mode
        header =
      (page (output ++ d.opener
        ++ (Piece.trailing notes ++ (header.map (d.recordText mode)).getD "")) (depth + 1) inClass
        declared outer).withAhead ahead := by
  have opened : ∀ s : Sheet, s.openBlock d mode header =
      { (s.push d.opener).flush.push ((header.map (d.recordText mode)).getD "") with
        depth := s.depth + 1 } := by
    intro s
    cases header with
    | none =>
      change { (s.push d.opener).flush with depth := s.depth + 1 } = _
      simp [push]
    | some r =>
      change { (s.push d.opener).record d mode r with
        depth := ((s.push d.opener).record d mode r).depth + 1 } = _
      rw [record_eq_push]
      rfl
  rw [opened, ← String.append_assoc]
  rfl

theorem closeBlock_page :
    (page output (depth + 1) inClass declared outer).closeBlock d =
      page (output ++ d.closer depth) depth inClass declared outer := by
  rw [closeBlock, Dialect.closer]
  cases d.blocks with
  | braces =>
    change page (output ++ "\n" ++ d.indentation depth ++ "\x7d") depth inClass declared outer = _
    simp only [String.append_assoc]
  | indented => simp [page]

theorem fill_page (ahead : List String) (isEmpty : Bool) :
    ((page output depth inClass declared outer).withAhead ahead).fill d isEmpty =
      (page (output ++ d.linesText depth (if isEmpty && ahead.isEmpty then d.filler.toList else []))
        depth inClass declared outer).withAhead ahead := by
  have owed : ((page output depth inClass declared outer).withAhead ahead).forward = ahead := rfl
  rw [fill, owed]
  cases isEmpty && ahead.isEmpty with
  | false => simp [Dialect.linesText]
  | true =>
    cases d.filler with
    | none => simp [Dialect.linesText]
    | some filler =>
      change (page (output ++ "\n" ++ d.indentation depth ++ filler) depth inClass declared
        outer).withAhead ahead = _
      simp [Dialect.linesText, String.append_assoc]

/-- A block on a page, with lines that are to open it and notes that are owed to its header. -/
theorem block_page (ahead notes lines : List String) (header : Option Record) (isEmpty : Bool)
    (final : List String) (write : String → Sheet → Sheet) (empty : isEmpty = lines.isEmpty)
    (written : ∀ output lead, write lead (page output (depth + 1) inClass declared outer) =
      page (output ++ d.ledText lead (depth + 1) lines) (depth + 1) inClass final outer) :
    (((page output depth inClass declared outer).withAhead ahead).noting notes).block d mode header
        isEmpty write =
      page (output ++ d.nestedText depth
        (Piece.trailing notes ++ (header.map (d.recordText mode)).getD "") (ahead ++ lines)) depth
        inClass final outer := by
  have all : (if isEmpty && ahead.isEmpty then d.filler.toList else []) ++ (ahead ++ lines) =
      if (ahead ++ lines).isEmpty then d.filler.toList else ahead ++ lines := by
    cases ahead <;> cases lines <;> simp [empty]
  rw [block, openBlock_page, fill_page, body_withAhead d _ _ _ _ _ _ _ _ final write written,
    closeBlock_page, d.ledText_newline, Dialect.nestedText, ← all,
    d.linesText_append _ _ (ahead ++ lines)]
  simp only [String.append_assoc]

/-- Variables that escape a branch are declared ahead. -/
theorem declareEscaping_page (body : List Stmt) :
    (page output depth inClass declared outer).declareEscaping d body =
      (page output depth inClass (d.hoisted (escaping body) declared).2 outer).withAhead
        (d.hoisted (escaping body) declared).1 := by
  suffices all : ∀ (as : List Assign) (lines declared : List String),
      as.foldl (declareAhead d) ((page output depth inClass declared outer).withAhead lines) =
        (page output depth inClass (d.hoisted as declared).2 outer).withAhead
          (lines ++ (d.hoisted as declared).1) from
    all (escaping body) [] declared
  intro as
  induction as with
  | nil =>
    intro lines declared
    simp [Dialect.hoisted]
  | cons a rest ih =>
    intro lines declared
    rw [List.foldl_cons, Dialect.hoisted, declareAhead]
    cases d.forward a with
    | none => exact ih lines declared
    | some line =>
      by_cases known : a.target.id ∈ declared
      · have step : ((page output depth inClass declared outer).withAhead lines).declare a.target.id =
            (false, (page output depth inClass declared outer).withAhead lines) := by
          simp [declare, withAhead, page, known]
        simp only [step, if_pos known]
        exact ih lines declared
      · have step : ((page output depth inClass declared outer).withAhead lines).declare a.target.id =
            (true, (page output depth inClass (a.target.id :: declared) outer).withAhead lines) := by
          simp [declare, withAhead, page, known]
        have next := ih (lines ++ [line]) (a.target.id :: declared)
        rw [List.append_assoc] at next
        simp only [step, if_neg known]
        exact next

/-- Writing in a scope of its own leaves the scope around it. -/
theorem within_page {inner : Bool} {names final : List String} {text : String}
    (write : Sheet → Sheet) (written : write (page output depth inner names (declared :: outer)) =
      page text depth inner final (declared :: outer)) :
    (page output depth inClass declared outer).within inner names write =
      page text depth inClass declared outer := by
  have own : { page output depth inClass declared outer with
      inClass := inner, scopes := names :: (page output depth inClass declared outer).scopes } =
      page output depth inner names (declared :: outer) := rfl
  simp only [within, own, written]
  rfl

end Sheet

namespace Dialect

open Sheet

section

variable (d : Dialect) (mode : RecordMode) (output : String) (depth : Nat) (inClass : Bool)
  (declared : List String) (outer : List (List String))

theorem writeAssign_page (statements : d.bodies = .statements) (a : Assign) :
    writeAssign d mode a (page output depth inClass declared outer) =
      page (output ++ (d.assignText mode inClass a declared).1) depth inClass
        (d.assignText mode inClass a declared).2 outer := by
  have inPage : (page output depth inClass declared outer).inClass = inClass := rfl
  have declares : (if inClass then (true, page output depth inClass declared outer)
      else (page output depth inClass declared outer).declare a.target.id) =
      (inClass || !decide (a.target.id ∈ declared),
        page output depth inClass (d.assignText mode inClass a declared).2 outer) := by
    cases inClass <;> simp [declare_page, assignText]
  simp only [writeAssign, statements, inPage, declares, record_eq_push]
  rw [line_page, push_page, String.append_assoc]
  rfl

theorem openCond_page (test : Expr) :
    openCond d test (page output depth inClass declared outer) =
      (page (output ++ d.testText test) depth inClass declared outer).noting
        (Piece.notes (exprPieces d test)) := by
  rw [openCond, testText]
  cases d.blocks with
  | braces =>
    simp only [push_page, write_page, push_noting, exprText, String.append_assoc]
  | indented => simp only [push_page, write_page, exprText, String.append_assoc]

theorem openElseIf_page :
    openElseIf d (page output depth inClass declared outer) =
      page (output ++ d.elseIfText depth) depth inClass declared outer := by
  rw [openElseIf, elseIfText]
  cases d.blocks <;> simp only [newline_page, push_page, String.append_assoc]

theorem openElse_page :
    openElse d (page output depth inClass declared outer) =
      page (output ++ d.elseText depth) depth inClass declared outer := by
  rw [openElse, elseText]
  cases d.blocks <;> simp only [newline_page, push_page, String.append_assoc]

/-- The last branch of a conditional. -/
theorem else_page (lines final : List String) (write : String → Sheet → Sheet)
    (full : false = lines.isEmpty)
    (written : ∀ output lead, write lead (page output (depth + 1) inClass declared outer) =
      page (output ++ d.ledText lead (depth + 1) lines) (depth + 1) inClass final outer) :
    ((openElse d (page output depth inClass declared outer)).block d mode none false write).flush =
      page (output ++ (d.elseText depth ++ d.nestedText depth "" lines)) depth inClass final
        outer := by
  have block := block_page d mode (output ++ d.elseText depth) depth inClass declared outer [] []
    lines none false final write full written
  rw [openElse_page]
  refine (congrArg flush block).trans ?_
  rw [flush_page, String.append_assoc]
  rfl

/-- The other branches of a conditional, if the statements in them are written as they should be. -/
theorem writeOrelse_page {orelse : List Stmt}
    (one : ∀ alternative, orelse = [alternative] → ∀ output depth,
      writeStmt d mode alternative (page output depth inClass declared outer) =
        page (output ++ (d.stmtText mode inClass depth alternative declared).1) depth inClass
          (d.stmtText mode inClass depth alternative declared).2 outer)
    (all : ∀ output lead,
      writeStmts d mode lead orelse (page output (depth + 1) inClass declared outer) =
        page (output ++ d.ledText lead (depth + 1)
          (d.stmtTexts mode inClass (depth + 1) orelse declared).1) (depth + 1) inClass
          (d.stmtTexts mode inClass (depth + 1) orelse declared).2 outer) :
    writeOrelse d mode orelse (page output depth inClass declared outer) =
      page (output ++ (d.orelseText mode inClass depth orelse declared).1) depth inClass
        (d.orelseText mode inClass depth orelse declared).2 outer := by
  match orelse with
  | [] => simp [writeOrelse, orelseText, flush_page]
  | [alternative] =>
    by_cases chained : alternative.isCond
    · have next := one alternative rfl
      simp [writeOrelse, chained, openElseIf_page, next, flush_page, orelseText, String.append_assoc]
    · have written := else_page d mode output depth inClass declared outer _ _
        (fun lead s => writeStmt d mode alternative ((s.push lead).indent d)) rfl
        fun output lead => by simpa only [writeStmts] using all output lead
      simpa [writeOrelse, chained, orelseText, stmtTexts] using written
  | first :: second :: rest =>
    have written := else_page d mode output depth inClass declared outer _ _
      (fun lead s => writeStmts d mode lead (first :: second :: rest) s) rfl all
    simpa [writeOrelse, orelseText, stmtTexts] using written

end

variable {d : Dialect} (mode : RecordMode)

mutual

/-- Writing a statement on a page appends its text, and declares its variables. -/
theorem writeStmt_page (statements : d.bodies = .statements) (s : Stmt) (output : String)
    (depth : Nat) (inClass : Bool) (declared : List String) (outer : List (List String)) :
    writeStmt d mode s (page output depth inClass declared outer) =
      page (output ++ (d.stmtText mode inClass depth s declared).1) depth inClass
        (d.stmtText mode inClass depth s declared).2 outer :=
  match s with
  | .expr value => by rw [writeStmt, stmtText, pieces_page]
  | .print value => by rw [writeStmt, stmtText, pieces_page]
  | .call callee args => by rw [writeStmt, stmtText, pieces_page]
  | .ret none => by
    rw [writeStmt, stmtText, writeReturn, push_page, push_page, flush_page, String.append_assoc]
  | .ret (some value) => by
    have written := line_page output depth inClass declared outer "return " (exprPieces d value)
      d.terminator
    rw [writeStmt, stmtText, ← written]
    simp only [writeReturn, push_page, String.append_assoc]
    rfl
  | .unknown description => by rw [writeStmt, stmtText, push_page, flush_page]
  | .assign a => by rw [writeStmt, stmtText, writeAssign_page d mode _ _ _ _ _ statements, flush_page]
  | .function f body => by
    have block := block_page d mode (output ++ d.functionHeader f inClass) depth false
      (d.hoisted (escaping body) f.paramNames).2 (declared :: outer)
      (d.hoisted (escaping body) f.paramNames).1 [] _ (some (Record.ofSignature f)) body.isEmpty _
      (fun lead s => writeStmts d mode lead body s) (d.isEmpty_stmtTexts mode _ _ body _).symm
      fun output lead => writeStmts_page statements body lead output (depth + 1) false _ _
    have inPage : (page output depth inClass declared outer).inClass = inClass := rfl
    simp only [writeStmt, statements, inPage, push_page, stmtText]
    rw [within_page _ depth inClass declared outer _
      ((congrArg _ (declareEscaping_page ..)).trans block), flush_page]
    simp [Piece.trailing, String.append_assoc]
  | .classDef name bases body => by
    have block := block_page d mode (output ++ d.classHeader name (bases.map d.exprText)) depth true []
      (declared :: outer) [] [] _ none body.isEmpty _ (fun lead s => writeStmts d mode lead body s)
      (d.isEmpty_stmtTexts mode _ _ body _).symm
      fun output lead => writeStmts_page statements body lead output (depth + 1) true _ _
    simp only [writeStmt, statements, push_page, stmtText]
    refine (congrArg flush (within_page _ depth inClass declared outer (fun s => s.block d mode none
      body.isEmpty fun lead s => writeStmts d mode lead body s) block)).trans ?_
    rw [flush_page, String.append_assoc]
    rfl
  | .cond test body orelse => by
    have block := block_page d mode (output ++ d.testText test) depth inClass declared outer []
      (Piece.notes (exprPieces d test)) _ none body.isEmpty _
      (fun lead s => writeStmts d mode lead body s) (d.isEmpty_stmtTexts mode _ _ body _).symm
      fun output lead => writeStmts_page statements body lead output (depth + 1) inClass _ _
    have one : ∀ alternative, orelse = [alternative] → ∀ output depth declared,
        writeStmt d mode alternative (page output depth inClass declared outer) =
          page (output ++ (d.stmtText mode inClass depth alternative declared).1) depth inClass
            (d.stmtText mode inClass depth alternative declared).2 outer := by
      cases orelse with
      | nil => exact fun _ none => nomatch none
      | cons alternative rest =>
        rintro _ ⟨⟩ output depth declared
        exact writeStmt_page statements alternative output depth inClass declared outer
    rw [writeStmt_cond d mode statements, openCond_page]
    refine (congrArg (writeOrelse d mode orelse) block).trans ?_
    rw [writeOrelse_page d mode _ depth inClass _ outer (fun alternative single output depth =>
      one alternative single output depth _) fun output lead =>
      writeStmts_page statements orelse lead output (depth + 1) inClass _ outer]
    simp [stmtText, String.append_assoc]

theorem writeStmts_page (statements : d.bodies = .statements) (ss : List Stmt) (lead : String)
    (output : String) (depth : Nat) (inClass : Bool) (declared : List String)
    (outer : List (List String)) :
    writeStmts d mode lead ss (page output depth inClass declared outer) =
      page (output ++ d.ledText lead depth (d.stmtTexts mode inClass depth ss declared).1) depth
        inClass (d.stmtTexts mode inClass depth ss declared).2 outer :=
  match ss with
  | [] => by simp [writeStmts, stmtTexts, ledText]
  | s :: rest => by
    rw [writeStmts, push_page, indent_page, writeStmt_page statements s,
      writeStmts_page statements rest, ledText_newline, stmtTexts, ledText]
    simp only [String.append_assoc]

end

/-- The text of a program: the declarations that open it, and its statements. -/
theorem render_eq_texts (statements : d.bodies = .statements) (p : Program) :
    render d mode p = "\n".intercalate ((d.hoisted (escaping p.body) []).1
      ++ (d.stmtTexts mode false 0 p.body (d.hoisted (escaping p.body) []).2).1) := by
  have start : ({} : Sheet) = page "" 0 false [] [] := rfl
  have written := body_withAhead d "" 0 false (d.hoisted (escaping p.body) []).2 []
    (d.hoisted (escaping p.body) []).1 _ "" _ (fun lead s => writeStmts d mode lead p.body s)
    fun output lead => writeStmts_page mode statements p.body lead output 0 false _ []
  rw [render, writeProgram, start, declareEscaping_page, written, ledText_empty]
  exact String.empty_append ..

end Dialect

end Interlingua
