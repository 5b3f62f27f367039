import Interlingua.Writing.Statement

/-!
# Writing appends

What is written on a sheet does not depend on the text that stands there already, and this text stays:
writing commutes with putting a text in front of all. After a statement nothing is owed to its last
line. Both hold in every dialect, of every statement and of each step by which it is written.
-/

namespace Interlingua

namespace Sheet

/-- The sheet with a text in front of all that stands on it. -/
def prepend (text : String) (s : Sheet) : Sheet :=
  { s with output := text ++ s.output }

/-- The text that stands on the sheet neither changes nor decides what is written. -/
def Appends (write : Sheet → Sheet) : Prop :=
  ∀ text s, write (s.prepend text) = (write s).prepend text

section

variable (d : Dialect) (mode : RecordMode)

theorem appends_id : Appends fun s => s :=
  fun _ _ => rfl

theorem Appends.comp {first second : Sheet → Sheet} (h : Appends second) (before : Appends first) :
    Appends fun s => second (first s) :=
  fun text s => (congrArg second (before text s)).trans (h text (first s))

theorem Appends.congr {write other : Sheet → Sheet} (h : Appends write)
    (same : ∀ s, other s = write s) : Appends other := by
  rw [funext same]
  exact h

theorem appends_push (piece : String) : Appends fun s => s.push piece := by
  intro text s
  simp [prepend, push, String.append_assoc]

theorem appends_put (piece : Piece) : Appends fun s => s.put piece := by
  cases piece with
  | token text => exact appends_push text
  | gap => exact appends_push " "
  | note text => exact fun _ _ => rfl

theorem appends_foldl {α : Type} {step : Sheet → α → Sheet}
    (h : ∀ a, Appends fun s => step s a) (as : List α) : Appends fun s => as.foldl step s := by
  induction as with
  | nil => exact appends_id
  | cons a as ih => exact ih.comp (h a)

theorem appends_write (pieces : List Piece) : Appends fun s => s.write pieces :=
  appends_foldl appends_put pieces

theorem appends_flush : Appends flush :=
  fun text s => congrArg (fun s : Sheet => { s with notes := [] })
    (appends_push (String.join (s.notes.map ("  " ++ ·))) text s)

theorem appends_indent : Appends (indent d) :=
  fun text s => appends_push (String.join (List.replicate s.depth d.unit)) text s

theorem appends_newline : Appends (newline d) :=
  (appends_indent d).comp (appends_push "\n")

theorem declare_prepend (text : String) (s : Sheet) (id : String) :
    (s.prepend text).declare id = ((s.declare id).1, (s.declare id).2.prepend text) := by
  obtain ⟨output, depth, inClass, scopes, forward, notes⟩ := s
  cases scopes with
  | nil => rfl
  | cons scope outer => by_cases known : id ∈ scope <;> simp [declare, prepend, known]

theorem appends_declareAhead (a : Assign) : Appends fun s => s.declareAhead d a := by
  intro text s
  dsimp only [declareAhead]
  cases d.forward a with
  | none => rfl
  | some line =>
    simp only [declare_prepend]
    cases (s.declare a.target.id).1 <;> rfl

theorem appends_declareEscaping (body : List Stmt) : Appends (declareEscaping d body) :=
  appends_foldl (appends_declareAhead d) (escaping body)

theorem Appends.within {write : Sheet → Sheet} (h : Appends write) (inClass : Bool)
    (names : List String) : Appends (within inClass names write) := by
  intro text s
  have inner := h text { s with inClass, scopes := names :: s.scopes }
  exact congrArg (fun inner : Sheet =>
    { inner with inClass := s.inClass, scopes := inner.scopes.tail }) inner

/-- The end of a line with a record, once the notes are written. -/
def ending (r : Record) (s : Sheet) : Sheet :=
  if mode = .inline && d.embedsRecords && !r.isEmpty then
    s.push (" " ++ String.ofList (Record.encode d.comment.toList r))
  else s

theorem record_eq (r : Record) (s : Sheet) : record d mode r s = ending d mode r s.flush :=
  rfl

theorem appends_ending (r : Record) : Appends (ending d mode r) := by
  unfold ending
  split
  · exact appends_push _
  · exact appends_id

theorem appends_record (r : Record) : Appends (record d mode r) :=
  (appends_ending d mode r).comp appends_flush

theorem appends_declarations (lead : String) : Appends (declarations d lead) := by
  intro text s
  cases forward : s.forward with
  | nil =>
    have owed : (s.prepend text).forward = [] := forward
    simp only [declarations, forward, owed]
  | cons first rest =>
    have owed : (s.prepend text).forward = first :: rest := forward
    have start := ((appends_push first).comp ((appends_indent d).comp (appends_push lead))) text
      { s with forward := [] }
    have lines := appends_foldl (fun line => (appends_push line).comp (appends_newline d)) rest
    simp only [declarations, forward, owed]
    exact (congrArg (rest.foldl fun s line => (s.newline d).push line) start).trans (lines text _)

theorem Appends.body {write : String → Sheet → Sheet} (h : ∀ lead, Appends (write lead))
    (lead : String) : Appends (Sheet.body d lead write) :=
  fun text s => ((h (if s.forward.isEmpty then lead else "\n")).comp (appends_declarations d lead))
    text s

theorem appends_openBlock (header : Option Record) : Appends (openBlock d mode header) := by
  intro text s
  have deeper : Appends fun s : Sheet => { s with depth := s.depth + 1 } := fun _ _ => rfl
  cases header with
  | none => exact (deeper.comp (appends_flush.comp (appends_push _))) text s
  | some r => exact (deeper.comp ((appends_record d mode r).comp (appends_push _))) text s

theorem appends_fill (isEmpty : Bool) : Appends (fill d isEmpty) := by
  intro text s
  have owed : (s.prepend text).forward = s.forward := rfl
  dsimp only [fill]
  rw [owed]
  split
  · exact ((appends_push _).comp (appends_newline d)) text s
  · rfl

theorem appends_closeBlock : Appends (closeBlock d) := by
  have shallower : Appends fun s : Sheet => { s with depth := s.depth - 1 } := fun _ _ => rfl
  unfold closeBlock
  cases d.blocks with
  | braces => exact ((appends_push _).comp (appends_newline d)).comp shallower
  | indented => exact shallower

theorem Appends.block {write : String → Sheet → Sheet} (h : ∀ lead, Appends (write lead))
    (header : Option Record) (isEmpty : Bool) : Appends (Sheet.block d mode header isEmpty write) :=
  (appends_closeBlock d).comp ((Appends.body d h "\n").comp
    ((appends_fill d isEmpty).comp (appends_openBlock d mode header)))

theorem notes_declare (s : Sheet) (id : String) : (s.declare id).2.notes = s.notes := by
  dsimp only [declare]
  split
  · rfl
  · split <;> rfl

theorem notes_record (r : Record) (s : Sheet) : (record d mode r s).notes = [] := by
  dsimp only [record]
  split <;> rfl

theorem notes_openBlock (header : Option Record) (s : Sheet) :
    (openBlock d mode header s).notes = [] := by
  cases header with
  | none => rfl
  | some r => exact notes_record d mode r _

theorem notes_fill (isEmpty : Bool) (s : Sheet) : (fill d isEmpty s).notes = s.notes := by
  dsimp only [fill]
  split <;> rfl

theorem notes_declarations (lead : String) (s : Sheet) : (declarations d lead s).notes = s.notes := by
  have lines : ∀ (rest : List String) (s : Sheet),
      (rest.foldl (fun s line => (s.newline d).push line) s).notes = s.notes := by
    intro rest
    induction rest with
    | nil => exact fun _ => rfl
    | cons line rest ih => exact fun s => ih _
  dsimp only [declarations]
  split
  · rfl
  · exact lines _ _

theorem notes_closeBlock (s : Sheet) : (closeBlock d s).notes = s.notes := by
  dsimp only [closeBlock]
  split <;> rfl

/-- What is written inside a block starts without notes. -/
theorem notes_inner (header : Option Record) (isEmpty : Bool) (lead : String) (s : Sheet) :
    (((s.openBlock d mode header).fill d isEmpty).declarations d lead).notes = [] := by
  rw [notes_declarations, notes_fill, notes_openBlock]

theorem notes_block {write : String → Sheet → Sheet}
    (h : ∀ lead s, s.notes = [] → (write lead s).notes = []) (header : Option Record) (isEmpty : Bool)
    (s : Sheet) : (block d mode header isEmpty write s).notes = [] :=
  (notes_closeBlock d _).trans (h _ _ (notes_inner d mode header isEmpty "\n" s))

end

end Sheet

namespace Dialect

open Sheet

variable (d : Dialect) (mode : RecordMode)

theorem appends_writeAssign (a : Assign) : Appends (writeAssign d mode a) := by
  intro text s
  have place : (s.prepend text).inClass = s.inClass := rfl
  dsimp only [writeAssign]
  cases d.bodies with
  | expression =>
    dsimp only
    rw [place]
    exact ((appends_record d mode _).comp ((appends_write _).comp (appends_push _))) text s
  | statements =>
    have rest := fun front : String => (appends_record d mode (Record.ofAssign a)).comp
      ((appends_push d.terminator).comp ((appends_write (exprPieces d a.value)).comp
        (appends_push front)))
    dsimp only
    rw [place]
    cases s.inClass with
    | true => exact rest _ text s
    | false =>
      simp only [Bool.false_eq_true, if_false, declare_prepend]
      exact rest _ text _

theorem appends_openCond (test : Expr) : Appends (openCond d test) := by
  unfold openCond
  cases d.blocks with
  | braces => exact (appends_push _).comp ((appends_write _).comp (appends_push _))
  | indented => exact (appends_write _).comp (appends_push _)

theorem appends_openElseIf : Appends (openElseIf d) := by
  unfold openElseIf
  cases d.blocks with
  | braces => exact appends_push _
  | indented => exact (appends_push _).comp (appends_newline d)

theorem appends_openElse : Appends (openElse d) := by
  unfold openElse
  cases d.blocks with
  | braces => exact appends_push _
  | indented => exact (appends_push _).comp (appends_newline d)

theorem appends_writeReturn (value : Option Expr) : Appends (writeReturn d value) := by
  cases value with
  | none => exact (appends_push _).comp (appends_push _)
  | some e =>
    exact (appends_push _).comp ((appends_write _).comp ((appends_push _).comp (appends_push _)))

/-- Write the other branches of a conditional, and end it. -/
def writeOrelse (orelse : List Stmt) (s : Sheet) : Sheet :=
  match orelse with
  | [] => s.flush
  | [alternative] =>
    if alternative.isCond then (writeStmt d mode alternative (openElseIf d s)).flush
    else ((openElse d s).block d mode none false
      fun lead s => writeStmt d mode alternative ((s.push lead).indent d)).flush
  | first :: second :: rest =>
    ((openElse d s).block d mode none false
      fun lead s => writeStmts d mode lead (first :: second :: rest) s).flush

theorem writeStmt_cond (statements : d.bodies = .statements) (test : Expr) (body orelse : List Stmt)
    (s : Sheet) :
    writeStmt d mode (.cond test body orelse) s =
      writeOrelse d mode orelse ((openCond d test s).block d mode none body.isEmpty
        fun lead s => writeStmts d mode lead body s) := by
  rw [writeStmt]
  simp only [statements]
  rfl

theorem appends_writeOrelse_of {orelse : List Stmt}
    (one : ∀ alternative, orelse = [alternative] → Appends (writeStmt d mode alternative))
    (all : ∀ lead, Appends (writeStmts d mode lead orelse)) : Appends (writeOrelse d mode orelse) := by
  match orelse with
  | [] => exact appends_flush
  | [alternative] =>
    have next := one alternative rfl
    have block := Appends.block d mode
      (fun lead => next.comp ((appends_indent d).comp (appends_push lead))) none false
    by_cases chained : alternative.isCond
    · refine (appends_flush.comp (next.comp (appends_openElseIf d))).congr fun s => ?_
      simp only [writeOrelse, if_pos chained]
    · refine (appends_flush.comp (block.comp (appends_openElse d))).congr fun s => ?_
      simp only [writeOrelse, if_neg chained]
  | first :: second :: rest =>
    exact appends_flush.comp ((Appends.block d mode all none false).comp (appends_openElse d))

mutual

theorem appends_writeStmt (stmt : Stmt) : Appends (writeStmt d mode stmt) :=
  match stmt with
  | .expr value =>
    (appends_flush.comp ((appends_push _).comp (appends_write _))).congr fun s => by rw [writeStmt]
  | .print value =>
    (appends_flush.comp ((appends_push _).comp (appends_write _))).congr fun s => by rw [writeStmt]
  | .assign a => (appends_flush.comp (appends_writeAssign d mode a)).congr fun s => by rw [writeStmt]
  | .call callee args =>
    (appends_flush.comp ((appends_push _).comp (appends_write _))).congr fun s => by rw [writeStmt]
  | .ret value => (appends_flush.comp (appends_writeReturn d value)).congr fun s => by rw [writeStmt]
  | .unknown description => (appends_flush.comp (appends_push _)).congr fun s => by rw [writeStmt]
  | .function f body => by
    intro text s
    have place : (s.prepend text).inClass = s.inClass := rfl
    simp only [writeStmt, place]
    cases d.bodies with
    | expression =>
      exact (appends_flush.comp ((appends_record d mode _).comp
        ((appends_write _).comp (appends_push _)))) text s
    | statements =>
      have inner := (Appends.block d mode (fun lead => appends_writeStmts lead body)
        (some (Record.ofSignature f)) body.isEmpty).comp (appends_declareEscaping d body)
      exact (appends_flush.comp ((inner.within false f.paramNames).comp (appends_push _))) text s
  | .classDef name bases body => by
    intro text s
    simp only [writeStmt]
    cases d.bodies with
    | expression =>
      have inner := appends_writeStmts "\n" body
      exact (appends_flush.comp ((inner.within true []).comp (appends_push _))) text s
    | statements =>
      have inner := Appends.block d mode (fun lead => appends_writeStmts lead body) none body.isEmpty
      exact (appends_flush.comp ((inner.within true []).comp (appends_push _))) text s
  | .cond test body orelse => by
    cases style : d.bodies with
    | expression =>
      have pieces := appends_write (headPieces d (.cond test body orelse) none)
      exact (appends_flush.comp pieces).congr fun s => by simp only [writeStmt, style]
    | statements =>
      have first := (Appends.block d mode (fun lead => appends_writeStmts lead body) none
        body.isEmpty).comp (appends_openCond d test)
      have one : ∀ alternative, orelse = [alternative] → Appends (writeStmt d mode alternative) := by
        cases orelse with
        | nil => nofun
        | cons alternative rest =>
          rintro _ ⟨⟩
          exact appends_writeStmt alternative
      have others := appends_writeOrelse_of d mode one fun lead => appends_writeStmts lead orelse
      exact (others.comp first).congr (writeStmt_cond d mode style test body orelse)

theorem appends_writeStmts (lead : String) (ss : List Stmt) : Appends (writeStmts d mode lead ss) :=
  match ss with
  | [] => appends_id.congr fun s => by rw [writeStmts]
  | stmt :: rest =>
    ((appends_writeStmts "\n" rest).comp ((appends_writeStmt stmt).comp
      ((appends_indent d).comp (appends_push lead)))).congr fun s => by rw [writeStmts]

end

theorem appends_writeOrelse (orelse : List Stmt) : Appends (writeOrelse d mode orelse) :=
  appends_writeOrelse_of d mode (fun alternative _ => appends_writeStmt d mode alternative)
    fun lead => appends_writeStmts d mode lead orelse

/-- After a statement nothing is owed to its last line. -/
theorem notes_writeStmt (stmt : Stmt) (s : Sheet) : (writeStmt d mode stmt s).notes = [] := by
  cases stmt with
  | function f body => cases style : d.bodies <;> simp [writeStmt, style, flush]
  | classDef name bases body => cases style : d.bodies <;> simp [writeStmt, style, flush]
  | cond test body orelse =>
    cases style : d.bodies with
    | expression => simp [writeStmt, style, flush]
    | statements =>
      rw [writeStmt_cond d mode style]
      match orelse with
      | [] => rfl
      | [alternative] => by_cases chained : alternative.isCond <;> simp [writeOrelse, chained, flush]
      | first :: second :: rest => rfl
  | _ => simp [writeStmt, flush]

theorem notes_writeStmts (lead : String) (ss : List Stmt) (s : Sheet) (h : s.notes = []) :
    (writeStmts d mode lead ss s).notes = [] := by
  induction ss generalizing lead s with
  | nil =>
    rw [writeStmts]
    exact h
  | cons stmt rest ih =>
    rw [writeStmts]
    exact ih "\n" _ (notes_writeStmt d mode stmt _)

end Dialect

end Interlingua
