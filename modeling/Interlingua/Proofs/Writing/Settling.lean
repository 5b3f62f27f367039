import Interlingua.Dialect.Braces
import Interlingua.Proofs.Writing.Appending

/-!
# Statements leave the sheet as they found it

A sheet is settled if nothing is owed to the end of the line and nothing to the next body. On a settled
sheet a statement only appends text and declares variables in the innermost scope: blocks and scopes that
it opens are closed again, and the sheet is settled when it ends. The statements inside it, at any depth,
are begun on settled sheets too, so what one of them owes is written with it and never with another.
-/

namespace Interlingua

namespace Sheet

/-- Nothing is owed to the end of the line, and nothing to the next body. -/
structure Settled (s : Sheet) : Prop where
  notes : s.notes = []
  forward : s.forward = []

/-- The open blocks and scopes are the same, but for more variables declared in the innermost scope. -/
structure Onward (s t : Sheet) : Prop where
  depth : t.depth = s.depth
  inClass : t.inClass = s.inClass
  count : t.scopes.length = s.scopes.length
  outer : t.scopes.tail = s.scopes.tail
  declared : s.scopes.headD [] ⊆ t.scopes.headD []

/-- The text on a sheet is the start of the text on another. -/
def Extends (s t : Sheet) : Prop :=
  ∃ text, t.output = s.output ++ text

/-- A sheet is left as it was found and settled, with more text on it and perhaps more declared
variables. -/
structure Restored (s t : Sheet) : Prop extends Onward s t where
  settled : t.Settled
  output : Extends s t

/-- The same blocks and scopes are open, and nothing more is owed to the next body. -/
structure Resumes (s t : Sheet) : Prop extends Onward s t where
  forward : s.forward = [] → t.forward = []

theorem Onward.trans {s t u : Sheet} (h : Onward s t) (next : Onward t u) : Onward s u where
  depth := next.depth.trans h.depth
  inClass := next.inClass.trans h.inClass
  count := next.count.trans h.count
  outer := next.outer.trans h.outer
  declared := List.Subset.trans h.declared next.declared

theorem Onward.of_eq {s t : Sheet} (depth : t.depth = s.depth) (inClass : t.inClass = s.inClass)
    (scopes : t.scopes = s.scopes) : Onward s t where
  depth := depth
  inClass := inClass
  count := by rw [scopes]
  outer := by rw [scopes]
  declared := by rw [scopes]; exact List.Subset.refl _

namespace Resumes

theorem trans {s t u : Sheet} (h : Resumes s t) (next : Resumes t u) : Resumes s u where
  toOnward := h.toOnward.trans next.toOnward
  forward := next.forward ∘ h.forward

theorem of_eq {s t : Sheet} (depth : t.depth = s.depth) (inClass : t.inClass = s.inClass)
    (scopes : t.scopes = s.scopes) (forward : t.forward = s.forward) : Resumes s t where
  toOnward := .of_eq depth inClass scopes
  forward := forward.trans

theorem refl (s : Sheet) : Resumes s s :=
  .of_eq rfl rfl rfl rfl

theorem foldl {α : Type} {step : Sheet → α → Sheet} (h : ∀ s a, Resumes s (step s a)) (as : List α)
    (s : Sheet) : Resumes s (as.foldl step s) := by
  induction as generalizing s with
  | nil => exact .refl s
  | cons a as ih => exact (h s a).trans (ih _)

end Resumes

section

variable (d : Dialect) (mode : RecordMode) (s : Sheet)

theorem resumes_push (text : String) : Resumes s (s.push text) :=
  .of_eq rfl rfl rfl rfl

theorem resumes_write (pieces : List Piece) : Resumes s (s.write pieces) := by
  refine Resumes.foldl (fun s piece => ?_) pieces s
  cases piece <;> exact .of_eq rfl rfl rfl rfl

theorem resumes_flush : Resumes s s.flush :=
  .of_eq rfl rfl rfl rfl

theorem resumes_indent : Resumes s (s.indent d) :=
  .of_eq rfl rfl rfl rfl

theorem resumes_newline : Resumes s (s.newline d) :=
  .of_eq rfl rfl rfl rfl

theorem resumes_record (r : Record) : Resumes s (s.record d mode r) := by
  dsimp only [record]
  split <;> exact .of_eq rfl rfl rfl rfl

theorem resumes_declare (id : String) : Resumes s (s.declare id).2 := by
  obtain ⟨output, depth, inClass, scopes, forward, notes⟩ := s
  cases scopes with
  | nil => exact .refl _
  | cons scope outer =>
    dsimp only [declare]
    split
    · exact .refl _
    · exact ⟨⟨rfl, rfl, rfl, rfl, List.subset_cons_self _ _⟩, fun none => none⟩

theorem onward_declareAhead (a : Assign) : Onward s (s.declareAhead d a) := by
  have declared := (resumes_declare s a.target.id).toOnward
  dsimp only [declareAhead]
  split
  · exact (Resumes.refl s).toOnward
  · split
    · exact declared.trans (.of_eq rfl rfl rfl)
    · exact declared

theorem onward_declareEscaping (body : List Stmt) : Onward s (s.declareEscaping d body) := by
  unfold declareEscaping
  induction escaping body generalizing s with
  | nil => exact (Resumes.refl s).toOnward
  | cons a as ih => exact (onward_declareAhead d s a).trans (ih _)

/-- The sheet at the start of a scope. -/
def enter (inClass : Bool) (names : List String) : Sheet :=
  { s with inClass, scopes := names :: s.scopes }

/-- Writing in a scope of its own. -/
theorem Resumes.within {write : Sheet → Sheet} (h : ∀ s, Resumes s (write s)) (inClass : Bool)
    (names : List String) : Resumes s (s.within inClass names write) := by
  have inside := h (s.enter inClass names)
  -- Inside, all scopes but the one that is opened are outer ones.
  have closed : (write (s.enter inClass names)).scopes.tail = s.scopes := inside.outer
  exact .mk (.of_eq inside.depth rfl closed) inside.forward

/-- The sheet on which the statements in a block are begun. -/
def inner (header : Option Record) (isEmpty : Bool) : Sheet :=
  ((s.openBlock d mode header).fill d isEmpty).declarations d "\n"

theorem block_eq (header : Option Record) (isEmpty : Bool) (write : String → Sheet → Sheet) :
    s.block d mode header isEmpty write =
      (write "\n" (s.inner d mode header isEmpty)).closeBlock d := by
  simp only [block, body, ite_self, inner]

theorem resumes_fill (isEmpty : Bool) : Resumes s (s.fill d isEmpty) := by
  dsimp only [fill]
  split <;> exact .of_eq rfl rfl rfl rfl

theorem resumes_lines (lines : List String) :
    Resumes s (lines.foldl (fun s line => (s.newline d).push line) s) :=
  Resumes.foldl (fun s line => (resumes_newline d s).trans (resumes_push _ line)) lines s

theorem onward_declarations (lead : String) : Onward s (s.declarations d lead) := by
  dsimp only [declarations]
  split
  · exact (Resumes.refl s).toOnward
  · refine Onward.trans ?_ (resumes_lines d _ _).toOnward
    exact .of_eq rfl rfl rfl

/-- Nothing is owed to the next body any more once the declarations are written. -/
theorem forward_declarations (lead : String) : (s.declarations d lead).forward = [] := by
  cases owed : s.forward with
  | nil => simp [declarations, owed]
  | cons first rest =>
    simp only [declarations, owed]
    exact (resumes_lines d _ rest).forward rfl

theorem settled_inner (header : Option Record) (isEmpty : Bool) :
    (s.inner d mode header isEmpty).Settled where
  notes := notes_inner d mode header isEmpty "\n" s
  forward := forward_declarations d _ "\n"

/-- What is inside a block is one level deeper. -/
def deeper : Sheet :=
  { s with depth := s.depth + 1 }

theorem onward_openBlock (header : Option Record) : Onward s.deeper (s.openBlock d mode header) := by
  cases header with
  | none => exact .of_eq rfl rfl rfl
  | some r =>
    have ended (text : String) : Onward s ((s.push text).record d mode r) :=
      ((resumes_push s text).trans (resumes_record d mode _ r)).toOnward
    exact ⟨congrArg (· + 1) (ended _).depth, (ended _).inClass, (ended _).count, (ended _).outer,
      (ended _).declared⟩

theorem onward_inner (header : Option Record) (isEmpty : Bool) :
    Onward s.deeper (s.inner d mode header isEmpty) :=
  ((onward_openBlock d mode s header).trans (resumes_fill d _ isEmpty).toOnward).trans
    (onward_declarations d _ "\n")

variable {s}

theorem Onward.closeBlock {t : Sheet} (h : Onward s.deeper t) : Onward s (t.closeBlock d) := by
  have outside : Onward s { t with depth := t.depth - 1 } :=
    ⟨congrArg (· - 1) h.depth, h.inClass, h.count, h.outer, h.declared⟩
  dsimp only [Sheet.closeBlock]
  split
  · exact outside.trans ((resumes_newline d _).trans (resumes_push _ _)).toOnward
  · exact outside

theorem forward_closeBlock (t : Sheet) : (t.closeBlock d).forward = t.forward := by
  dsimp only [closeBlock]
  split <;> rfl

/-- Nothing is owed to the next body after a block, whatever was before. -/
theorem forward_block {write : String → Sheet → Sheet} (h : ∀ lead s, Resumes s (write lead s))
    (header : Option Record) (isEmpty : Bool) (t : Sheet) :
    (t.block d mode header isEmpty write).forward = [] := by
  rw [block_eq, forward_closeBlock]
  exact (h "\n" _).forward (settled_inner d mode t header isEmpty).forward

theorem Resumes.block {write : String → Sheet → Sheet} (h : ∀ lead s, Resumes s (write lead s))
    (header : Option Record) (isEmpty : Bool) {t : Sheet} (before : Onward s t) :
    Resumes s (t.block d mode header isEmpty write) := by
  refine .mk ?_ fun _ => forward_block d mode h header isEmpty t
  have whole := (onward_inner d mode t header isEmpty).trans (h "\n" _).toOnward
  rw [block_eq]
  exact before.trans (whole.closeBlock d)

end

end Sheet

namespace Dialect

open Sheet

variable (d : Dialect) (mode : RecordMode)

theorem resumes_writeAssign (a : Assign) (s : Sheet) : Resumes s (writeAssign d mode a s) := by
  dsimp only [writeAssign]
  cases d.bodies with
  | expression =>
    exact ((resumes_push s _).trans (resumes_write _ _)).trans (resumes_record d mode _ _)
  | statements =>
    have known : Resumes s (if s.inClass then (true, s) else s.declare a.target.id).2 := by
      split
      · exact .refl s
      · exact resumes_declare s a.target.id
    exact (((known.trans (resumes_push _ _)).trans (resumes_write _ _)).trans
      (resumes_push _ _)).trans (resumes_record d mode _ _)

theorem resumes_openCond (test : Expr) (s : Sheet) : Resumes s (openCond d test s) := by
  unfold openCond
  cases d.blocks with
  | braces => exact ((resumes_push s _).trans (resumes_write _ _)).trans (resumes_push _ _)
  | indented => exact (resumes_push s _).trans (resumes_write _ _)

theorem resumes_openElseIf (s : Sheet) : Resumes s (openElseIf d s) := by
  unfold openElseIf
  cases d.blocks with
  | braces => exact resumes_push s _
  | indented => exact (resumes_newline d s).trans (resumes_push _ _)

theorem resumes_openElse (s : Sheet) : Resumes s (openElse d s) := by
  unfold openElse
  cases d.blocks with
  | braces => exact resumes_push s _
  | indented => exact (resumes_newline d s).trans (resumes_push _ _)

theorem resumes_writeReturn (value : Option Expr) (s : Sheet) : Resumes s (writeReturn d value s) := by
  cases value with
  | none => exact (resumes_push s _).trans (resumes_push _ _)
  | some e =>
    exact (((resumes_push s _).trans (resumes_push _ _)).trans (resumes_write _ _)).trans
      (resumes_push _ _)

theorem resumes_writeOrelse {orelse : List Stmt}
    (one : ∀ alternative, orelse = [alternative] → ∀ s, Resumes s (writeStmt d mode alternative s))
    (all : ∀ lead s, Resumes s (writeStmts d mode lead orelse s)) (s : Sheet) :
    Resumes s (writeOrelse d mode orelse s) := by
  match orelse with
  | [] => exact resumes_flush s
  | [alternative] =>
    have next := one alternative rfl
    by_cases chained : alternative.isCond
    · simp only [writeOrelse, if_pos chained]
      exact ((resumes_openElseIf d s).trans (next _)).trans (resumes_flush _)
    · simp only [writeOrelse, if_neg chained]
      have line (lead : String) (s : Sheet) :=
        ((resumes_push s lead).trans (resumes_indent d _)).trans (next _)
      exact (Resumes.block d mode line none false (resumes_openElse d s).toOnward).trans
        (resumes_flush _)
  | first :: second :: rest =>
    exact (Resumes.block d mode all none false (resumes_openElse d s).toOnward).trans (resumes_flush _)

mutual

theorem resumes_writeStmt (stmt : Stmt) (s : Sheet) : Resumes s (writeStmt d mode stmt s) :=
  match stmt with
  | .expr value => by
    rw [writeStmt]
    exact ((resumes_write s _).trans (resumes_push _ _)).trans (resumes_flush _)
  | .print value => by
    rw [writeStmt]
    exact ((resumes_write s _).trans (resumes_push _ _)).trans (resumes_flush _)
  | .assign a => by
    rw [writeStmt]
    exact (resumes_writeAssign d mode a s).trans (resumes_flush _)
  | .call callee args => by
    rw [writeStmt]
    exact ((resumes_write s _).trans (resumes_push _ _)).trans (resumes_flush _)
  | .ret value => by
    rw [writeStmt]
    exact (resumes_writeReturn d value s).trans (resumes_flush _)
  | .unknown description => by
    rw [writeStmt]
    exact (resumes_push s _).trans (resumes_flush _)
  | .function f body => by
    simp only [writeStmt]
    cases d.bodies with
    | expression =>
      exact (((resumes_push s _).trans (resumes_write _ _)).trans (resumes_record d mode _ _)).trans
        (resumes_flush _)
    | statements =>
      have block (s : Sheet) := Resumes.block d mode (fun lead => resumes_writeStmts lead body)
        (some (Record.ofSignature f)) body.isEmpty (onward_declareEscaping d s body)
      exact ((resumes_push s _).trans (Resumes.within _ block false f.paramNames)).trans
        (resumes_flush _)
  | .classDef name bases body => by
    have inner (lead : String) := resumes_writeStmts lead body
    simp only [writeStmt]
    cases d.bodies with
    | expression =>
      exact ((resumes_push s _).trans (Resumes.within _ (inner "\n") true [])).trans (resumes_flush _)
    | statements =>
      have block (s : Sheet) := Resumes.block d mode inner none body.isEmpty (Resumes.refl s).toOnward
      exact ((resumes_push s _).trans (Resumes.within _ block true [])).trans (resumes_flush _)
  | .cond test body orelse => by
    cases style : d.bodies with
    | expression =>
      simp only [writeStmt, style]
      exact (resumes_write s _).trans (resumes_flush _)
    | statements =>
      have one : ∀ alternative, orelse = [alternative] →
          ∀ s, Resumes s (writeStmt d mode alternative s) := by
        cases orelse with
        | nil => nofun
        | cons alternative rest =>
          rintro _ ⟨⟩
          exact resumes_writeStmt alternative
      have first := Resumes.block d mode (fun lead => resumes_writeStmts lead body) none body.isEmpty
        (resumes_openCond d test s).toOnward
      have others := resumes_writeOrelse d mode one fun lead => resumes_writeStmts lead orelse
      rw [writeStmt_cond d mode style]
      exact first.trans (others _)

theorem resumes_writeStmts (lead : String) (ss : List Stmt) (s : Sheet) :
    Resumes s (writeStmts d mode lead ss s) :=
  match ss with
  | [] => by
    rw [writeStmts]
    exact .refl s
  | stmt :: rest => by
    rw [writeStmts]
    exact (((resumes_push s lead).trans (resumes_indent d _)).trans (resumes_writeStmt stmt _)).trans
      (resumes_writeStmts "\n" rest _)

end

theorem settled_writeStmt (stmt : Stmt) {s : Sheet} (h : s.Settled) :
    (writeStmt d mode stmt s).Settled :=
  ⟨notes_writeStmt d mode stmt s, (resumes_writeStmt d mode stmt s).forward h.forward⟩

end Dialect

/-! The statements inside a statement, and the sheets they are begun on. -/

namespace Stmt

mutual

/-- The statements inside a statement, at any depth, that are written as statements. Where bodies are
expressions, only those in classes are. -/
def parts (bodies : BodyStyle) : Stmt → List Stmt
  | function _ body => if bodies = .statements then partsAll bodies body else []
  | classDef _ _ body => partsAll bodies body
  | cond _ body orelse =>
    if bodies = .statements then partsAll bodies body ++ partsAll bodies orelse else []
  | _ => []

def partsAll (bodies : BodyStyle) : List Stmt → List Stmt
  | [] => []
  | s :: ss => s :: parts bodies s ++ partsAll bodies ss

end

end Stmt

namespace Sheet

theorem appends_enter (inClass : Bool) (names : List String) :
    Appends fun s => s.enter inClass names :=
  fun _ _ => rfl

theorem appends_inner (d : Dialect) (mode : RecordMode) (header : Option Record) (isEmpty : Bool) :
    Appends fun s => s.inner d mode header isEmpty :=
  (appends_declarations d "\n").comp ((appends_fill d isEmpty).comp (appends_openBlock d mode header))

theorem Extends.refl (s : Sheet) : Extends s s :=
  ⟨"", String.append_empty.symm⟩

theorem Extends.trans {s t u : Sheet} (h : Extends s t) (next : Extends t u) : Extends s u := by
  obtain ⟨text, same⟩ := h
  obtain ⟨more, last⟩ := next
  exact ⟨text ++ more, by rw [last, same, String.append_assoc]⟩

theorem Appends.extends {write : Sheet → Sheet} (h : Appends write) (s : Sheet) : Extends s (write s) := by
  refine ⟨(write { s with output := "" }).output, ?_⟩
  have same := h s.output { s with output := "" }
  have whole : ({ s with output := "" } : Sheet).prepend s.output = s := by simp [prepend]
  rw [whole] at same
  rw [same]
  rfl

theorem extends_block (d : Dialect) (mode : RecordMode) (header : Option Record) (isEmpty : Bool)
    (write : String → Sheet → Sheet) (s : Sheet) :
    Extends (write "\n" (s.inner d mode header isEmpty)) (s.block d mode header isEmpty write) := by
  rw [block_eq]
  exact (appends_closeBlock d).extends _

theorem extends_within (write : Sheet → Sheet) (inClass : Bool) (names : List String) (s : Sheet) :
    Extends (write (s.enter inClass names)) (s.within inClass names write) :=
  .refl (write (s.enter inClass names))

/-- What is written in a block in a scope of its own stays when both are closed. -/
theorem extends_scope (d : Dialect) (mode : RecordMode) (header : Option Record) (isEmpty : Bool)
    (write : String → Sheet → Sheet) (first : Sheet → Sheet) (inClass : Bool) (names : List String)
    (s : Sheet) :
    Extends (write "\n" ((first (s.enter inClass names)).inner d mode header isEmpty))
      (s.within inClass names fun s => (first s).block d mode header isEmpty write).flush :=
  ((extends_block d mode header isEmpty write _).trans
    (extends_within (fun s => (first s).block d mode header isEmpty write) inClass names s)).trans
      (appends_flush.extends _)

end Sheet

namespace Dialect

open Sheet

variable (d : Dialect) (mode : RecordMode)

mutual

/-- The statements inside a statement that are written as statements, each with the sheet it is begun
on. -/
def begun : Stmt → Sheet → List (Stmt × Sheet)
  | .function f body, s =>
    match d.bodies with
    | .expression => []
    | .statements =>
      begunAll body ((((s.push (d.functionHeader f s.inClass)).enter false f.paramNames).declareEscaping
        d body).inner d mode (some (Record.ofSignature f)) body.isEmpty)
  | .classDef name bases body, s =>
    match d.bodies with
    | .expression => begunAll body ((s.push ("data " ++ name ++ " = " ++ name)).enter true [])
    | .statements =>
      begunAll body (((s.push (d.classHeader name (bases.map fun base =>
        Piece.text (exprPieces d base)))).enter true []).inner d mode none body.isEmpty)
  | .cond test body orelse, s =>
    match d.bodies with
    | .expression => []
    | .statements =>
      let next := (openCond d test s).block d mode none body.isEmpty fun lead s =>
        writeStmts d mode lead body s
      begunAll body ((openCond d test s).inner d mode none body.isEmpty) ++
        match orelse with
        | [] => []
        | [alternative] =>
          if alternative.isCond then
            (alternative, openElseIf d next) :: begun alternative (openElseIf d next)
          else begunAll [alternative] ((openElse d next).inner d mode none false)
        | first :: second :: rest =>
          begunAll (first :: second :: rest) ((openElse d next).inner d mode none false)
  | _, _ => []

def begunAll : List Stmt → Sheet → List (Stmt × Sheet)
  | [], _ => []
  | stmt :: rest, s =>
    let start := (s.push "\n").indent d
    (stmt, start) :: begun stmt start ++ begunAll rest (writeStmt d mode stmt start)

end

/-- The statements in the other branches of a conditional. -/
def begunOrelse (orelse : List Stmt) (s : Sheet) : List (Stmt × Sheet) :=
  match orelse with
  | [] => []
  | [alternative] =>
    if alternative.isCond then (alternative, openElseIf d s) :: begun d mode alternative (openElseIf d s)
    else begunAll d mode [alternative] ((openElse d s).inner d mode none false)
  | first :: second :: rest =>
    begunAll d mode (first :: second :: rest) ((openElse d s).inner d mode none false)

theorem begun_cond (statements : d.bodies = .statements) (test : Expr) (body orelse : List Stmt)
    (s : Sheet) :
    begun d mode (.cond test body orelse) s =
      begunAll d mode body ((openCond d test s).inner d mode none body.isEmpty) ++
        begunOrelse d mode orelse ((openCond d test s).block d mode none body.isEmpty
          fun lead s => writeStmts d mode lead body s) := by
  rw [begun]
  simp only [statements]
  rfl

theorem map_fst_begunOrelse {orelse : List Stmt}
    (one : ∀ alternative, orelse = [alternative] →
      ∀ s, (begun d mode alternative s).map Prod.fst = alternative.parts d.bodies)
    (all : ∀ s, (begunAll d mode orelse s).map Prod.fst = Stmt.partsAll d.bodies orelse) (s : Sheet) :
    (begunOrelse d mode orelse s).map Prod.fst = Stmt.partsAll d.bodies orelse := by
  match orelse with
  | [] => rfl
  | [alternative] =>
    by_cases chained : alternative.isCond
    · simp [begunOrelse, chained, Stmt.partsAll, one alternative rfl]
    · simp only [begunOrelse, if_neg chained, all]
  | first :: second :: rest => exact all _

mutual

/-- All statements that are written as statements are there, in the order of the program. -/
theorem map_fst_begun (stmt : Stmt) (s : Sheet) :
    (begun d mode stmt s).map Prod.fst = stmt.parts d.bodies :=
  match stmt with
  | .function f body => by
    rw [begun, Stmt.parts]
    cases style : d.bodies with
    | expression => rfl
    | statements => exact (map_fst_begunAll body _).trans (by rw [style, if_pos rfl])
  | .classDef name bases body => by
    rw [begun, Stmt.parts]
    split <;> exact map_fst_begunAll body _
  | .cond test body orelse => by
    cases style : d.bodies with
    | expression =>
      rw [begun, Stmt.parts, style]
      rfl
    | statements =>
      have one : ∀ alternative, orelse = [alternative] →
          ∀ s, (begun d mode alternative s).map Prod.fst = alternative.parts d.bodies := by
        cases orelse with
        | nil => nofun
        | cons alternative rest =>
          rintro _ ⟨⟩
          exact map_fst_begun alternative
      have others := map_fst_begunOrelse d mode one (map_fst_begunAll orelse)
      rw [begun_cond d mode style, List.map_append, map_fst_begunAll body, others, Stmt.parts,
        if_pos rfl, style]
  | .expr _ | .print _ | .assign _ | .call _ _ | .ret _ | .unknown _ => rfl

theorem map_fst_begunAll (ss : List Stmt) (s : Sheet) :
    (begunAll d mode ss s).map Prod.fst = Stmt.partsAll d.bodies ss :=
  match ss with
  | [] => rfl
  | stmt :: rest => by
    rw [begunAll, Stmt.partsAll, List.map_append, List.map_cons, map_fst_begun stmt,
      map_fst_begunAll rest]

end

/-- A statement is begun on a settled sheet, behind the text of a first sheet, and what it writes stands
on a last sheet. -/
structure Embedded (first last : Sheet) (entry : Stmt × Sheet) : Prop where
  settled : entry.2.Settled
  behind : Extends first entry.2
  kept : Extends (writeStmt d mode entry.1 entry.2) last

variable {d mode}

theorem Embedded.widen {first last first' last' : Sheet} {entry : Stmt × Sheet}
    (h : Embedded d mode first last entry) (front : Extends first' first) (back : Extends last last') :
    Embedded d mode first' last' entry :=
  ⟨h.settled, front.trans h.behind, h.kept.trans back⟩

variable (d mode)

theorem settled_openElseIf {s : Sheet} (h : s.Settled) : (openElseIf d s).Settled := by
  unfold openElseIf
  cases d.blocks <;> exact ⟨h.notes, h.forward⟩

theorem embedded_begunOrelse {orelse : List Stmt}
    (one : ∀ alternative, orelse = [alternative] → ∀ s : Sheet, s.Settled →
      ∀ entry ∈ begun d mode alternative s,
        Embedded d mode s (writeStmt d mode alternative s) entry)
    (all : ∀ s : Sheet, s.Settled → ∀ entry ∈ begunAll d mode orelse s,
      Embedded d mode s (writeStmts d mode "\n" orelse s) entry)
    {s : Sheet} (h : s.Settled) :
    ∀ entry ∈ begunOrelse d mode orelse s, Embedded d mode s (writeOrelse d mode orelse s) entry := by
  -- A conditional as the only alternative continues the line, all else is in a block of its own.
  have opened := ((appends_inner d mode none false).comp (appends_openElse d)).extends s
  have inside := all _ (settled_inner d mode (openElse d s) none false)
  match orelse with
  | [] => exact List.forall_mem_nil _
  | [alternative] =>
    by_cases chained : alternative.isCond
    · have front := (appends_openElseIf d).extends s
      have back := appends_flush.extends (writeStmt d mode alternative (openElseIf d s))
      simp only [begunOrelse, writeOrelse, if_pos chained]
      refine List.forall_mem_cons.2 ⟨⟨settled_openElseIf d h, front, back⟩, fun entry mem => ?_⟩
      exact (one alternative rfl _ (settled_openElseIf d h) entry mem).widen front back
    · have line := extends_block d mode none false
        (fun lead s => writeStmt d mode alternative ((s.push lead).indent d)) (openElse d s)
      simp only [begunOrelse, writeOrelse, if_neg chained]
      intro entry mem
      have own := inside entry mem
      rw [writeStmts, writeStmts] at own
      exact own.widen opened (line.trans (appends_flush.extends _))
  | first :: second :: rest =>
    have lines := extends_block d mode none false
      (fun lead s => writeStmts d mode lead (first :: second :: rest) s) (openElse d s)
    exact fun entry mem => (inside entry mem).widen opened (lines.trans (appends_flush.extends _))

mutual

theorem embedded_begun (stmt : Stmt) (s : Sheet) (h : s.Settled) :
    ∀ entry ∈ begun d mode stmt s, Embedded d mode s (writeStmt d mode stmt s) entry :=
  match stmt with
  | .function f body => by
    rw [begun, writeStmt]
    cases d.bodies with
    | expression => exact List.forall_mem_nil _
    | statements =>
      have front := ((appends_inner d mode (some (Record.ofSignature f)) body.isEmpty).comp
        ((appends_declareEscaping d body).comp ((appends_enter false f.paramNames).comp
          (appends_push (d.functionHeader f s.inClass))))).extends s
      have back := extends_scope d mode (some (Record.ofSignature f)) body.isEmpty
        (fun lead s => writeStmts d mode lead body s) (declareEscaping d body) false f.paramNames
        (s.push (d.functionHeader f s.inClass))
      intro entry mem
      exact (embedded_begunAll body _ (settled_inner d mode _ _ _) entry mem).widen front back
  | .classDef name bases body => by
    rw [begun, writeStmt]
    cases d.bodies with
    | expression =>
      have front := ((appends_enter true []).comp
        (appends_push ("data " ++ name ++ " = " ++ name))).extends s
      have scope := extends_within (fun s => writeStmts d mode "\n" body s) true []
        (s.push ("data " ++ name ++ " = " ++ name))
      have start : ((s.push ("data " ++ name ++ " = " ++ name)).enter true []).Settled :=
        ⟨h.notes, h.forward⟩
      intro entry mem
      exact (embedded_begunAll body _ start entry mem).widen front
        (scope.trans (appends_flush.extends _))
    | statements =>
      have front := ((appends_inner d mode none body.isEmpty).comp ((appends_enter true []).comp
        (appends_push (d.classHeader name (bases.map fun base =>
          Piece.text (exprPieces d base)))))).extends s
      have back := extends_scope d mode none body.isEmpty
        (fun lead s => writeStmts d mode lead body s) (fun s => s) true []
        (s.push (d.classHeader name (bases.map fun base => Piece.text (exprPieces d base))))
      intro entry mem
      exact (embedded_begunAll body _ (settled_inner d mode _ _ _) entry mem).widen front back
  | .cond test body orelse => by
    cases style : d.bodies with
    | expression =>
      rw [begun, style]
      exact List.forall_mem_nil _
    | statements =>
      have one : ∀ alternative, orelse = [alternative] → ∀ s : Sheet, s.Settled →
          ∀ entry ∈ begun d mode alternative s,
            Embedded d mode s (writeStmt d mode alternative s) entry := by
        cases orelse with
        | nil => nofun
        | cons alternative rest =>
          rintro _ ⟨⟩
          exact embedded_begun alternative
      have front := ((appends_inner d mode none body.isEmpty).comp (appends_openCond d test)).extends s
      have block := extends_block d mode none body.isEmpty (fun lead s => writeStmts d mode lead body s)
        (openCond d test s)
      have inside := embedded_begunAll body _ (settled_inner d mode (openCond d test s) none body.isEmpty)
      -- The other branches are begun where the first block has been closed.
      have next : ((openCond d test s).block d mode none body.isEmpty
          fun lead s => writeStmts d mode lead body s).Settled :=
        ⟨notes_block d mode (fun lead => notes_writeStmts d mode lead body) none body.isEmpty _,
          forward_block d mode (fun lead => resumes_writeStmts d mode lead body) none body.isEmpty _⟩
      have others := embedded_begunOrelse d mode one (embedded_begunAll orelse) next
      have before := ((Appends.block d mode (fun lead => appends_writeStmts d mode lead body) none
        body.isEmpty).comp (appends_openCond d test)).extends s
      have behind := (appends_writeOrelse d mode orelse).extends ((openCond d test s).block d mode none
        body.isEmpty fun lead s => writeStmts d mode lead body s)
      rw [begun_cond d mode style, writeStmt_cond d mode style]
      refine List.forall_mem_append.2 ⟨fun entry mem => ?_, fun entry mem => ?_⟩
      · exact (inside entry mem).widen front (block.trans behind)
      · exact (others entry mem).widen before (.refl _)
  | .expr _ | .print _ | .assign _ | .call _ _ | .ret _ | .unknown _ => List.forall_mem_nil _

theorem embedded_begunAll (ss : List Stmt) (s : Sheet) (h : s.Settled) :
    ∀ entry ∈ begunAll d mode ss s, Embedded d mode s (writeStmts d mode "\n" ss s) entry :=
  match ss with
  | [] => List.forall_mem_nil _
  | stmt :: rest => by
    have front := ((appends_indent d).comp (appends_push "\n")).extends s
    have back := (appends_writeStmts d mode "\n" rest).extends
      (writeStmt d mode stmt ((s.push "\n").indent d))
    have own := (appends_writeStmt d mode stmt).extends ((s.push "\n").indent d)
    have start : ((s.push "\n").indent d).Settled := ⟨h.notes, h.forward⟩
    have finish := settled_writeStmt d mode stmt start
    rw [begunAll, writeStmts]
    refine List.forall_mem_append.2 ⟨List.forall_mem_cons.2 ⟨⟨start, front, back⟩, ?_⟩, ?_⟩
    · exact fun entry mem => (embedded_begun stmt _ start entry mem).widen front back
    · intro entry mem
      exact (embedded_begunAll rest _ finish entry mem).widen (front.trans own) (.refl _)

end

theorem restored_of_settled (stmt : Stmt) {s : Sheet} (h : s.Settled) :
    Restored s (writeStmt d mode stmt s) where
  toOnward := (resumes_writeStmt d mode stmt s).toOnward
  settled := settled_writeStmt d mode stmt h
  output := (appends_writeStmt d mode stmt).extends s

/-- In every dialect a statement leaves a settled sheet as it found it, with more text on it. So does
every statement inside it, at any depth: each is begun on a settled sheet, with the text before it there,
and what it writes is part of the whole. -/
theorem writeStmt_restores (stmt : Stmt) {s : Sheet} (h : s.Settled) :
    Restored s (writeStmt d mode stmt s) ∧
      (begun d mode stmt s).map Prod.fst = stmt.parts d.bodies ∧
      ∀ part t, (part, t) ∈ begun d mode stmt s →
        t.Settled ∧ Restored t (writeStmt d mode part t) ∧ Extends s t ∧
          Extends (writeStmt d mode part t) (writeStmt d mode stmt s) := by
  refine ⟨restored_of_settled d mode stmt h, map_fst_begun d mode stmt s, fun part t mem => ?_⟩
  obtain ⟨settled, behind, kept⟩ := embedded_begun d mode stmt s h (part, t) mem
  exact ⟨settled, restored_of_settled d mode part settled, behind, kept⟩

/-- A method with an unknown condition and a variable that escapes a branch. -/
def escapingMethod : Stmt :=
  .function { name := "m", params := [] }
    [.cond (.unknown "ready\n?") [.assign (.store "x" (.lit (.int 1)))] [], .print (.load "x")]

/-- A sheet in the body of a class. -/
def classPage : Sheet where
  output := "class C \x7b\n    "
  depth := 1
  inClass := true
  scopes := [[], ["y"]]

theorem writeStmt_restores_method :
    classPage.Settled ∧
      (writeStmt javascript .inline escapingMethod classPage).output =
        "class C \x7b\n    m() \x7b\n        let x;\n        if (/* unknown: ready ? */ null) \x7b\n" ++
        "            x = 1;\n        \x7d\n        console.log(x);\n    \x7d" ∧
      (begun javascript .inline escapingMethod classPage).length = 3 ∧
      Restored classPage (writeStmt javascript .inline escapingMethod classPage) ∧
      (begun javascript .inline escapingMethod classPage).map Prod.fst =
        escapingMethod.parts javascript.bodies ∧
      ∀ part t, (part, t) ∈ begun javascript .inline escapingMethod classPage →
        t.Settled ∧ Restored t (writeStmt javascript .inline part t) ∧ Extends classPage t ∧
          Extends (writeStmt javascript .inline part t)
            (writeStmt javascript .inline escapingMethod classPage) :=
  ⟨⟨rfl, rfl⟩, by decide +kernel, by decide +kernel,
    writeStmt_restores javascript .inline escapingMethod ⟨rfl, rfl⟩⟩

end Dialect

end Interlingua
