import Interlingua.Proofs.Syntax.Clause
import Interlingua.Proofs.Writing.Pages

/-!
# The lines that are written

The text of a modelled program is that of the lines of its clauses, whatever the mode. The text of a
statement starts on a line that is indented already, and those of its clause are compared with it
from there on.
-/

namespace Interlingua

open Dialect

namespace Untyped

variable (u : Untyped)

theorem unit : u.dialect.unit = "    " := by
  cases u <;> rfl

theorem bodies : u.dialect.bodies = .statements := by
  cases u <;> rfl

theorem terminator_eq : u.dialect.terminator.toList = u.terminator := by
  cases u <;> rfl

theorem embedsRecords : u.dialect.embedsRecords = true := by
  cases u <;> rfl

end Untyped

namespace Line

variable (u : Untyped) (mode : RecordMode)

/-- Lines that follow another. -/
def after (ls : List Line) : List Char :=
  ls.flatMap fun l => '\n' :: l.shown u.mark mode

/-- Lines of which the first is already indented. -/
def opened : List Line → List Char
  | [] => []
  | l :: ls => l.text ++ comment u.mark mode l.record ++ after u mode ls

@[simp] theorem after_append (ls ms : List Line) :
    after u mode (ls ++ ms) = after u mode ls ++ after u mode ms := by
  simp [after]

theorem after_eq_opened {ls : List Line} {depth : Nat}
    (starts : ls.head?.map Line.depth = some depth) :
    after u mode ls = '\n' :: List.replicate (4 * depth) ' ' ++ opened u mode ls := by
  cases ls with
  | nil => cases starts
  | cons l ls =>
    simp only [List.head?_cons, Option.map_some, Option.some.injEq] at starts
    simp [after, opened, shown, plain, starts]

theorem after_cons_eq_joinLines (l : Line) (ls : List Line) :
    after u mode (l :: ls) = '\n' :: Text.joinLines ((l :: ls).map (shown u.mark mode)) := by
  induction ls generalizing l with
  | nil => simp [after, Text.joinLines]
  | cons m ls ih =>
    have next := ih m
    rw [Text.joinLines] at next ⊢
    rw [List.map_cons, List.map_cons, List.intercalate_cons_cons, ← List.map_cons]
    simp_all [after]

end Line

/-- Pieces that spell a text owe nothing. -/
theorem Spells.notes_eq {pieces : List Piece} {text : List Char} (h : Spells pieces text) :
    Piece.notes pieces = [] := by
  have written := h.write_eq {}
  rw [Sheet.write_eq] at written
  exact congrArg Sheet.notes written

theorem Spells.lineText_eq {pieces : List Piece} {text : List Char} (h : Spells pieces text)
    (front back : String) :
    (Piece.lineText front pieces back).toList = front.toList ++ text ++ back.toList := by
  simp [Piece.lineText, Piece.trailing, h.notes_eq, h.text_eq]

namespace Untyped

variable (u : Untyped) (mode : RecordMode) (depth : Nat) (inClass : Bool) (declared : List String)

/-! The parts of a text. -/

theorem indentation_eq :
    (u.dialect.indentation depth).toList = List.replicate (4 * depth) ' ' := by
  rw [indentation, u.unit, String.toList_join]
  induction depth with
  | zero => rfl
  | succ n ih =>
    rw [List.replicate_succ, List.flatMap_cons, ih, Nat.mul_succ, Nat.add_comm,
      ← List.replicate_append_replicate]
    rfl

/-- A text on a line of its own. -/
theorem newline_eq (text : String) :
    ("\n" ++ u.dialect.indentation depth ++ text).toList =
      '\n' :: List.replicate (4 * depth) ' ' ++ text.toList := by
  simp [u.indentation_eq]

theorem recordText_eq (r : Record) :
    (u.dialect.recordText mode r).toList = Line.comment u.mark mode (some r) := by
  cases mode with
  | sidecar => simp [recordText, Line.comment]
  | inline =>
    by_cases empty : r.isEmpty <;> simp [recordText, Line.comment, empty, u.embedsRecords, mark]

theorem opener_eq : u.dialect.opener.toList = u.opener := by
  cases u <;> rfl

theorem closer_eq : (u.dialect.closer depth).toList = Line.after u mode (u.closing depth) := by
  cases u with
  | python => rfl
  | javascript =>
    refine (newline_eq .javascript depth "\x7d").trans ?_
    simp [closing, Line.after, Line.shown, Line.plain]

theorem testText_eq {test : Expr} (h : test.every Expr.isModelled = true) :
    (u.dialect.testText test).toList = "if ".toList ++ u.tested (u.phrase test) := by
  have written := (u.spells_phrase test h).text_eq
  cases u with
  | python =>
    change ("if " ++ Piece.text _).toList = _
    simp [written, tested]
  | javascript =>
    change ("if (" ++ Piece.text _ ++ ")").toList = _
    simp [written, tested]

/-- Another branch starts on a line of its own, or on that of the closing brace. -/
theorem elseIfText_eq : (u.dialect.closer depth).toList ++ (u.dialect.elseIfText depth).toList =
    '\n' :: List.replicate (4 * depth) ' ' ++ u.elseIf.toList := by
  cases u with
  | python => exact newline_eq .python depth "el"
  | javascript =>
    refine (congrArg (· ++ " else ".toList) (newline_eq .javascript depth "\x7d")).trans ?_
    simp [elseIf]

theorem elseText_eq : (u.dialect.closer depth).toList ++ (u.dialect.elseText depth).toList =
    '\n' :: List.replicate (4 * depth) ' ' ++ u.orElse.toList := by
  cases u with
  | python => exact newline_eq .python depth "else"
  | javascript =>
    refine (congrArg (· ++ " else".toList) (newline_eq .javascript depth "\x7d")).trans ?_
    simp [orElse]

theorem functionHeader_eq (f : Signature) :
    (u.dialect.functionHeader f inClass).toList = (u.functionWord inClass).toList ++ f.name.toList ++
      '(' :: commas ((u.paramNames inClass f).map String.toList) ++ [')'] := by
  cases u with
  | python =>
    change (Python.functionHeader f inClass).toList = _
    cases inClass <;> simp [Python.functionHeader, functionWord, paramNames, commas]
  | javascript =>
    change ((if inClass then "" else "function ") ++ f.name ++ "(" ++ ", ".intercalate f.paramNames
      ++ ")").toList = _
    cases inClass <;> simp [functionWord, paramNames, commas]

theorem classHeader_eq (name : String) (bases : List Expr)
    (h : Expr.everyAll Expr.isModelled bases = true) :
    (u.dialect.classHeader name (bases.map fun base => Piece.text (exprPieces u.dialect base))).toList =
      "class ".toList ++ name.toList ++ u.heritage (Phrase.texts u (u.phrases bases)) := by
  have texts : (bases.map fun base => Piece.text (exprPieces u.dialect base)) =
      (Phrase.texts u (u.phrases bases)).map String.ofList := by
    rw [Phrase.texts_eq_map, phrases_eq_map, List.map_map, List.map_map]
    exact List.map_congr_left fun base mem =>
      (u.spells_phrase base ((Expr.everyAll_iff _ _).1 h base mem)).text_eq
  rw [texts]
  cases u with
  | python =>
    change (Python.classHeader name _).toList = _
    cases Phrase.texts .python (phrases .python bases) <;> simp [Python.classHeader, heritage, commas]
  | javascript =>
    change ("class " ++ name ++ (List.head? _ |>.map (" extends " ++ ·)).getD "").toList = _
    cases Phrase.texts .javascript (phrases .javascript bases) <;> simp [heritage]

end Untyped

namespace Line

variable {u : Untyped} {mode : RecordMode} {depth : Nat}

/-- The lines of a block. One without lines has what fills it. -/
def filled (u : Untyped) (depth : Nat) (ls : List Line) : List Line :=
  match u, ls with
  | .python, [] => [{ depth, text := "pass".toList }]
  | _, ls => ls

theorem filled_cons (u : Untyped) (depth : Nat) (l : Line) (ls : List Line) :
    filled u depth (l :: ls) = l :: ls := by
  cases u <;> rfl

/-- Texts that are, on lines of their own, the texts of some lines. -/
def Tells (u : Untyped) (mode : RecordMode) (depth : Nat) (texts : List String) (ls : List Line) :
    Prop :=
  (u.dialect.linesText depth texts).toList = after u mode ls

namespace Tells

theorem nil : Tells u mode depth [] [] :=
  rfl

/-- The text of some lines in front of others. -/
theorem cons {text : String} {texts : List String} {ls ms : List Line}
    (starts : ls.head?.map Line.depth = some depth) (first : text.toList = opened u mode ls)
    (rest : Tells u mode depth texts ms) : Tells u mode depth (text :: texts) (ls ++ ms) := by
  rw [Tells, after_append, after_eq_opened u mode starts, linesText_cons, ← rest]
  simp [u.indentation_eq, first]

theorem append {texts more : List String} {ls ms : List Line} (h : Tells u mode depth texts ls)
    (rest : Tells u mode depth more ms) : Tells u mode depth (texts ++ more) (ls ++ ms) := by
  rw [Tells, after_append, linesText_append, ← h, ← rest, String.toList_append]

theorem isEmpty_eq {texts : List String} {ls : List Line} (h : Tells u mode depth texts ls) :
    texts.isEmpty = ls.isEmpty := by
  cases texts <;> cases ls <;> simp_all [Tells, linesText, after]

/-- A block of texts that are those of some lines. -/
theorem nested {texts : List String} {ls : List Line} (h : Tells u mode (depth + 1) texts ls)
    (ending : String) :
    (u.dialect.nestedText depth ending texts).toList =
      u.opener ++ ending.toList ++ after u mode (filled u (depth + 1) ls)
        ++ (u.dialect.closer depth).toList := by
  have lines : (u.dialect.linesText (depth + 1) (if texts.isEmpty then u.dialect.filler.toList
      else texts)).toList = after u mode (filled u (depth + 1) ls) := by
    rw [h.isEmpty_eq]
    cases ls with
    | cons l ls =>
      rw [filled_cons]
      exact h
    | nil =>
      cases u with
      | javascript => rfl
      | python =>
        have filler : "pass".toList =
            opened .python mode [{ depth := depth + 1, text := "pass".toList }] := by
          simp [opened, after]
        exact cons rfl filler nil
  simp only [nestedText, String.toList_append, u.opener_eq, lines]

/-- Texts that are those of some lines make up the text of the lines. -/
theorem intercalate_eq {texts : List String} {ls : List Line} (h : Tells u mode 0 texts ls) :
    ("\n".intercalate texts).toList = Text.joinLines (ls.map (shown u.mark mode)) := by
  have none := h.isEmpty_eq
  cases texts with
  | nil =>
    cases ls with
    | nil => rfl
    | cons l ls => cases none
  | cons text texts =>
    cases ls with
    | nil => cases none
    | cons l ls =>
      have led : u.dialect.linesText 0 (text :: texts) =
          "\n" ++ u.dialect.ledText "" 0 (text :: texts) := by
        simp [linesText_cons, ledText, String.append_assoc]
      rw [Tells, after_cons_eq_joinLines, led, ledText_empty, String.toList_append] at h
      exact (List.cons.inj h).2

end Tells

end Line

namespace Untyped

variable (u : Untyped) (mode : RecordMode) (depth : Nat) (inClass : Bool) (declared : List String)

theorem head_lines (c : Clause) : (c.lines u depth).head?.map Line.depth = some depth := by
  cases c with
  | ret value => cases value <;> rfl
  | _ => rfl

theorem filled_linesAll_cons (c : Clause) (cs : List Clause) :
    Line.filled u depth (Clause.linesAll u depth (c :: cs)) = Clause.linesAll u depth (c :: cs) := by
  have head := u.head_lines depth c
  rw [Clause.linesAll]
  cases lines : c.lines u depth with
  | nil =>
    rw [lines] at head
    cases head
  | cons l ls => rw [List.cons_append, Line.filled_cons]

theorem linesAll_block (cs : List Clause) :
    Clause.linesAll u depth (u.block cs) = Line.filled u depth (Clause.linesAll u depth cs) := by
  cases cs with
  | nil => cases u <;> rfl
  | cons c cs =>
    have full : u.block (c :: cs) = c :: cs := by cases u <;> rfl
    rw [full, filled_linesAll_cons]

theorem tells_cons {text : String} {texts : List String} {c : Clause} {cs : List Clause}
    (first : text.toList = Line.opened u mode (c.lines u depth))
    (rest : Line.Tells u mode depth texts (Clause.linesAll u depth cs)) :
    Line.Tells u mode depth (text :: texts) (Clause.linesAll u depth (c :: cs)) :=
  .cons (u.head_lines depth c) first rest

/-- The lines that declare variables ahead of a body are those of its first clauses. -/
theorem tells_hoisted (body : List Stmt) :
    Line.Tells u mode depth (u.dialect.hoisted (escaping body) declared).1
        (Clause.linesAll u depth ((u.hoist body declared).1.map .declare)) ∧
      (u.dialect.hoisted (escaping body) declared).2 = (u.hoist body declared).2 := by
  suffices all : ∀ (as : List Assign) (ahead declared : List String), ∃ names,
      as.foldl u.hoistOne (ahead, declared) = (ahead ++ names, (u.dialect.hoisted as declared).2) ∧
      Line.Tells u mode depth (u.dialect.hoisted as declared).1
        (Clause.linesAll u depth (names.map .declare)) by
    obtain ⟨names, hoisted, lines⟩ := all (escaping body) [] declared
    rw [hoist, hoisted]
    exact ⟨lines, rfl⟩
  intro as
  induction as with
  | nil => exact fun ahead declared => ⟨[], by simp [Dialect.hoisted], .nil⟩
  | cons a as ih =>
    intro ahead declared
    cases u with
    | python => exact ih ahead declared
    | javascript =>
      have forward : Untyped.javascript.dialect.forward a =
          some ("let " ++ a.target.id ++ "" ++ ";") := rfl
      by_cases known : a.target.id ∈ declared
      · simpa only [List.foldl_cons, hoistOne, Dialect.hoisted, forward, if_pos known] using
          ih ahead declared
      · obtain ⟨names, hoisted, lines⟩ := ih (ahead ++ [a.target.id]) (a.target.id :: declared)
        refine ⟨a.target.id :: names, ?_, ?_⟩
        · simpa [hoistOne, Dialect.hoisted, forward, known] using hoisted
        · simp only [Dialect.hoisted, forward, if_neg known]
          refine tells_cons _ mode depth ?_ lines
          simp [Clause.lines, Line.opened, Line.after, terminator]

theorem assignText_eq {a : Assign} (h : a.value.every Expr.isModelled = true) :
    (u.dialect.assignText mode inClass a declared).1.toList =
        Line.opened u mode ((u.assignClause inClass a declared).1.lines u depth) ∧
      (u.dialect.assignText mode inClass a declared).2 = (u.assignClause inClass a declared).2 := by
  have word : ∀ new : Bool, (if new then ((u.dialect.keyword a inClass).map (· ++ " ")).getD ""
      else "").toList = if u = javascript && !inClass && new then "let ".toList else [] := by
    intro new
    cases u <;> cases new <;> cases inClass <;> rfl
  have type : u.dialect.noteText a = "" := by cases u <;> rfl
  have new : (u = javascript && !inClass && (inClass || !decide (a.target.id ∈ declared))) =
      (u = javascript && !(inClass || decide (a.target.id ∈ declared))) := by
    cases inClass <;> simp
  refine ⟨?_, rfl⟩
  simp only [assignText, String.toList_append, (u.spells_phrase a.value h).lineText_eq, word, type,
    new, ite_self, recordText_eq, u.terminator_eq, assignClause, Clause.lines, Line.opened, Line.after]
  simp

/-- An alternative that is not a conditional alone ends the chain. -/
theorem alternative_of_not_chain {s : Stmt} {ss : List Stmt} (h : ¬ (s.isCond && ss.isEmpty)) :
    u.alternative inClass (s :: ss) declared =
      (.otherwise (u.clauses inClass (s :: ss) declared).1,
        (u.clauses inClass (s :: ss) declared).2) := by
  cases ss with
  | cons next rest => exact u.alternative_cons_cons inClass s next rest declared
  | nil => cases s <;> simp_all [Stmt.isCond, alternative, clauses]

mutual

/-- The text of a modelled statement is that of the lines of its clause. -/
theorem stmtText_eq (s : Stmt) (h : s.every Expr.isModelled Stmt.isModelled = true) (depth : Nat)
    (inClass : Bool) (declared : List String) :
    (u.dialect.stmtText mode inClass depth s declared).1.toList =
        Line.opened u mode ((u.clause inClass s declared).1.lines u depth) ∧
      (u.dialect.stmtText mode inClass depth s declared).2 = (u.clause inClass s declared).2 :=
  match s with
  | .expr value => by
    simp only [Stmt.every, Bool.and_eq_true] at h
    have written := (u.spells_phrase value h.2).lineText_eq "" u.dialect.terminator
    simp [stmtText, written, u.terminator_eq, clause, Clause.lines, Line.opened, Line.after]
  | .print value => by
    simp only [Stmt.every, Bool.and_eq_true] at h
    have written := (u.spells_phrase (.call (.load "print") [value])
      (by simp [Expr.every, Expr.everyAll, Expr.load, Expr.isModelled, h.2])).lineText_eq ""
      u.dialect.terminator
    have pieces : printPieces u.dialect value =
        exprPieces u.dialect (.call (.load "print") [value]) := rfl
    simp [stmtText, pieces, written, u.terminator_eq, clause, Clause.lines, Line.opened, Line.after]
  | .call callee args => by
    simp only [Stmt.every, Bool.and_eq_true] at h
    have written := (u.spells_phrase (.call callee args)
      (by simp [Expr.every, Expr.isModelled, h])).lineText_eq "" u.dialect.terminator
    simp [stmtText, written, u.terminator_eq, clause, Clause.lines, Line.opened, Line.after]
  | .ret none => by
    simp [stmtText, u.terminator_eq, clause, Clause.lines, Line.opened, Line.after]
  | .ret (some value) => by
    simp only [Stmt.every, Bool.and_eq_true] at h
    have written := (u.spells_phrase value h.2).lineText_eq "return " u.dialect.terminator
    simp [stmtText, written, u.terminator_eq, clause, Clause.lines, Line.opened, Line.after]
  | .assign a => by
    simp only [Stmt.every, Bool.and_eq_true] at h
    simpa only [stmtText, clause] using u.assignText_eq mode depth inClass declared h.2
  | .function f body => by
    simp only [Stmt.every, Bool.and_eq_true] at h
    obtain ⟨ahead, own⟩ := u.tells_hoisted mode (depth + 1) f.paramNames body
    obtain ⟨lines, -⟩ := stmtTexts_eq body h.2 (depth + 1) false (u.hoist body f.paramNames).2
    have block := (ahead.append lines).nested (u.dialect.recordText mode (Record.ofSignature f))
    refine ⟨?_, rfl⟩
    simp only [stmtText, own, String.toList_append, block, clause, Clause.lines, linesAll_block]
    simp [functionHeader_eq, recordText_eq, u.closer_eq mode, Clause.linesAll_append, Line.opened]
  | .classDef name bases body => by
    simp only [Stmt.every, Bool.and_eq_true] at h
    obtain ⟨lines, -⟩ := stmtTexts_eq body h.2 (depth + 1) true []
    have header : (u.dialect.classHeader name (bases.map u.dialect.exprText)).toList = _ :=
      u.classHeader_eq name bases h.1.2
    refine ⟨?_, rfl⟩
    simp only [stmtText, String.toList_append, lines.nested, clause, Clause.lines, linesAll_block]
    simp [header, u.closer_eq mode, Line.opened]
  | .cond test body orelse => by
    simp only [Stmt.every, Bool.and_eq_true] at h
    obtain ⟨lines, next⟩ := stmtTexts_eq body h.1.2 (depth + 1) inClass declared
    obtain ⟨rest, final⟩ := orelseText_eq orelse h.2 depth inClass (u.clauses inClass body declared).2
    have notes := (u.spells_phrase test h.1.1.2).notes_eq
    simp only [stmtText, next, String.toList_append, lines.nested, u.testText_eq h.1.1.2, notes,
      clause, Clause.lines, linesAll_block, List.append_assoc, rest]
    exact ⟨by simp [Piece.trailing, Line.opened], final⟩
  | .unknown _ => by cases h

/-- The texts of modelled statements are those of the lines of their clauses. -/
theorem stmtTexts_eq (ss : List Stmt)
    (h : Stmt.everyAll Expr.isModelled Stmt.isModelled ss = true) (depth : Nat) (inClass : Bool)
    (declared : List String) :
    Line.Tells u mode depth (u.dialect.stmtTexts mode inClass depth ss declared).1
        (Clause.linesAll u depth (u.clauses inClass ss declared).1) ∧
      (u.dialect.stmtTexts mode inClass depth ss declared).2 = (u.clauses inClass ss declared).2 :=
  match ss with
  | [] => ⟨.nil, rfl⟩
  | s :: rest => by
    obtain ⟨own, inner⟩ := (Bool.and_eq_true _ _).mp h
    obtain ⟨text, next⟩ := stmtText_eq s own depth inClass declared
    obtain ⟨texts, final⟩ := stmtTexts_eq rest inner depth inClass (u.clause inClass s declared).2
    simp only [stmtTexts, next, clauses]
    exact ⟨u.tells_cons mode depth text texts, final⟩

/-- Behind the end of a block, the text of what follows in the conditional is that of the lines of its
other branches. -/
theorem orelseText_eq (orelse : List Stmt)
    (h : Stmt.everyAll Expr.isModelled Stmt.isModelled orelse = true) (depth : Nat) (inClass : Bool)
    (declared : List String) :
    (u.dialect.closer depth).toList ++
          (u.dialect.orelseText mode inClass depth orelse declared).1.toList =
        Line.after u mode (Alternative.lines u depth (u.alternative inClass orelse declared).1) ∧
      (u.dialect.orelseText mode inClass depth orelse declared).2 =
        (u.alternative inClass orelse declared).2 :=
  match orelse with
  | [] => by simp [orelseText, alternative, Alternative.lines, u.closer_eq mode]
  | s :: rest => by
    obtain ⟨own, inner⟩ := (Bool.and_eq_true _ _).mp h
    by_cases chain : s.isCond && rest.isEmpty
    · obtain ⟨text, next⟩ := stmtText_eq s own depth inClass declared
      obtain ⟨test, body, orelse, rfl, rfl⟩ : ∃ test body orelse,
          s = .cond test body orelse ∧ rest = [] := by
        cases s <;> simp_all [Stmt.isCond]
      simp only [orelseText, if_pos chain, next, String.toList_append, text]
      rw [← List.append_assoc, u.elseIfText_eq]
      simp [clause, alternative, Clause.lines, Alternative.lines, Line.opened, Line.after, Line.shown,
        Line.plain]
    · obtain ⟨text, next⟩ := stmtText_eq s own (depth + 1) inClass declared
      obtain ⟨texts, final⟩ := stmtTexts_eq rest inner (depth + 1) inClass
        (u.clause inClass s declared).2
      have block := (u.tells_cons mode (depth + 1) text texts).nested ""
      rw [filled_linesAll_cons] at block
      simp only [orelseText, if_neg chain, next, String.toList_append, block,
        u.alternative_of_not_chain inClass declared chain]
      rw [← List.append_assoc, u.elseText_eq]
      refine ⟨?_, final⟩
      simp [clauses, Alternative.lines, u.closer_eq mode, Line.after, Line.shown, Line.plain]

end

/-- The text of a modelled program is its lines. -/
theorem render_eq (p : Program) (h : p.isModelled = true) :
    (render u.dialect mode p).toList =
      Text.joinLines ((u.lines p).map (Line.shown u.mark mode)) := by
  obtain ⟨ahead, own⟩ := u.tells_hoisted mode 0 [] p.body
  obtain ⟨lines, -⟩ := u.stmtTexts_eq mode p.body h 0 false (u.hoist p.body []).2
  rw [render_eq_texts mode u.bodies, own, (ahead.append lines).intercalate_eq,
    ← Clause.linesAll_append]
  rfl

end Untyped

end Interlingua
