import Interlingua.Proofs.Record.Comment
import Interlingua.Proofs.Record.Consumers
import Interlingua.Proofs.Writing.Lines

/-!
# Scanning what was written

The lines of a program carry the records of its consumers in walk order. Scanning the program with
records in comments gives the program without them, and every record that says something with the
row its consumer starts on.
-/

namespace Interlingua

open Text Dialect

/-- How the text of a consumer starts, after a word that tells what it is. -/
def Stmt.heading : Stmt → List Char
  | .function f _ => f.name.toList ++ ['(']
  | .assign a => a.target.id.toList ++ " = ".toList
  | _ => []

/-- A line on which a consumer starts, with its record. -/
structure Line.Starts (l : Line) (s : Stmt) : Prop where
  record : l.record = some s.record
  text : ∃ word ∈ ["", "let ", "def ", "function "], word.toList ++ s.heading <+: l.text

/-- Consumers in the order of the lines on which they start; no other line has a record. -/
inductive Announces : List Line → List Stmt → Prop where
  | nil : Announces [] []
  | skip {l : Line} {ls : List Line} {ss : List Stmt} (h : l.record = none) (rest : Announces ls ss) :
    Announces (l :: ls) ss
  | start {l : Line} {s : Stmt} {ls : List Line} {ss : List Stmt} (h : l.Starts s)
    (rest : Announces ls ss) : Announces (l :: ls) (s :: ss)

namespace Announces

theorem append {ls ms : List Line} {ss ts : List Stmt} (h : Announces ls ss) (rest : Announces ms ts) :
    Announces (ls ++ ms) (ss ++ ts) := by
  induction h with
  | nil => exact rest
  | skip h _ ih => exact .skip h ih
  | start h _ ih => exact .start h ih

/-- Lines on which no consumer starts may stand anywhere. -/
theorem of_forall {ls : List Line} (h : ∀ l ∈ ls, l.record = none) : Announces ls [] := by
  induction ls with
  | nil => exact .nil
  | cons l ls ih =>
    obtain ⟨first, others⟩ := List.forall_mem_cons.1 h
    exact .skip first (ih others)

theorem records {ls : List Line} {ss : List Stmt} (h : Announces ls ss) :
    ls.filterMap Line.record = ss.map Stmt.record := by
  induction h with
  | nil => rfl
  | skip h _ ih => rw [List.filterMap_cons, h, ih]
  | start h _ ih => rw [List.filterMap_cons, h.record, ih, List.map_cons]

end Announces

namespace Untyped

variable (u : Untyped)

theorem record_closing (depth : Nat) : ∀ l ∈ u.closing depth, l.record = none := by
  cases u <;> simp [closing]

theorem record_declare (depth : Nat) (ids : List String) :
    ∀ l ∈ Clause.linesAll u depth (ids.map .declare), l.record = none := by
  induction ids with
  | nil => simp [Clause.linesAll]
  | cons id ids ih => simpa [Clause.linesAll, Clause.lines] using ih

/-- The consumers of a body start on the lines of its block. -/
theorem announces_block {depth : Nat} {cs : List Clause} {ss : List Stmt}
    (h : Announces (Clause.linesAll u depth cs) ss) :
    Announces (Clause.linesAll u depth (u.block cs)) ss := by
  cases u with
  | python =>
    rw [block]
    split
    · next empty =>
      rw [List.isEmpty_iff.1 empty] at h
      exact .skip rfl h
    · exact h
  | javascript => exact h

theorem starts_assign (a : Assign) (depth : Nat) (declares : Bool) (value : List Char) :
    Line.Starts ⟨depth, (if declares then "let ".toList else []) ++ a.target.id.toList
      ++ " = ".toList ++ value ++ u.terminator, some (Record.ofAssign a)⟩ (.assign a) := by
  refine ⟨rfl, if declares then "let " else "", by split <;> simp, value ++ u.terminator, ?_⟩
  cases declares <;> simp [Stmt.heading]

theorem starts_function (f : Signature) (body : List Stmt) (depth : Nat) (method : Bool)
    (rest : List Char) :
    Line.Starts ⟨depth, (u.functionWord method).toList ++ f.name.toList ++ '(' :: rest,
      some (Record.ofSignature f)⟩ (.function f body) := by
  refine ⟨rfl, u.functionWord method, ?_, rest, by simp [Stmt.heading]⟩
  cases u <;> cases method <;> simp [functionWord]

theorem announces_otherwise {depth : Nat} {cs : List Clause} {ss : List Stmt}
    (h : Announces (Clause.linesAll u (depth + 1) cs) ss) :
    Announces ((Alternative.otherwise cs).lines u depth) ss := by
  have rest := h.append (.of_forall (u.record_closing depth))
  rw [List.append_nil] at rest
  exact .skip rfl rest

mutual

/-- The consumers of a statement start on its lines, in walk order. -/
theorem announces_clause (s : Stmt) (depth : Nat) (inClass : Bool) (declared : List String) :
    Announces ((u.clause inClass s declared).1.lines u depth) s.consumers :=
  match s with
  | .expr _ | .print _ | .call _ _ | .ret none | .ret (some _) | .unknown _ => .skip rfl .nil
  | .assign a => .start (u.starts_assign a depth _ _) .nil
  | .function f body => by
    have inner := announces_clauses body (depth + 1) false (u.hoist body f.paramNames).2
    have ahead := (Announces.of_forall (u.record_declare (depth + 1)
      (u.hoist body f.paramNames).1)).append inner
    rw [← Clause.linesAll_append] at ahead
    have rest := (u.announces_block ahead).append (.of_forall (u.record_closing depth))
    have first := u.starts_function f body depth inClass (commas ((u.paramNames inClass f).map
      String.toList) ++ ')' :: u.opener)
    simpa [clause, Clause.lines, Stmt.consumers] using Announces.start first rest
  | .classDef name bases body => by
    have inner := u.announces_block (announces_clauses body (depth + 1) true [])
    have rest := inner.append (.of_forall (u.record_closing depth))
    rw [List.append_nil] at rest
    exact .skip rfl rest
  | .cond test body orelse => by
    have inner := u.announces_block (announces_clauses body (depth + 1) inClass declared)
    have rest := announces_alternative orelse depth inClass (u.clauses inClass body declared).2
    exact .skip rfl (inner.append rest)

theorem announces_clauses (ss : List Stmt) (depth : Nat) (inClass : Bool) (declared : List String) :
    Announces (Clause.linesAll u depth (u.clauses inClass ss declared).1) (Stmt.consumersAll ss) :=
  match ss with
  | [] => .nil
  | s :: ss => (announces_clause s depth inClass declared).append
    (announces_clauses ss depth inClass (u.clause inClass s declared).2)

theorem announces_alternative (ss : List Stmt) (depth : Nat) (inClass : Bool)
    (declared : List String) :
    Announces ((u.alternative inClass ss declared).1.lines u depth) (Stmt.consumersAll ss) :=
  match ss with
  | [] => .of_forall (u.record_closing depth)
  | [s] => by
    have own := announces_clause s (depth + 1) inClass declared
    cases s with
    | cond test body orelse =>
      have inner := u.announces_block (announces_clauses body (depth + 1) inClass declared)
      have rest := announces_alternative orelse depth inClass (u.clauses inClass body declared).2
      rw [Stmt.consumersAll, Stmt.consumersAll, List.append_nil]
      exact .skip rfl (inner.append rest)
    | _ => exact u.announces_otherwise (own.append .nil)
  | s :: next :: rest => by
    have own := announces_clause s (depth + 1) inClass declared
    have others := announces_clauses (next :: rest) (depth + 1) inClass
      (u.clause inClass s declared).2
    rw [alternative_cons_cons]
    exact u.announces_otherwise (own.append others)

end

theorem announces_lines (p : Program) : Announces (u.lines p) p.consumers := by
  rw [lines, program, Clause.linesAll_append]
  exact (Announces.of_forall (u.record_declare 0 _)).append
    (u.announces_clauses p.body 0 false (u.hoist p.body []).2)

theorem records_lines (p : Program) : (u.lines p).filterMap Line.record = p.gather := by
  rw [(u.announces_lines p).records, Program.gather, Stmt.gatherAll_eq_consumers]
  rfl

end Untyped

namespace Line

/-- The rows on which consumers start, in lines from a row on. -/
def starts (ls : List Line) (row : Nat) : List Nat :=
  (ls.zipIdx row).filterMap fun l => l.1.record.map fun _ => l.2

/-- The records that say something, in lines from a row on, each with its row. -/
def spoken (ls : List Line) (row : Nat) : List (Nat × Record) :=
  ((starts ls row).zip (ls.filterMap record)).filter fun e => !e.2.isEmpty

theorem spoken_cons (l : Line) (ls : List Line) (row : Nat) :
    spoken (l :: ls) row =
      ((l.record.filter (!·.isEmpty)).map (row, ·)).toList ++ spoken ls (row + 1) := by
  cases known : l.record with
  | none => simp [spoken, starts, known]
  | some r => cases empty : r.isEmpty <;> simp [spoken, starts, known, empty, Option.filter_some]

end Line

namespace Untyped

variable (u : Untyped)

/-- What is needed of a line to find its record again. -/
structure Scannable (l : Line) : Prop where
  tidy : l.Tidy
  carried : ∀ r, l.record = some r →
    u.carries r = true ∧ ∀ name, r.variableType ≠ some (.named name)

theorem neat_of_record {l : Line} (h : l.Tidy) {r : Record} (known : l.record = some r) :
    Neat l.plain := by
  cases h with
  | neat h => exact Neat.append (by simp) h
  | brace depth => cases known

theorem decodeLine_shown {l : Line} (h : u.Scannable l) :
    Record.decodeLine u.mark (l.shown u.mark .inline) =
      (l.record.filter (!·.isEmpty)).map fun r => (l.plain, some r) := by
  cases known : l.record with
  | none => simpa [Line.shown, known] using u.decodeLine_plain h.tidy
  | some r =>
    by_cases empty : r.isEmpty
    · simpa [Line.shown, Line.comment, known, empty, Option.filter_some] using
        u.decodeLine_plain h.tidy
    · obtain ⟨carried, vocabulary⟩ := h.carried r known
      have decoded := u.decodeLine_encode (neat_of_record h.tidy known) carried vocabulary
      simpa [Line.shown, Line.comment, known, empty, Option.filter_some] using decoded

theorem strip_shown {l : Line} (h : u.Scannable l) :
    Record.strip u.mark (l.shown u.mark .inline) = l.plain := by
  rw [Record.strip, u.decodeLine_shown h]
  cases spoken : l.record.filter (!·.isEmpty) with
  | some r => rfl
  | none =>
    have silent : Line.comment u.mark .inline l.record = [] := by
      cases known : l.record with
      | none => rfl
      | some r =>
        rw [known, Option.filter_some] at spoken
        simp_all [Line.comment]
    simp [Line.shown, silent]

theorem recordAt?_shown {l : Line} (h : u.Scannable l) (row : Nat) :
    Record.recordAt? u.mark (l.shown u.mark .inline, row) =
      (l.record.filter (!·.isEmpty)).map (row, ·) := by
  rw [Record.recordAt?, u.decodeLine_shown h]
  cases l.record.filter (!·.isEmpty) <;> rfl

theorem records_shown {ls : List Line} (h : ∀ l ∈ ls, u.Scannable l) (row : Nat) :
    ((ls.map (Line.shown u.mark .inline)).zipIdx row).filterMap (Record.recordAt? u.mark) =
      Line.spoken ls row := by
  induction ls generalizing row with
  | nil => rfl
  | cons l ls ih =>
    obtain ⟨first, others⟩ := List.forall_mem_cons.1 h
    rw [Line.spoken_cons, ← ih others (row + 1), ← u.recordAt?_shown first row, List.map_cons,
      List.zipIdx_cons, List.filterMap_cons]
    cases Record.recordAt? u.mark (l.shown u.mark .inline, row) <;> rfl

theorem newline_notMem_shown {l : Line} (h : l.Tidy) : '\n' ∉ l.shown u.mark .inline := by
  have plain : '\n' ∉ l.plain := by simp [Line.plain, h.unbroken]
  have mark : '\n' ∉ Record.opening u.mark := by cases u <;> decide
  have comment : '\n' ∉ Line.comment u.mark .inline l.record := by
    cases known : l.record with
    | none => simp
    | some r =>
      rw [Line.comment]
      split <;> simp [Record.encode, mark, r.newline_notMem_text]
  simp [Line.shown, plain, comment]

/-- Scanning lines gives the lines without records, and the records that say something. -/
theorem scan_shown {ls : List Line} (h : ∀ l ∈ ls, u.Scannable l) :
    Record.scan u.mark (joinLines (ls.map (Line.shown u.mark .inline))) =
      ⟨joinLines (ls.map Line.plain), Line.spoken ls 0⟩ := by
  cases ls with
  | nil => cases u <;> rfl
  | cons l ls =>
    have unbroken : ∀ text ∈ (l :: ls).map (Line.shown u.mark .inline), '\n' ∉ text :=
      List.forall_mem_map.2 fun l mem => u.newline_notMem_shown (h l mem).tidy
    have split : splitOn '\n' (joinLines ((l :: ls).map (Line.shown u.mark .inline))) =
        (l :: ls).map (Line.shown u.mark .inline) := splitOn_joinLines unbroken
    rw [Record.scan, split, u.records_shown h, List.map_map]
    congr 2
    exact List.map_congr_left fun l mem => u.strip_shown (h l mem)

/-- Whether the names of a statement are words, and its record can travel in a comment. -/
def isScannable (s : Stmt) : Bool :=
  s.isWorded && u.carries s.record

/-- The rows on which the consumers of a program start. -/
def startRows (p : Program) : List Nat :=
  Line.starts (u.lines p) 0

section

variable {p : Program} (h : p.every Expr.isWorded Stmt.isWorded = true)

include h

theorem isModelled_of_isWorded : p.isModelled = true := by
  have exprs : ∀ e : Expr, e.every Expr.isWorded = true → e.isModelled = true := by
    intro e every
    have own := Expr.every_self every
    cases e <;> simp_all [Expr.isWorded, Expr.isModelled]
  have stmts : ∀ s : Stmt, s.every Expr.isWorded Stmt.isWorded = true → s.isModelled = true := by
    intro s every
    have own := Stmt.every_self every
    cases s <;> simp_all [Stmt.isWorded, Stmt.isModelled]
  exact Stmt.everyAll_mono exprs stmts p.body h

theorem renderApart_eq :
    (renderApart u.dialect p).code.toList = joinLines ((u.lines p).map Line.plain) := by
  have shown : Line.shown u.mark .sidecar = Line.plain := by
    funext l
    simp [Line.shown, Line.comment]
  rw [renderApart, u.render_eq .sidecar p (isModelled_of_isWorded h), shown]

variable (carried : ∀ s ∈ p.consumers, u.carries s.record = true)

include carried

theorem scannable_lines : ∀ l ∈ u.lines p, u.Scannable l := by
  intro l mem
  refine ⟨u.tidy_lines h l mem, fun r known => ?_⟩
  have gathered : r ∈ p.gather := u.records_lines p ▸ List.mem_filterMap.2 ⟨l, mem, known⟩
  rw [Program.gather, Stmt.gatherAll_eq_consumers] at gathered
  obtain ⟨s, consumer, rfl⟩ := List.mem_map.1 gathered
  exact ⟨carried s consumer, s.record_ne_named⟩

theorem scan_inline :
    Record.scan u.mark (render u.dialect .inline p).toList =
      ⟨joinLines ((u.lines p).map Line.plain), Line.spoken (u.lines p) 0⟩ := by
  rw [u.render_eq .inline p (isModelled_of_isWorded h), u.scan_shown (u.scannable_lines h carried)]

end

/-- Scanning a program with its records in comments gives the program without them, and every record
that says something with the row on which its consumer starts. The rows are those of the lines on
which the program is written, one for each consumer in walk order. -/
theorem scan_render (p : Program) (h : p.every Expr.isWorded u.isScannable = true) :
    Record.scan u.mark (render u.dialect .inline p).toList =
        ⟨(renderApart u.dialect p).code.toList,
          ((u.startRows p).zip p.gather).filter fun e => !e.2.isEmpty⟩ ∧
      (renderApart u.dialect p).code.toList = joinLines ((u.lines p).map Line.plain) ∧
      Announces (u.lines p) p.consumers := by
  have worded : p.every Expr.isWorded Stmt.isWorded = true :=
    Stmt.everyAll_mono (fun _ => Expr.every_self)
      (fun _ own => (Bool.and_eq_true_iff.1 (Stmt.every_self own)).1) p.body h
  have carried : ∀ s ∈ p.consumers, u.carries s.record = true := fun s mem =>
    (Bool.and_eq_true_iff.1 (Stmt.every_self (Stmt.consumersAll_forall p.body h s mem))).2
  have code := u.renderApart_eq worded
  refine ⟨?_, code, u.announces_lines p⟩
  rw [u.scan_inline worded carried, code, startRows, ← u.records_lines p]
  rfl

/-- A program with a text like a record in a string, and an assignment that has nothing to say. -/
def markedProgram : Program :=
  ⟨[.assign { target := ⟨"x", .store⟩, value := .lit (.str "// __META__: \x7b\x7d"), type := .string },
    .function
      { name := "f", params := [⟨"a", .param⟩], returnType := .void
        paramTypes := Dict.ofList [("a", .number)]
        paramFacts := Dict.ofList [("a", Dict.ofList [("unit", "kg")])] }
      [.cond (.load "a") [.assign { target := ⟨"x", .store⟩, value := .load "a" }]
        [.print (.lit (.str "\n"))]]]⟩

theorem scan_render_marked :
    markedProgram.every Expr.isWorded javascript.isScannable = true ∧
      Record.scan javascript.mark (render javascript.dialect .inline markedProgram).toList =
        ⟨(renderApart javascript.dialect markedProgram).code.toList,
          ((javascript.startRows markedProgram).zip markedProgram.gather).filter
            fun e => !e.2.isEmpty⟩ ∧
      (renderApart javascript.dialect markedProgram).code.toList =
        joinLines ((javascript.lines markedProgram).map Line.plain) ∧
      Announces (javascript.lines markedProgram) markedProgram.consumers := by
  have h : markedProgram.every Expr.isWorded javascript.isScannable = true := by decide +kernel
  exact ⟨h, javascript.scan_render markedProgram h⟩

end Untyped

end Interlingua
