import Interlingua.Proofs.Layout.Nested
import Interlingua.Proofs.Writing.Lines

/-!
# Programs as nested lines

In a language with indented blocks a simple statement is one line, and every other one is a header
with the items of its body under it; a conditional has a header for each of its branches. What an
expression has to say at the end of its line stands behind all else on it, also behind the colon of a
header. The text of a program is that of its items, at every depth.
-/

namespace Interlingua

open Layout (Item)

namespace Piece

/-- Notes at the end of a line. -/
def trail (notes : List String) : List Char :=
  notes.flatMap fun note => "  ".toList ++ note.toList

/-- A line with pieces in it, between what stands in front of them and behind them. -/
def line (front : String) (pieces : List Piece) (back : String) : List Char :=
  front.toList ++ (text pieces).toList ++ back.toList ++ trail (notes pieces)

theorem toList_lineText (front : String) (pieces : List Piece) (back : String) :
    (lineText front pieces back).toList = line front pieces back := by
  simp [lineText, line, trailing, trail, List.flatMap_map]

theorem text_append (ps qs : List Piece) : text (ps ++ qs) = text ps ++ text qs := by
  apply String.ext
  simp [text]

end Piece

namespace Layout.Item

/-- A header with items in the block under it. A block without items has a line that says so. -/
def under (header : List Char) : List Item → Item
  | [] => block header (line "pass".toList) []
  | first :: rest => block header first rest

/-- The lines of a block. -/
def blockLines (depth : Nat) : List Item → List Line
  | [] => [{ depth, text := "pass".toList }]
  | items => linesAll depth items

/-- Items with a text in front of the first line. -/
def led (lead : List Char) : List Item → List Item
  | [] => []
  | line text :: rest => line (lead ++ text) :: rest
  | block header first others :: rest => block (lead ++ header) first others :: rest

theorem lines_under (depth : Nat) (header : List Char) (items : List Item) :
    (under header items).lines depth = { depth, text := header } :: blockLines (depth + 1) items := by
  cases items <;> simp [under, blockLines, lines, linesAll]

theorem head_linesAll (depth : Nat) {items : List Item} (full : items ≠ []) :
    (linesAll depth items).head?.map Line.depth = some depth := by
  cases items with
  | nil => exact absurd rfl full
  | cons item items =>
    obtain ⟨text, rest, starts⟩ := head_lines depth item
    simp [linesAll, starts]

theorem blockLines_eq_filled (depth : Nat) (items : List Item) :
    blockLines depth items = Line.filled .python depth (linesAll depth items) := by
  cases items with
  | nil => rfl
  | cons item items =>
    obtain ⟨text, rest, starts⟩ := head_lines depth item
    simp [blockLines, linesAll, starts, Line.filled_cons]

section

variable (u : Untyped) (mode : RecordMode) (depth : Nat)

theorem opened_line (text : List Char) : Line.opened u mode (linesAll depth [line text]) = text := by
  simp [linesAll, lines, Line.opened, Line.after]

theorem opened_under (header : List Char) (items rest : List Item) :
    Line.opened u mode (linesAll depth (under header items :: rest)) =
      header ++ Line.after u mode (blockLines (depth + 1) items)
        ++ Line.after u mode (linesAll depth rest) := by
  simp [linesAll, lines_under, Line.opened]

/-- Items that follow others, with a text in front of the first line. -/
theorem after_led (lead : List Char) {items : List Item} (full : items ≠ []) :
    Line.after u mode (linesAll depth (led lead items)) =
      '\n' :: List.replicate (4 * depth) ' ' ++ lead ++ Line.opened u mode (linesAll depth items) := by
  cases items with
  | nil => exact absurd rfl full
  | cons item items =>
    cases item <;> simp [led, linesAll, lines, Line.after, Line.opened, Line.shown, Line.plain]

end

end Layout.Item

namespace Stmt

open Layout.Item

mutual

/-- The items of a statement, in the body of a class or not. -/
def items (inClass : Bool) : Stmt → List Item
  | expr value => [line (Piece.line "" (Dialect.python.exprPieces value) "")]
  | print value => [line (Piece.line "" (Dialect.python.printPieces value) "")]
  | assign a => [line (Piece.line (a.target.id ++ " = ") (Dialect.python.exprPieces a.value) "")]
  | call callee args => [line (Piece.line "" (Dialect.python.exprPieces (.call callee args)) "")]
  | ret none => [line "return".toList]
  | ret (some value) => [line (Piece.line "return " (Dialect.python.exprPieces value) "")]
  | unknown description => [line (Dialect.python.unknownStmt description).toList]
  | function f body =>
    [under (Dialect.python.functionHeader f inClass ++ ":").toList (itemsAll false body)]
  | classDef name bases body =>
    [under (Dialect.python.classHeader name (bases.map Dialect.python.exprText) ++ ":").toList
      (itemsAll true body)]
  | cond test body orelse =>
    under (Piece.line "if " (Dialect.python.exprPieces test) ":") (itemsAll inClass body) ::
      match orelse with
      | [] => []
      | [alternative] =>
        if alternative.isCond then led "el".toList (items inClass alternative)
        else [under "else:".toList (items inClass alternative)]
      | first :: second :: rest =>
        [under "else:".toList (itemsAll inClass (first :: second :: rest))]

def itemsAll (inClass : Bool) : List Stmt → List Item
  | [] => []
  | s :: ss => items inClass s ++ itemsAll inClass ss

end

theorem items_cond (inClass : Bool) (test : Expr) (body orelse : List Stmt) :
    (cond test body orelse).items inClass =
      under (Piece.line "if " (Dialect.python.exprPieces test) ":") (itemsAll inClass body) ::
        ((cond test body orelse).items inClass).tail := by
  rcases orelse with _ | ⟨first, _ | ⟨second, rest⟩⟩ <;> simp [items]

theorem items_ne_nil (inClass : Bool) (s : Stmt) : s.items inClass ≠ [] := by
  cases s with
  | ret value => cases value <;> simp [items]
  | cond test body orelse => rcases orelse with _ | ⟨first, _ | ⟨second, rest⟩⟩ <;> simp [items]
  | _ => simp [items]

end Stmt

namespace Dialect

open Line (Tells)

theorem python_declareEscaping (s : Sheet) (body : List Stmt) : s.declareEscaping python body = s := by
  have step : ∀ as : List Assign, as.foldl (Sheet.declareAhead python) s = s := by
    intro as
    induction as with
    | nil => rfl
    | cons a as ih => exact ih
  exact step (escaping body)

theorem python_hoisted (as : List Assign) (declared : List String) :
    python.hoisted as declared = ([], declared) := by
  induction as with
  | nil => rfl
  | cons a as ih => exact ih

/-- A block under its header, and what ends the header. -/
theorem python_nestedText {depth : Nat} {texts : List String} {items : List Item}
    (h : Tells .python .sidecar (depth + 1) texts (Item.linesAll (depth + 1) items))
    (ending : String) :
    (python.nestedText depth ending texts).toList =
      ':' :: ending.toList ++ Line.after .python .sidecar (Item.blockLines (depth + 1) items) := by
  have block : (python.nestedText depth ending texts).toList = _ := h.nested ending
  rw [block, Item.blockLines_eq_filled]
  exact List.append_nil _

/-- The last branch of a conditional. -/
theorem python_else {depth : Nat} {texts : List String} {items : List Item}
    (h : Tells .python .sidecar (depth + 1) texts (Item.linesAll (depth + 1) items)) :
    (python.elseText depth ++ python.nestedText depth "" texts).toList =
      Line.after .python .sidecar (Item.linesAll depth [.under "else:".toList items]) := by
  have opened : (python.elseText depth).toList =
      '\n' :: List.replicate (4 * depth) ' ' ++ "else".toList := Untyped.elseText_eq .python depth
  rw [String.toList_append, opened, python_nestedText h]
  simp [Item.linesAll, Item.lines_under, Line.after, Line.shown, Line.plain]

mutual

/-- The text of a statement is that of its items. -/
theorem python_stmtText (s : Stmt) (depth : Nat) (inClass : Bool) (declared : List String) :
    (python.stmtText .sidecar inClass depth s declared).1.toList =
      Line.opened .python .sidecar (Item.linesAll depth (s.items inClass)) :=
  match s with
  | .expr value => by
    rw [stmtText, Stmt.items, Item.opened_line, Piece.toList_lineText]
    rfl
  | .print value => by
    rw [stmtText, Stmt.items, Item.opened_line, Piece.toList_lineText]
    rfl
  | .call callee args => by
    rw [stmtText, Stmt.items, Item.opened_line, Piece.toList_lineText]
    rfl
  | .ret none => by
    rw [stmtText, Stmt.items, Item.opened_line]
    rfl
  | .ret (some value) => by
    rw [stmtText, Stmt.items, Item.opened_line, Piece.toList_lineText]
    rfl
  | .unknown description => by rw [stmtText, Stmt.items, Item.opened_line]
  | .assign a => by
    have word : python.keyword a inClass = none := rfl
    have type : python.noteText a = "" := rfl
    have record : python.recordText .sidecar (Record.ofAssign a) = "" := rfl
    have terminator : python.terminator = "" := rfl
    rw [stmtText, Stmt.items, Item.opened_line]
    simp [assignText, word, type, record, terminator, Piece.toList_lineText]
  | .function f body => by
    have block := python_nestedText (python_stmtTexts body (depth + 1) false f.paramNames) ""
    have record : python.recordText .sidecar (Record.ofSignature f) = "" := rfl
    simp only [stmtText, python_hoisted, List.nil_append, record, String.toList_append, block,
      Stmt.items, Item.opened_under]
    simp [Item.linesAll, Line.after]
  | .classDef name bases body => by
    have block := python_nestedText (python_stmtTexts body (depth + 1) true []) ""
    simp only [stmtText, String.toList_append, block, Stmt.items, Item.opened_under]
    simp [Item.linesAll, Line.after]
  | .cond test body orelse => by
    have block := python_nestedText (python_stmtTexts body (depth + 1) inClass declared)
      (Piece.trailing (Piece.notes (python.exprPieces test)))
    have rest := python_orelseText orelse depth inClass
      (python.stmtTexts .sidecar inClass (depth + 1) body declared).2 test body
    -- What the test owes stands behind the colon, on the same line.
    have header : (python.testText test).toList ++
        ':' :: (Piece.trailing (Piece.notes (python.exprPieces test))).toList =
        Piece.line "if " (python.exprPieces test) ":" := by
      rw [← Piece.toList_lineText]
      change ("if " ++ Piece.text _).toList ++ _ = _
      simp [Piece.lineText]
    rw [Stmt.items_cond, Item.opened_under, ← header, ← rest]
    simp [stmtText, block]

theorem python_stmtTexts (ss : List Stmt) (depth : Nat) (inClass : Bool) (declared : List String) :
    Tells .python .sidecar depth (python.stmtTexts .sidecar inClass depth ss declared).1
      (Item.linesAll depth (Stmt.itemsAll inClass ss)) :=
  match ss with
  | [] => .nil
  | s :: rest => by
    rw [Stmt.itemsAll, Item.linesAll_append]
    exact .cons (Item.head_linesAll depth (Stmt.items_ne_nil inClass s))
      (python_stmtText s depth inClass declared) (python_stmtTexts rest depth inClass _)

/-- The text of the other branches of a conditional is that of the items after the first. -/
theorem python_orelseText (orelse : List Stmt) (depth : Nat) (inClass : Bool) (declared : List String)
    (test : Expr) (body : List Stmt) :
    (python.orelseText .sidecar inClass depth orelse declared).1.toList =
      Line.after .python .sidecar
        (Item.linesAll depth ((Stmt.cond test body orelse).items inClass).tail) :=
  match orelse with
  | [] => rfl
  | [alternative] => by
    by_cases chained : alternative.isCond
    · -- The two letters and the first line of the other conditional are one line.
      have next := python_stmtText alternative depth inClass declared
      have led := Item.after_led .python .sidecar depth "el".toList
        (Stmt.items_ne_nil inClass alternative)
      have opened : (python.elseIfText depth).toList =
          '\n' :: List.replicate (4 * depth) ' ' ++ "el".toList := Untyped.elseIfText_eq .python depth
      have tail : ((Stmt.cond test body [alternative]).items inClass).tail =
          Item.led "el".toList (alternative.items inClass) := by
        simp only [Stmt.items, chained, if_true, List.tail_cons]
      rw [tail, led, ← next, ← opened]
      simp [orelseText, chained]
    · have texts : Tells .python .sidecar (depth + 1)
          [(python.stmtText .sidecar inClass (depth + 1) alternative declared).1]
          (Item.linesAll (depth + 1) (alternative.items inClass) ++ []) :=
        .cons (Item.head_linesAll _ (Stmt.items_ne_nil inClass alternative))
          (python_stmtText alternative (depth + 1) inClass declared) .nil
      rw [List.append_nil] at texts
      simpa [orelseText, stmtTexts, chained, Stmt.items] using python_else texts
  | first :: second :: rest => by
    have texts := (python_stmtTexts (second :: rest) (depth + 1) inClass
      (python.stmtText .sidecar inClass (depth + 1) first declared).2)
    have all := Tells.cons (Item.head_linesAll _ (Stmt.items_ne_nil inClass first))
      (python_stmtText first (depth + 1) inClass declared) texts
    rw [← Item.linesAll_append] at all
    simpa [orelseText, Stmt.items, Stmt.itemsAll] using python_else all

end

/-- The text of a program is that of its items. -/
theorem python_code (p : Program) :
    (renderApart python p).code.toList =
      Text.joinLines ((Item.linesAll 0 (Stmt.itemsAll false p.body)).map Line.plain) := by
  have shown : Line.shown Untyped.python.mark .sidecar = Line.plain := by
    funext l
    simp [Line.shown, Line.comment]
  rw [renderApart, render_eq_texts .sidecar rfl, python_hoisted, List.nil_append,
    (python_stmtTexts p.body 0 false []).intercalate_eq, shown]

end Dialect

end Interlingua
