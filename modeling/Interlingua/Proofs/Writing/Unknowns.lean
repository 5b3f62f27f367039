import Interlingua.Proofs.Program.Places
import Interlingua.Proofs.Writing.Appending
import Interlingua.Proofs.Writing.Descriptions
import Interlingua.Proofs.Writing.Indentation

/-!
# What becomes of unknown nodes

In a language without comments inside a line the description of an unknown expression is owed to the
end of its line. To say where an unknown node ends up, the text of a program with such a node at a place
is compared with the text of the same program with a name there: the two differ by what stands for the
node and by its description, further on in the same line. The bases of a class are the exception: they
are written without what they owe.
-/

namespace Interlingua

open Dialect

/-- What is put at a place: something unknown, or a name to tell the place by. -/
inductive Filler where
  | unknown (description : String)
  | name (n : Name)

namespace Filler

def expr : Filler → Expr
  | unknown description => .unknown description
  | name n => .name n

def stmt : Filler → Stmt
  | unknown description => .unknown description
  | name n => .expr (.name n)

/-- What stands at the place of an expression. -/
def mark : Filler → String
  | unknown _ => "None"
  | name n => n.id

/-- What stands at the place of a statement. -/
def line : Filler → String
  | unknown description => "pass  # unknown: " ++ oneLine description
  | name n => n.id

@[simp] theorem line_unknown (description : String) :
    line (unknown description) = "pass  # unknown: " ++ oneLine description :=
  rfl

@[simp] theorem line_name (n : Name) : line (name n) = n.id :=
  rfl

/-- What is owed to the end of the line. -/
def notes : Filler → List String
  | unknown description => [Python.unknownNote description]
  | name _ => []

/-- What stands at the end of the line. -/
def trail : Filler → String
  | unknown description => "  " ++ Python.unknownNote description
  | name _ => ""

theorem pieces_expr (a : Filler) :
    python.exprPieces a.expr = .token a.mark :: a.notes.map Piece.note := by
  cases a <;> rfl

theorem strength_expr (a : Filler) : a.expr.strength = Expr.atom := by
  cases a <;> rfl

end Filler

/-! Pieces that are the same but for those of the filler. -/

/-- There is one place among pieces that vary where the pieces of the filler stand. -/
def Around (pieces : Filler → List Piece) : Prop :=
  ∃ front back, ∀ a, pieces a = front ++ python.exprPieces a.expr ++ back

namespace Around

variable {pieces : Filler → List Piece}

theorem congr {others : Filler → List Piece} (h : Around pieces) (same : ∀ a, others a = pieces a) :
    Around others := by
  rw [funext same]
  exact h

theorem wrap (h : Around pieces) (before after : List Piece) :
    Around fun a => before ++ pieces a ++ after := by
  obtain ⟨front, back, same⟩ := h
  exact ⟨before ++ front, back ++ after, fun a => by simp [same]⟩

theorem group (h : Around pieces) (needed : Bool) : Around fun a => Piece.group needed (pieces a) := by
  cases needed with
  | false => exact h
  | true => exact h.wrap [.token "("] [.token ")"]

theorem listed {f : Filler → Expr} (h : Around fun a => python.exprPieces (f a))
    (before after : List Expr) : Around fun a => python.listedPieces (before ++ f a :: after) := by
  induction before with
  | nil =>
    cases after with
    | nil => simpa [listedPieces] using h
    | cons next rest =>
      simpa [listedPieces] using h.wrap [] (.token "," :: .gap :: python.listedPieces (next :: rest))
  | cons e before ih =>
    have comma : ∀ a, python.listedPieces (e :: (before ++ f a :: after)) =
        python.exprPieces e ++ [.token ",", .gap] ++ python.listedPieces (before ++ f a :: after) := by
      intro a
      cases before <;> simp [listedPieces]
    have rest := ih.wrap (python.exprPieces e ++ [.token ",", .gap]) []
    simpa [comma] using rest

end Around

namespace Expr

/-- An expression varies with what is put at one place of it. -/
structure Varies (f : Filler → Expr) : Prop where
  pieces : Around fun a => python.exprPieces (f a)
  strength : ∀ a b, (f a).strength = (f b).strength
  constType : ∀ a, (f a).constType = .unknown
  container : ∀ a b, Record.containerType? (f a) = Record.containerType? (f b)

theorem sharedType_congr {es fs : List Expr} (h : es.map constType = fs.map constType) :
    sharedType es = sharedType fs := by
  match es, fs with
  | [], [] => rfl
  | [], _ :: _ => cases h
  | _ :: _, [] => cases h
  | e :: es, f :: fs =>
    obtain ⟨first, rest⟩ := List.cons.inj h
    have all : ∀ gs : List Expr, (gs.all fun g => g.constType = e.constType) =
        (gs.map constType).all fun type => type = e.constType := by
      intro gs
      rw [List.all_map]
      rfl
    simp only [sharedType, ← first, all, rest]

namespace Varies

variable {f : Filler → Expr}

theorem hole : Varies Filler.expr where
  pieces := ⟨[], [], fun _ => by simp⟩
  strength a b := a.strength_expr.trans b.strength_expr.symm
  constType a := by cases a <;> rfl
  container a b := by cases a <;> cases b <;> rfl

theorem operand (h : Varies f) (least : Nat) :
    Around fun a => Dialect.operand least (f a) (python.exprPieces (f a)) := by
  have needed : ∀ a, decide ((f a).strength < least) =
      decide ((f (.unknown "")).strength < least) := fun a => by rw [h.strength a (.unknown "")]
  simpa only [Dialect.operand, needed] using h.pieces.group _

theorem plug (h : Varies f) (frame : Frame) : Varies fun a => frame.plug (f a) where
  pieces := by
    cases frame with
    | callee args =>
      refine ((h.operand atom).wrap []
        (.token "(" :: python.listedPieces args ++ [.token ")"])).congr fun a => ?_
      simp [Frame.plug, python_call]
    | argument called before after =>
      refine ((h.pieces.listed before after).wrap
        (Dialect.operand atom called (python.exprPieces called) ++ [.token "("])
        [.token ")"]).congr fun a => ?_
      simp [Frame.plug, python_call]
    | object property =>
      refine ((h.operand atom).wrap []
        [.token python.memberLink, .token property]).congr fun a => ?_
      simp [Frame.plug, exprPieces]
    | left op other =>
      refine ((h.operand op.strength).wrap [] ([.gap, .token (python.binarySymbol op), .gap] ++
        Dialect.operand (op.strength + 1) other (python.exprPieces other))).congr fun a => ?_
      simp [Frame.plug, exprPieces]
    | right other op =>
      refine ((h.operand (op.strength + 1)).wrap
        (Dialect.operand op.strength other (python.exprPieces other) ++
          [.gap, .token (python.binarySymbol op), .gap]) []).congr fun a => ?_
      simp [Frame.plug, exprPieces]
    | compareLeft op other =>
      refine ((h.operand (CompareOp.strength + 1)).wrap []
        ([.gap, .token (python.compareSymbol op), .gap] ++
          Dialect.operand (CompareOp.strength + 1) other (python.exprPieces other))).congr fun a => ?_
      simp [Frame.plug, exprPieces]
    | compareRight other op =>
      refine ((h.operand (CompareOp.strength + 1)).wrap
        (Dialect.operand (CompareOp.strength + 1) other (python.exprPieces other) ++
          [.gap, .token (python.compareSymbol op), .gap]) []).congr fun a => ?_
      simp [Frame.plug, exprPieces]
    | element before after type homogeneous =>
      refine ((h.pieces.listed before after).wrap (python.listOpen type)
        [.token python.listClose]).congr fun a => ?_
      simp [Frame.plug, exprPieces]
    | component before after types =>
      refine ((h.pieces.listed before after).wrap python.tupleOpen
        [.token (python.tupleClose (before.length + (after.length + 1)))]).congr fun a => ?_
      simp [Frame.plug, exprPieces]
  strength a b := by cases frame <;> rfl
  constType a := by cases frame <;> rfl
  container a b := by
    cases frame with
    | element before after type homogeneous =>
      have shared : sharedType (before ++ f a :: after) = sharedType (before ++ f b :: after) :=
        sharedType_congr (by simp [h.constType])
      simp only [Frame.plug, Record.containerType?, shared]
    | component before after types => rfl
    | _ => rfl

theorem plugAll (frames : List Frame) : Varies fun a => Expr.plugAll frames a.expr := by
  induction frames with
  | nil => exact hole
  | cons frame frames ih => exact ih.plug frame

end Varies

end Expr

/-! Lines without a line break. -/

namespace Piece

/-- What a piece says, in place or at the end of the line. -/
def words : Piece → String
  | token text => text
  | gap => " "
  | note text => text

/-- Pieces without a line break in them. -/
def Lined (pieces : List Piece) : Prop :=
  ∀ p ∈ pieces, '\n' ∉ p.words.toList

/-- Notes as they stand at the end of a line. -/
def trailText (notes : List String) : String :=
  String.join (notes.map ("  " ++ ·))

theorem trailText_append (ns ms : List String) :
    trailText (ns ++ ms) = trailText ns ++ trailText ms := by
  apply String.ext
  simp [trailText]

namespace Lined

variable {ps qs : List Piece}

theorem append (hp : Lined ps) (hq : Lined qs) : Lined (ps ++ qs) :=
  List.forall_mem_append.2 ⟨hp, hq⟩

theorem token {text : String} (h : '\n' ∉ text.toList) : Lined [.token text] := by
  simpa [Lined, words] using h

theorem group (h : Lined ps) (needed : Bool) : Lined (Piece.group needed ps) := by
  cases needed with
  | false => exact h
  | true => exact ((token (by simp)).append h).append (token (by simp))

theorem newline_notMem_text (h : Lined ps) : '\n' ∉ (text ps).toList := by
  intro mem
  simp only [text, String.toList_join, List.mem_flatMap, List.mem_map] at mem
  obtain ⟨_, ⟨p, listed, rfl⟩, mem⟩ := mem
  cases p with
  | note text => cases mem
  | _ => exact h _ listed mem

theorem newline_notMem_trailText (h : Lined ps) : '\n' ∉ (trailText (notes ps)).toList := by
  intro mem
  simp only [trailText, String.toList_join, List.mem_flatMap, List.mem_map, notes,
    List.mem_filterMap] at mem
  obtain ⟨_, ⟨_, ⟨p, listed, own⟩, rfl⟩, mem⟩ := mem
  cases p with
  | note text =>
    cases own
    have other : '\n' ∉ "  ".toList := by simp
    rw [String.toList_append, List.mem_append] at mem
    exact mem.elim other (h _ listed)
  | _ => cases own

end Lined

end Piece

/-- Whether what an expression itself says has no line break in it. -/
def Expr.isLined : Expr → Bool
  | .name n => '\n' ∉ n.id.toList
  | .member _ property => '\n' ∉ property.toList
  | _ => true

namespace Dialect

open Piece

theorem newline_notMem_unknownNote (description : String) :
    '\n' ∉ (Python.unknownNote description).toList :=
  fun mem => absurd (unbroken_unknownNote description '\n' mem) (by decide)

theorem newline_notMem_literal (value : Literal) : '\n' ∉ (python.literal value).toList := by
  cases value with
  | str s =>
    have text : (python.literal (.str s)).toList = Text.quote '\'' s.toList := String.toList_ofList
    exact text ▸ Text.notMem_quote (.inl rfl) (by decide) _
  | bool b => cases b <;> decide
  | null => decide
  | int n =>
    have text : (python.literal (.int n)).toList = (Literal.int n).numeral := String.toList_ofList
    exact text ▸ (Literal.standing_numeral rfl).newline
  | float x =>
    have text : (python.literal (.float x)).toList = (Literal.float x).numeral :=
      String.toList_ofList
    exact text ▸ (Literal.standing_numeral rfl).newline

theorem lined_operator {symbol : String} (h : '\n' ∉ symbol.toList) :
    Lined [.gap, .token symbol, .gap] := by
  simpa [Lined, words] using h

mutual

theorem python_lined (e : Expr) (h : e.every Expr.isLined = true) : Lined (python.exprPieces e) :=
  match e with
  | .call callee args => by
    simp only [Expr.every, Bool.and_eq_true] at h
    have first := (python_lined callee h.1.2).group (callee.strength < Expr.atom)
    have opened : Lined [.token "("] := .token (by decide)
    have closed : Lined [.token ")"] := .token (by decide)
    have others := (opened.append (python_linedAll args h.2)).append closed
    rw [python_call]
    simpa [operand] using first.append others
  | .member object property => by
    simp only [Expr.every, Bool.and_eq_true] at h
    have first := (python_lined object h.2).group (object.strength < Expr.atom)
    have own : '\n' ∉ property.toList := by simpa [Expr.isLined] using h.1
    have link : Lined [.token python.memberLink] := .token (by decide)
    exact first.append (link.append (.token own))
  | .binary left op right => by
    simp only [Expr.every, Bool.and_eq_true] at h
    have first := (python_lined left h.1.2).group (left.strength < op.strength)
    have second := (python_lined right h.2).group (right.strength < op.strength + 1)
    have symbol : '\n' ∉ (python.binarySymbol op).toList := by cases op <;> decide
    exact (first.append (lined_operator symbol)).append second
  | .compare left op right => by
    simp only [Expr.every, Bool.and_eq_true] at h
    have first := (python_lined left h.1.2).group (left.strength < CompareOp.strength + 1)
    have second := (python_lined right h.2).group (right.strength < CompareOp.strength + 1)
    have symbol : '\n' ∉ (python.compareSymbol op).toList := by cases op <;> decide
    exact (first.append (lined_operator symbol)).append second
  | .list elements type homogeneous => by
    simp only [Expr.every, Bool.and_eq_true] at h
    have opened : Lined (python.listOpen type) := .token (by decide)
    have closed : Lined [.token python.listClose] := .token (by decide)
    exact (opened.append (python_linedAll elements h.2)).append closed
  | .tuple elements types => by
    simp only [Expr.every, Bool.and_eq_true] at h
    have opened : Lined python.tupleOpen := .token (by decide)
    have closed : Lined [.token (python.tupleClose elements.length)] := by
      refine .token ?_
      change '\n' ∉ (if elements.length = 1 then ",)" else ")").toList
      split <;> decide
    exact (opened.append (python_linedAll elements h.2)).append closed
  | .name n => by
    refine .token ?_
    simpa [Expr.every, Expr.isLined] using h
  | .const value type => .token (newline_notMem_literal value)
  | .unknown description => by
    have note := newline_notMem_unknownNote description
    intro p mem
    simp only [exprPieces, python, List.mem_cons, List.not_mem_nil, or_false] at mem
    rcases mem with rfl | rfl
    · decide
    · exact note

theorem python_linedAll (es : List Expr) (h : Expr.everyAll Expr.isLined es = true) :
    Lined (python.listedPieces es) :=
  match es with
  | [] => nofun
  | [e] => by
    simp only [Expr.everyAll, Bool.and_true] at h
    exact python_lined e h
  | e :: next :: rest => by
    simp only [Expr.everyAll, Bool.and_eq_true] at h
    have others := python_linedAll (next :: rest) (by simpa [Expr.everyAll] using h.2)
    have comma : Lined [.token ",", .gap] := by simp [Lined, words]
    simpa [listedPieces] using ((python_lined e h.1).append comma).append others

end

end Dialect

/-! Writers that show the filler. -/

namespace Sheet

/-- Writing shows what is put at a place, with the rest of it further on. Nothing else varies, and if
all is lined, the rest is on the same line. -/
def Shows (shown trail : Filler → String) (lined : Prop) (write : Filler → Sheet → Sheet) : Prop :=
  ∀ s : Sheet, s.notes = [] → ∃ (t : Sheet) (before between : String),
    (∀ a, write a s = t.prepend (before ++ shown a ++ between ++ trail a)) ∧
    (lined → '\n' ∉ between.toList)

namespace Shows

variable {shown trail : Filler → String} {lined : Prop} {write : Filler → Sheet → Sheet}

theorem congr {other : Filler → Sheet → Sheet} (h : Shows shown trail lined write)
    (same : ∀ a s, other a s = write a s) : Shows shown trail lined other := by
  have equal : other = write := funext fun a => funext (same a)
  exact equal ▸ h

theorem andThen (h : Shows shown trail lined write) {next : Sheet → Sheet} (appends : Appends next) :
    Shows shown trail lined fun a s => next (write a s) := by
  intro s clean
  obtain ⟨t, before, between, same, line⟩ := h s clean
  exact ⟨next t, before, between, fun a => (congrArg next (same a)).trans (appends _ t), line⟩

theorem after (h : Shows shown trail lined write) (first : Sheet → Sheet)
    (clean : ∀ s, s.notes = [] → (first s).notes = []) :
    Shows shown trail lined fun a s => write a (first s) :=
  fun s own => h (first s) (clean s own)

theorem within (h : Shows shown trail lined write) (inClass : Bool) (names : List String) :
    Shows shown trail lined fun a => Sheet.within inClass names (write a) := by
  intro s clean
  obtain ⟨t, before, between, same, line⟩ := h { s with inClass, scopes := names :: s.scopes } clean
  refine ⟨{ t with inClass := s.inClass, scopes := t.scopes.tail }, before, between, fun a => ?_, line⟩
  simp only [Sheet.within, same]
  rfl

/-- A block, on a sheet that may owe notes to the header: they are written with it. -/
theorem block {inner : Filler → String → Sheet → Sheet}
    (h : ∀ lead, Shows shown trail lined fun a => inner a lead) (d : Dialect) (mode : RecordMode)
    (header : Option Record) (isEmpty : Bool) (first : Sheet → Sheet) :
    Shows shown trail lined fun a s => (first s).block d mode header isEmpty (inner a) := by
  intro s _
  obtain ⟨t, before, between, same, line⟩ := h _ _
    (notes_inner d mode header isEmpty "\n" (first s))
  exact ⟨t.closeBlock d, before, between,
    fun a => (congrArg (closeBlock d) (same a)).trans (appends_closeBlock d _ t), line⟩

end Shows

end Sheet

open Sheet

namespace Piece

theorem notes_append (ps qs : List Piece) : notes (ps ++ qs) = notes ps ++ notes qs := by
  simp [notes]

theorem text_filler (a : Filler) : text (python.exprPieces a.expr) = a.mark := by
  cases a <;> simp [text, Filler.pieces_expr, Filler.notes, inPlace]

theorem notes_filler (a : Filler) : notes (python.exprPieces a.expr) = a.notes := by
  cases a <;> simp [notes, Filler.pieces_expr, Filler.notes]

end Piece

theorem Filler.trail_eq (a : Filler) : Piece.trailText a.notes = a.trail := by
  cases a <;> simp [Piece.trailText, notes, trail]

/-- A line with the filler in it, whose notes follow the end of the line. -/
theorem Around.shows {pieces : Filler → List Piece} (h : Around pieces) {lined : Prop}
    (own : lined → Piece.Lined (pieces (.unknown ""))) (tail : String) (ended : '\n' ∉ tail.toList) :
    Shows Filler.mark Filler.trail lined fun a s => ((s.write (pieces a)).push tail).flush := by
  obtain ⟨front, back, same⟩ := h
  intro s clean
  refine ⟨{ s with output := Piece.trailText (Piece.notes back), notes := [] },
    s.output ++ Piece.text front,
    Piece.text back ++ tail ++ Piece.trailText (Piece.notes front), fun a => ?_, fun line => ?_⟩
  · have text : Piece.text (pieces a) = Piece.text front ++ a.mark ++ Piece.text back := by
      rw [same, Piece.text_append, Piece.text_append, Piece.text_filler]
    have notes : Piece.trailText (Piece.notes (pieces a)) =
        Piece.trailText (Piece.notes front) ++ a.trail ++ Piece.trailText (Piece.notes back) := by
      rw [same, Piece.notes_append, Piece.notes_append, Piece.notes_filler, Piece.trailText_append,
        Piece.trailText_append, a.trail_eq]
    have flushed : ((s.write (pieces a)).push tail).flush = { s with
        output := s.output ++ Piece.text (pieces a) ++ tail ++
          Piece.trailText (Piece.notes (pieces a)),
        notes := [] } := by
      rw [Sheet.write_eq, clean]
      rfl
    simp only [flushed, text, notes, prepend, String.append_assoc]
  · have whole := own line
    rw [same] at whole
    have first : Piece.Lined front := fun p mem => whole p (by simp [mem])
    have second : Piece.Lined back := fun p mem => whole p (by simp [mem])
    simp [second.newline_notMem_text, ended, first.newline_notMem_trailText]

theorem Around.text {pieces : Filler → List Piece} (h : Around pieces) :
    ∃ front back, ∀ a, Piece.text (pieces a) = front ++ a.mark ++ back := by
  obtain ⟨front, back, same⟩ := h
  refine ⟨Piece.text front, Piece.text back, fun a => ?_⟩
  rw [same, Piece.text_append, Piece.text_append, Piece.text_filler]

theorem shows_push {text : Filler → String} {before after : String}
    (same : ∀ a, text a = before ++ a.mark ++ after) :
    Shows Filler.mark (fun _ => "") False fun a s => s.push (text a) := by
  intro s _
  refine ⟨{ s with output := "" }, s.output ++ before, after, fun a => ?_, False.elim⟩
  simp [push, prepend, same, String.append_assoc]

theorem exists_intercalate (separator : String) (before after : List String) :
    ∃ first last, ∀ text, separator.intercalate (before ++ text :: after) = first ++ text ++ last := by
  induction before with
  | nil =>
    cases after with
    | nil => exact ⟨"", "", fun text => by simp⟩
    | cons next rest =>
      refine ⟨"", separator ++ separator.intercalate (next :: rest), fun text => ?_⟩
      rw [List.nil_append, String.intercalate_cons_cons]
      simp [String.append_assoc]
  | cons start before ih =>
    obtain ⟨first, last, same⟩ := ih
    refine ⟨start ++ separator ++ first, last, fun text => ?_⟩
    have joined : separator.intercalate (start :: (before ++ text :: after)) =
        start ++ separator ++ separator.intercalate (before ++ text :: after) := by
      cases before <;> exact String.intercalate_cons_cons
    rw [List.cons_append, joined, same]
    simp only [String.append_assoc]

namespace Expr.Varies

variable {f : Filler → Expr} (h : Varies f) (mode : RecordMode)

include h

theorem shows_line {lined : Prop} (own : lined → (f (.unknown "")).every isLined = true)
    (tail : String) (ended : '\n' ∉ tail.toList) :
    Shows Filler.mark Filler.trail lined
      fun a s => ((s.write (python.exprPieces (f a))).push tail).flush :=
  h.pieces.shows (fun line => python_lined _ (own line)) tail ended

theorem ofAssign_eq (target : Name) (type : BaseType) (a b : Filler) :
    Record.ofAssign { target, value := f a, type } = Record.ofAssign { target, value := f b, type } := by
  simp only [Record.ofAssign, h.container a b]

/-- An assignment owes the notes of its value to the end of its line, in front of its record. -/
theorem shows_assigned {lined : Prop} (own : lined → (f (.unknown "")).every isLined = true)
    (target : Name) (type : BaseType) :
    Shows Filler.mark Filler.trail lined
      fun a => writeStmt python mode (.assign { target, value := f a, type }) := by
  have line := (h.shows_line own "" (by simp)).andThen
    (appends_flush.comp (appends_ending python mode
      (Record.ofAssign { target, value := f (.unknown ""), type })))
  have start := line.after (fun s : Sheet =>
    (if s.inClass then s else (s.declare target.id).2).push (target.id ++ " = ")) ?_
  · refine start.congr fun a s => ?_
    have keyword : ∀ a b, python.keyword a b = none := fun _ _ => rfl
    have typeNote : ∀ a, python.typeNote a = none := fun _ => rfl
    have terminator : python.terminator = "" := rfl
    have bodies : python.bodies = .statements := rfl
    rw [writeStmt, h.ofAssign_eq target type (.unknown "") a]
    simp only [writeAssign, bodies, keyword, typeNote, terminator, record_eq]
    cases s.inClass <;> simp
  · intro s clean
    split
    · exact clean
    · exact (notes_declare s target.id).trans clean

/-- A test owes its notes to the end of the header, behind the colon. -/
theorem shows_test {lined : Prop} (own : lined → (f (.unknown "")).every isLined = true)
    (body orelse : List Stmt) :
    Shows Filler.mark Filler.trail lined fun a => writeStmt python mode (.cond (f a) body orelse) := by
  have deeper : Appends fun s : Sheet => { s with depth := s.depth + 1 } := fun _ _ => rfl
  have rest := (appends_closeBlock python).comp
    ((Appends.body python (fun lead => appends_writeStmts python mode lead body) "\n").comp
      ((appends_fill python body.isEmpty).comp deeper))
  have header := (h.shows_line own ":" (by simp)).after (fun s => s.push "if ") fun _ clean => clean
  refine ((header.andThen rest).andThen (appends_writeOrelse python mode orelse)).congr fun a s => ?_
  exact writeStmt_cond python mode rfl (f a) body orelse s

/-- What a statement says at one of its expressions, unless that is the base of a class. -/
theorem shows_slot (slot : Stmt.Slot) (own : slot.isBase = false) :
    Shows Filler.mark Filler.trail
      ((slot.fill (f (.unknown ""))).every isLined (fun _ => true) = true)
      fun a => writeStmt python mode (slot.fill (f a)) := by
  cases slot with
  | value =>
    refine (h.shows_line Stmt.every_of_fill "" (by simp)).congr fun a s => ?_
    rw [Stmt.Slot.fill, writeStmt]
    rfl
  | printed =>
    refine ((h.plug (.argument (.name ⟨"print", .load⟩) [] [])).shows_line (fun lined => ?_) ""
      (by simp)).congr fun a s => ?_
    · have inner : (f (.unknown "")).every isLined = true := Stmt.every_of_fill lined
      simp [Frame.plug, every, everyAll, isLined, inner]
    · rw [Stmt.Slot.fill, writeStmt]
      rfl
  | assigned target type => exact h.shows_assigned mode Stmt.every_of_fill target type
  | callee args =>
    refine ((h.plug (.callee args)).shows_line (fun lined => ?_) "" (by simp)).congr fun a s => ?_
    · simpa [Stmt.Slot.fill, Stmt.every, Frame.plug, every, isLined] using lined
    · rw [Stmt.Slot.fill, writeStmt]
      rfl
  | argument called before after =>
    refine ((h.plug (.argument called before after)).shows_line (fun lined => ?_) ""
      (by simp)).congr fun a s => ?_
    · simpa [Stmt.Slot.fill, Stmt.every, Frame.plug, every, isLined] using lined
    · rw [Stmt.Slot.fill, writeStmt]
      rfl
  | returned =>
    refine ((h.shows_line Stmt.every_of_fill "" (by simp)).after
      (fun s => (s.push "return").push " ") fun _ clean => clean).congr fun a s => ?_
    rw [Stmt.Slot.fill, writeStmt]
    rfl
  | test body orelse => exact h.shows_test mode Stmt.every_of_fill body orelse
  | base name before after body => cases own

/-- A base of a class is written without its notes. -/
theorem shows_base (name : String) (before after : List Expr) (body : List Stmt) :
    Shows Filler.mark (fun _ => "") False
      fun a => writeStmt python mode (.classDef name (before ++ f a :: after) body) := by
  obtain ⟨front, back, text⟩ := h.pieces.text
  obtain ⟨first, last, joined⟩ := exists_intercalate ", " (before.map python.exprText)
    (after.map python.exprText)
  have header : ∀ a, python.classHeader name ((before ++ f a :: after).map python.exprText) =
      ("class " ++ name ++ "(" ++ first ++ front) ++ a.mark ++ (back ++ last ++ ")") := by
    intro a
    have own : python.exprText (f a) = front ++ a.mark ++ back := text a
    have listed : python.classHeader name ((before ++ f a :: after).map python.exprText) =
        "class " ++ name ++ ("(" ++ ", ".intercalate
          (before.map python.exprText ++ python.exprText (f a) :: after.map python.exprText) ++
            ")") := by
      simp [python, Python.classHeader]
    rw [listed, joined, own]
    simp only [String.append_assoc]
  have inner := (Appends.block python mode (fun lead => appends_writeStmts python mode lead body) none
    body.isEmpty).within true []
  refine ((shows_push header).andThen (appends_flush.comp inner)).congr fun a s => ?_
  have bodies : python.bodies = .statements := rfl
  simp only [writeStmt, bodies]
  rfl

end Expr.Varies

namespace Stmt

/-- A statement varies with what is put at one place of it. -/
structure Varies (mode : RecordMode) (shown trail : Filler → String) (lined : Prop)
    (g : Filler → Stmt) : Prop where
  isCond : ∀ a b, (g a).isCond = (g b).isCond
  shows : Shows shown trail lined fun a => writeStmt python mode (g a)

namespace Varies

variable {mode : RecordMode} {shown trail : Filler → String} {lined : Prop} {g : Filler → Stmt}

theorem list (h : Varies mode shown trail lined g) (before after : List Stmt) (lead : String) :
    Shows shown trail lined fun a => writeStmts python mode lead (before ++ g a :: after) := by
  induction before generalizing lead with
  | nil =>
    refine ((h.shows.after (fun s => (s.push lead).indent python) fun _ clean => clean).andThen
      (appends_writeStmts python mode "\n" after)).congr fun a s => ?_
    rw [List.nil_append, writeStmts]
  | cons s before ih =>
    refine ((ih "\n").after (fun t => writeStmt python mode s ((t.push lead).indent python))
      fun t _ => notes_writeStmt python mode s _).congr fun a t => ?_
    rw [List.cons_append, writeStmts]

theorem shows_function (h : Varies mode shown trail lined g) (f : Signature)
    (before after : List Stmt) :
    Shows shown trail lined
      fun a => writeStmt python mode (.function f (before ++ g a :: after)) := by
  have inner := (Shows.block (h.list before after) python mode (some (Record.ofSignature f)) false
    fun s => s).within false f.paramNames
  refine ((inner.after (fun s => s.push (python.functionHeader f s.inClass))
    fun _ clean => clean).andThen appends_flush).congr fun a s => ?_
  have bodies : python.bodies = .statements := rfl
  have full : (before ++ g a :: after).isEmpty = false := by simp
  simp only [writeStmt, bodies, python_declareEscaping, full]

theorem shows_classDef (h : Varies mode shown trail lined g) (name : String) (bases : List Expr)
    (before after : List Stmt) :
    Shows shown trail lined
      fun a => writeStmt python mode (.classDef name bases (before ++ g a :: after)) := by
  have inner := (Shows.block (h.list before after) python mode none false fun s => s).within true []
  refine ((inner.after (fun s => s.push (python.classHeader name (bases.map python.exprText)))
    fun _ clean => clean).andThen appends_flush).congr fun a s => ?_
  have bodies : python.bodies = .statements := rfl
  have full : (before ++ g a :: after).isEmpty = false := by simp
  simp only [writeStmt, bodies, full]
  rfl

theorem shows_body (h : Varies mode shown trail lined g) (test : Expr)
    (before after orelse : List Stmt) :
    Shows shown trail lined
      fun a => writeStmt python mode (.cond test (before ++ g a :: after) orelse) := by
  refine ((Shows.block (h.list before after) python mode none false
    (openCond python test)).andThen (appends_writeOrelse python mode orelse)).congr fun a s => ?_
  have full : (before ++ g a :: after).isEmpty = false := by simp
  rw [writeStmt_cond python mode rfl, full]

/-- The other branches of a conditional: one that is a conditional itself goes on with the header, all
others are a block. -/
theorem shows_writeOrelse (h : Varies mode shown trail lined g) (before after : List Stmt) :
    Shows shown trail lined fun a => writeOrelse python mode (before ++ g a :: after) := by
  have block := (Shows.block (h.list before after) python mode none false
    (openElse python)).andThen appends_flush
  match before, after with
  | [], [] =>
    cases chained : (g (.unknown "")).isCond with
    | true =>
      refine ((h.shows.after (openElseIf python) fun _ clean => clean).andThen
        appends_flush).congr fun a s => ?_
      have own : (g a).isCond = true := (h.isCond a _).trans chained
      simp only [List.nil_append, writeOrelse, own, if_true]
    | false =>
      refine block.congr fun a s => ?_
      have own : (g a).isCond = false := (h.isCond a _).trans chained
      simp only [List.nil_append, writeOrelse, own, Bool.false_eq_true, if_false, writeStmts]
  | [], next :: rest => exact block
  | [s], after => exact block
  | s :: next :: rest, after => exact block

theorem shows_orelse (h : Varies mode shown trail lined g) (test : Expr)
    (body before after : List Stmt) :
    Shows shown trail lined
      fun a => writeStmt python mode (.cond test body (before ++ g a :: after)) := by
  refine ((h.shows_writeOrelse before after).after (fun s => (openCond python test s).block python
    mode none body.isEmpty fun lead s => writeStmts python mode lead body s) fun s _ => ?_).congr
      fun a s => ?_
  · exact notes_block python mode (fun lead => notes_writeStmts python mode lead body) none _ _
  · exact writeStmt_cond python mode rfl test body _ s

theorem plug (h : Varies mode shown trail lined g) (frame : Frame) :
    Varies mode shown trail lined fun a => frame.plug (g a) where
  isCond a b := by cases frame <;> rfl
  shows := by
    cases frame with
    | function f before after => exact h.shows_function f before after
    | classDef name bases before after => exact h.shows_classDef name bases before after
    | body test before after others => exact h.shows_body test before after others
    | orelse test first before after => exact h.shows_orelse test first before after

theorem plugAll (h : Varies mode shown trail lined g) (frames : List Frame) :
    Varies mode shown trail lined fun a => Stmt.plugAll frames (g a) := by
  induction frames with
  | nil => exact h
  | cons frame frames ih => exact ih.plug frame

/-- The text of a program varies as its statement does. -/
theorem render (h : Varies mode shown trail lined g) (place : Place) :
    ∃ before between after,
      (∀ a, Dialect.render python mode (place.fill (g a)) =
        before ++ shown a ++ between ++ trail a ++ after) ∧
      (lined → '\n' ∉ between.toList) := by
  obtain ⟨t, before, between, same, line⟩ :=
    (h.plugAll place.frames).list place.before place.after "" {} rfl
  refine ⟨before, between, t.output, fun a => ?_, line⟩
  have whole : writeProgram python mode (place.fill (g a)) {} = writeStmts python mode ""
      (place.before ++ Stmt.plugAll place.frames (g a) :: place.after) {} := by
    rw [writeProgram, python_declareEscaping]
    rfl
  exact congrArg Sheet.output (whole.trans (same a))

/-- The text of a program where all of what varies is at one place. -/
theorem render_shown (h : Varies mode shown (fun _ => "") lined g) (place : Place) :
    ∃ before after, ∀ a,
      Dialect.render python mode (place.fill (g a)) = before ++ shown a ++ after := by
  obtain ⟨before, between, after, same, -⟩ := h.render place
  refine ⟨before, between ++ after, fun a => (same a).trans ?_⟩
  simp only [String.append_empty, String.append_assoc]

end Varies

theorem varies_filler (mode : RecordMode) :
    Varies mode Filler.line (fun _ => "") False Filler.stmt where
  isCond a b := by cases a <;> cases b <;> rfl
  shows := by
    intro s clean
    refine ⟨{ s with output := "" }, s.output, "", fun a => ?_, False.elim⟩
    cases a with
    | unknown description =>
      have words : "pass  # unknown: " = "pass  " ++ "# unknown: " := rfl
      have text : python.unknownStmt description = "pass  # unknown: " ++ oneLine description := by
        rw [words, String.append_assoc]
        rfl
      simp [Filler.stmt, writeStmt, text, push, flush, prepend, clean]
    | name n =>
      have terminator : python.terminator = "" := rfl
      simp [Filler.stmt, writeStmt, exprPieces, terminator, write, put, push, flush, prepend, clean]

end Stmt

namespace Expr

theorem Varies.stmt {f : Filler → Expr} (h : Varies f) (mode : RecordMode) (slot : Stmt.Slot)
    (own : slot.isBase = false) :
    Stmt.Varies mode Filler.mark Filler.trail
      ((slot.fill (f (.unknown ""))).every isLined (fun _ => true) = true)
      fun a => slot.fill (f a) where
  isCond a b := by cases slot <;> rfl
  shows := h.shows_slot mode slot own

theorem Varies.base {f : Filler → Expr} (h : Varies f) (mode : RecordMode) (slot : Stmt.Slot)
    (own : slot.isBase = true) :
    Stmt.Varies mode Filler.mark (fun _ => "") False fun a => slot.fill (f a) where
  isCond a b := by cases slot <;> rfl
  shows := by
    cases slot with
    | base name before after body => exact h.shows_base mode name before after body
    | _ => cases own

def isUnknown : Expr → Bool
  | unknown _ => true
  | _ => false

end Expr

def Stmt.isUnknown : Stmt → Bool
  | unknown _ => true
  | _ => false

/-- Whether there is nothing unknown in a program. -/
def Program.isKnown (p : Program) : Bool :=
  p.every (fun e => !e.isUnknown) fun s => !s.isUnknown

theorem Program.exists_unknown {p : Program} (h : p.isKnown = false) :
    (∃ (place : Stmt.Place) (description : String), p = place.fill (.unknown description)) ∨
    ∃ (place : Expr.Place) (description : String), p = place.fill (.unknown description) := by
  rcases p.exists_place h with ⟨place, s, rfl, fails⟩ | ⟨place, e, rfl, fails⟩
  · cases s with
    | unknown description => exact .inl ⟨place, description, rfl⟩
    | _ => cases fails
  · cases e with
    | unknown description => exact .inr ⟨place, description, rfl⟩
    | _ => cases fails

/-- What is unknown in a program is at a place. An unknown expression is written as a placeholder, with its
description further on, on the same line unless a name breaks it; an unknown statement is written with
its description; nothing else changes with them. Only the description of what stands in a base of a
class is nowhere in the text. -/
theorem Dialect.python_unknowns (mode : RecordMode) :
    (∀ p : Program, p.isKnown = false →
      (∃ (place : Stmt.Place) (description : String), p = place.fill (.unknown description)) ∨
      ∃ (place : Expr.Place) (description : String), p = place.fill (.unknown description)) ∧
    (∀ place : Stmt.Place, ∃ before after,
      (∀ description, render python mode (place.fill (.unknown description)) =
        before ++ "pass  # unknown: " ++ oneLine description ++ after) ∧
      ∀ n, render python mode (place.fill (.expr (.name n))) = before ++ n.id ++ after) ∧
    (∀ place : Expr.Place, place.slot.isBase = false → ∃ before between after,
      (∀ description, render python mode (place.fill (.unknown description)) =
        before ++ "None" ++ between ++ "  # unknown: " ++ oneLine description ++ after) ∧
      (∀ n, render python mode (place.fill (.name n)) = before ++ n.id ++ between ++ after) ∧
      ((place.fill (.unknown "")).every Expr.isLined (fun _ => true) = true →
        '\n' ∉ between.toList)) ∧
    ∀ place : Expr.Place, place.slot.isBase = true → ∃ before after,
      (∀ description, render python mode (place.fill (.unknown description)) =
        before ++ "None" ++ after) ∧
      ∀ n, render python mode (place.fill (.name n)) = before ++ n.id ++ after := by
  refine ⟨fun p => Program.exists_unknown, fun place => ?_, fun place own => ?_, fun place own => ?_⟩
  · obtain ⟨before, after, same⟩ := (Stmt.varies_filler mode).render_shown place
    refine ⟨before, after, fun description => (same (.unknown description)).trans ?_,
      fun n => same (.name n)⟩
    simp only [Filler.line_unknown, String.append_assoc]
  · obtain ⟨before, between, after, same, line⟩ :=
      ((Expr.Varies.plugAll place.inner).stmt mode place.slot own).render place.toPlace
    refine ⟨before, between, after, fun description => (same (.unknown description)).trans ?_,
      fun n => (same (.name n)).trans ?_, fun lined => line (Stmt.Place.every_of_fill lined)⟩
    · have words : "  # unknown: " = "  " ++ "# unknown: " := rfl
      have note : Filler.trail (.unknown description) = "  # unknown: " ++ oneLine description := by
        rw [words, String.append_assoc]
        rfl
      simp only [Filler.mark, note, String.append_assoc]
    · simp only [Filler.mark, Filler.trail, String.append_empty]
  · obtain ⟨before, after, same⟩ :=
      ((Expr.Varies.plugAll place.inner).base mode place.slot own).render_shown place.toPlace
    exact ⟨before, after, fun description => same (.unknown description), fun n => same (.name n)⟩

/-- The second argument of a call in an assignment with a record, in a branch of a method. Its first
argument is unknown too. -/
def branchPlace : Expr.Place where
  before := []
  frames := [.classDef "C" [] [] [], .function { name := "m", params := [] } [] [.ret none],
    .orelse (.load "a") [] [] []]
  after := []
  slot := .assigned ⟨"x", .store⟩ .number
  inner := [.left .add (.lit (.int 1)), .argument (.load "f") [.unknown "first"] []]

theorem Dialect.python_unknowns_branch :
    render python .inline (branchPlace.fill (.unknown "not\n  here")) =
      "class C:\n    def m(self):\n        if a:\n            pass\n        else:\n" ++
      "            x = f(None, None) + 1  # unknown: first  # unknown: not here" ++
      " # __META__: \x7b\"variableType\":\"number\"\x7d\n        return" ∧
    branchPlace.slot.isBase = false ∧
    (branchPlace.fill (.unknown "")).every Expr.isLined (fun _ => true) = true ∧
    ∃ before between after,
      (∀ description, render python .inline (branchPlace.fill (.unknown description)) =
        before ++ "None" ++ between ++ "  # unknown: " ++ oneLine description ++ after) ∧
      '\n' ∉ between.toList := by
  have lined : (branchPlace.fill (.unknown "")).every Expr.isLined (fun _ => true) = true := by
    decide
  obtain ⟨-, -, noted, -⟩ := python_unknowns .inline
  obtain ⟨before, between, after, written, -, line⟩ := noted branchPlace rfl
  exact ⟨by decide +kernel, rfl, lined, before, between, after, written, line lined⟩

/-- A class with an unknown base: there is no description in its text. -/
theorem Dialect.python_unknowns_base :
    render python .inline ⟨[.classDef "A" [.unknown "call"] []]⟩ = "class A(None):\n    pass" ∧
    render python .sidecar ⟨[.classDef "A" [.unknown "call"] []]⟩ = "class A(None):\n    pass" := by
  decide +kernel

end Interlingua
