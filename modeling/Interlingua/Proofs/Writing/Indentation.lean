import Interlingua.Proofs.Syntax.Flush
import Interlingua.Proofs.Writing.Nesting

/-!
# Written blocks are found again

A program whose names are solid and whose texts have no long quotes in them is written so that its
indentation says where its blocks are: taken apart again, the text gives the block tokens of the
program, and it is indented as it would be. No line is taken for a comment, for a part of another line
or for a part of a string over several lines, whatever notes stand at its end.
-/

namespace Interlingua

open Text

/-- Whether a name can stand at any place of a line. -/
def isSolid (id : String) : Bool :=
  !id.toList.isEmpty && id.toList.all fun c => !isBlank c && c ≠ '"' && c ≠ '\'' && c ≠ '#'

/-- Whether a text has no long quotes in it. -/
def isQuiet (text : String) : Bool :=
  ¬ ['"', '"', '"'] <:+: text.toList && ¬ ['\'', '\'', '\''] <:+: text.toList

/-- Whether a literal has no long quotes in it as it is written: single quotes are escaped. -/
def Literal.isQuiet : Literal → Bool
  | .str s => ¬ ['"', '"', '"'] <:+: s.toList
  | _ => true

/-- Whether what an expression itself says stays on its line. -/
def Expr.isQuiet : Expr → Bool
  | .name n => isSolid n.id
  | .member _ property => isSolid property
  | .const value _ => value.isQuiet
  | .unknown description => Interlingua.isQuiet description
  | _ => true

/-- Whether what a statement itself says stays on its line. -/
def Stmt.isQuiet : Stmt → Bool
  | .assign a => isSolid a.target.id
  | .function f _ => isSolid f.name && f.paramNames.all isSolid
  | .classDef name _ _ => isSolid name
  | .unknown description => Interlingua.isQuiet description
  | _ => true

/-- Whether everything a program says stays on its line. -/
def Program.isQuiet (p : Program) : Bool :=
  p.every Expr.isQuiet Stmt.isQuiet

namespace Layout

/-- A character that separates quotes and stays on its line. -/
def isMute (c : Char) : Bool :=
  isPlainChar c && c ≠ '\n' && c ≠ '\r'

namespace Opens

variable {xs : List Char}

theorem append (h : Opens xs) (ys : List Char) : Opens (xs ++ ys) := by
  obtain ⟨c, rest, rfl, visible⟩ := h
  exact ⟨c, rest ++ ys, rfl, visible⟩

theorem of_head (h : xs.head?.any (fun c => !isBlank c && c ≠ '#') = true) : Opens xs := by
  cases xs with
  | nil => cases h
  | cons c rest => exact ⟨c, rest, rfl, by simpa using h⟩

end Opens

namespace Inline

variable {xs ys f : List Char}

theorem of_mute (mute : f.all isMute = true) : Inline f := by
  have chars : ∀ c ∈ f, isPlainChar c = true ∧ c ≠ '\n' ∧ c ≠ '\r' := by
    simpa [isMute, and_assoc] using mute
  exact ⟨short_of_plain (List.all_eq_true.2 fun c mem => (chars c mem).1),
    fun mem => (chars _ mem).2.1 rfl, fun mem => (chars _ mem).2.2 rfl⟩

/-- Texts with something mute between them. -/
theorem join (hx : Inline xs) (mute : f.all isMute = true) (full : f ≠ []) (hy : Inline ys) :
    Inline (xs ++ f ++ ys) where
  short := by
    obtain ⟨c, rest, rfl⟩ := List.exists_cons_of_ne_nil full
    simp only [List.all_cons, isMute, Bool.and_eq_true, List.all_eq_true] at mute
    obtain ⟨⟨⟨first, _⟩, _⟩, others⟩ := mute
    have plain : rest.all isPlainChar = true := List.all_eq_true.2 fun d mem => (others d mem).1.1
    rw [List.append_assoc]
    exact short_append_cons first hx.short (short_append plain hy.short)
  newline := by simp [hx.newline, (of_mute mute).newline, hy.newline]
  carriage := by simp [hx.carriage, (of_mute mute).carriage, hy.carriage]

theorem mute_append (mute : f.all isMute = true) (hy : Inline ys) : Inline (f ++ ys) := by
  by_cases full : f = []
  · simpa [full] using hy
  · exact (of_mute (f := []) rfl).join mute full hy

theorem append_mute (hx : Inline xs) (mute : f.all isMute = true) : Inline (xs ++ f) := by
  by_cases full : f = []
  · simpa [full] using hx
  · have joined := join hx mute full (of_mute (f := []) rfl)
    rwa [List.append_nil] at joined

theorem commas {texts : List (List Char)} (h : ∀ t ∈ texts, Inline t) :
    Inline (Interlingua.commas texts) := by
  induction texts with
  | nil => exact of_mute rfl
  | cons t rest ih =>
    obtain ⟨first, others⟩ := List.forall_mem_cons.1 h
    cases rest with
    | nil => simpa [Interlingua.commas] using first
    | cons next rest =>
      have joined := join (f := ", ".toList) first (by decide) (by decide) (ih others)
      simpa [Interlingua.commas] using joined

/-- A text with notes at its end. -/
theorem append_trail (hx : Inline xs) {notes : List String} (h : ∀ note ∈ notes, Inline note.toList) :
    Inline (xs ++ Piece.trail notes) := by
  induction notes generalizing xs with
  | nil => simpa [Piece.trail] using hx
  | cons note notes ih =>
    obtain ⟨first, others⟩ := List.forall_mem_cons.1 h
    have joined := join (f := "  ".toList) hx (by decide) (by decide) (ih first others)
    simpa [Piece.trail] using joined

end Inline

theorem Standing.of_forall {text : List Char} (full : text ≠ [])
    (h : ∀ c ∈ text, isMute c = true ∧ isBlank c = false ∧ c ≠ '#') : Standing text where
  toInline := .of_mute (List.all_eq_true.2 fun c mem => (h c mem).1)
  opens := by
    obtain ⟨c, rest, rfl⟩ := List.exists_cons_of_ne_nil full
    exact ⟨c, rest, rfl, (h c (by simp)).2⟩

/-- A line with something mute in front of it. -/
theorem Standing.led {lead text : List Char} (mute : lead.all isMute = true) (opens : Opens lead)
    (h : Standing text) : Standing (lead ++ text) :=
  ⟨h.mute_append mute, opens.append text⟩

/-- A line with pieces in it, of which the first words can open a line. -/
theorem Standing.line {front back : String} {pieces : List Piece}
    (text : Inline (Piece.text pieces).toList)
    (notes : ∀ note ∈ Piece.notes pieces, Inline note.toList)
    (mute : front.toList.all isMute = true) (ended : back.toList.all isMute = true)
    (opens : Opens (front.toList ++ (Piece.text pieces).toList)) :
    Standing (Piece.line front pieces back) where
  toInline := ((text.mute_append mute).append_mute ended).append_trail notes
  opens := (opens.append back.toList).append (Piece.trail (Piece.notes pieces))

namespace Item

theorem standing_line {depth : Nat} {text : List Char} (h : Standing text) :
    ∀ l ∈ linesAll depth [line text], Standing l.text := by
  simpa [linesAll, lines] using h

theorem standing_append {depth : Nat} {is js : List Item}
    (first : ∀ l ∈ linesAll depth is, Standing l.text)
    (second : ∀ l ∈ linesAll depth js, Standing l.text) :
    ∀ l ∈ linesAll depth (is ++ js), Standing l.text := by
  rw [linesAll_append]
  exact List.forall_mem_append.2 ⟨first, second⟩

theorem standing_under {depth : Nat} {header : List Char} {items : List Item} (h : Standing header)
    (inner : ∀ l ∈ linesAll (depth + 1) items, Standing l.text) :
    ∀ l ∈ linesAll depth [under header items], Standing l.text := by
  have pass : Standing "pass".toList := ⟨.of_mute (by decide), .of_head (by decide)⟩
  rw [linesAll, linesAll, List.append_nil, lines_under]
  refine List.forall_mem_cons.2 ⟨h, ?_⟩
  cases items with
  | nil => simpa [blockLines] using pass
  | cons first rest => exact inner

theorem standing_led {depth : Nat} {lead : List Char} {items : List Item}
    (mute : lead.all isMute = true) (opens : Opens lead)
    (h : ∀ l ∈ linesAll depth items, Standing l.text) :
    ∀ l ∈ linesAll depth (led lead items), Standing l.text := by
  cases items with
  | nil => exact h
  | cons item items =>
    cases item with
    | line text =>
      obtain ⟨first, others⟩ := List.forall_mem_cons.1 h
      exact List.forall_mem_cons.2 ⟨first.led mute opens, others⟩
    | block header first rest =>
      obtain ⟨own, others⟩ := List.forall_mem_cons.1 h
      exact List.forall_mem_cons.2 ⟨own.led mute opens, others⟩

end Item

end Layout

open Layout

section

variable {id : String} (solid : isSolid id = true)

include solid

theorem mem_of_isSolid {c : Char} (mem : c ∈ id.toList) :
    isMute c = true ∧ isBlank c = false ∧ c ≠ '#' := by
  have own := List.all_eq_true.1 ((Bool.and_eq_true _ _).mp solid).2 c mem
  have newline : c ≠ '\n' := by
    rintro rfl
    exact absurd own (by decide)
  have carriage : c ≠ '\r' := by
    rintro rfl
    exact absurd own (by decide)
  simp_all [isMute, isPlainChar]

theorem isMute_of_isSolid : id.toList.all isMute = true :=
  List.all_eq_true.2 fun _ mem => (mem_of_isSolid solid mem).1

theorem standing_of_isSolid : Standing id.toList :=
  .of_forall (by simpa using ((Bool.and_eq_true _ _).mp solid).1) fun _ mem =>
    mem_of_isSolid solid mem

end

/-- A description without long quotes has none on one line. -/
theorem inline_unknownNote {description : String} (h : isQuiet description = true) :
    Inline (Dialect.Python.unknownNote description).toList := by
  simp only [isQuiet, Bool.and_eq_true, decide_eq_true_eq] at h
  have text : (Dialect.Python.unknownNote description).toList =
      "# unknown: ".toList ++ collapse description.toList := by
    simp [Dialect.Python.unknownNote, oneLine]
  have broken : ∀ c ∈ collapse description.toList, c ≠ '\n' ∧ c ≠ '\r' := by
    intro c mem
    rcases eq_space_or_of_mem_collapse mem with rfl | visible
    · decide
    · constructor
      · rintro rfl
        exact absurd visible (by decide)
      · rintro rfl
        exact absurd visible (by decide)
  have collapsed : Inline (collapse description.toList) := by
    refine ⟨fun quote mem occurs => ?_, fun mem => (broken _ mem).1 rfl,
      fun mem => (broken _ mem).2 rfl⟩
    simp only [longQuotes, List.mem_cons, List.not_mem_nil, or_false] at mem
    rcases mem with rfl | rfl
    · exact h.1 (infix_of_infix_collapse (by decide) (by decide) occurs)
    · exact h.2 (infix_of_infix_collapse (by decide) (by decide) occurs)
  exact text ▸ collapsed.mute_append (by decide)

namespace Literal

theorem standing_numeral {value : Literal} (h : value.baseType = .number) :
    Standing value.numeral := by
  refine .of_forall (numeral_ne_nil h) fun c mem => ?_
  have own := isNumeralChar_of_mem mem
  simp only [isNumeralChar, Bool.or_eq_true, decide_eq_true_eq] at own
  rcases own with (word | rfl) | rfl
  · have other : ∀ d : Char, isWordChar d = false → c ≠ d := fun d => ne_of_isWordChar word
    simp [isMute, isPlainChar, isBlank_of_isWordChar word, other '"' rfl, other '\'' rfl,
      other '\n' rfl, other '\r' rfl, other '#' rfl]
  · decide
  · decide

theorem standing_python {value : Literal} (h : value.isQuiet = true) :
    Standing (Dialect.python.literal value).toList := by
  cases value with
  | str s =>
    have text : (Dialect.python.literal (.str s)).toList = quote '\'' s.toList :=
      String.toList_ofList
    have short : Short (quote '\'' s.toList) := short_quote (by simpa [isQuiet] using h)
    rw [text]
    exact ⟨⟨short, notMem_quote (.inl rfl) (by decide) _, notMem_quote (.inr rfl) (by decide) _⟩,
      '\'', _, rfl, by decide, by decide⟩
  | bool b => cases b <;> exact ⟨.of_mute (by decide), .of_head (by decide)⟩
  | null => exact ⟨.of_mute (by decide), .of_head (by decide)⟩
  | int n =>
    have text : (Dialect.python.literal (.int n)).toList = (int n).numeral := String.toList_ofList
    exact text ▸ standing_numeral rfl
  | float x =>
    have text : (Dialect.python.literal (.float x)).toList = (float x).numeral := String.toList_ofList
    exact text ▸ standing_numeral rfl

end Literal

/-- Pieces that stay on their line, with all they owe to its end. -/
structure Piece.Quiet (pieces : List Piece) : Prop where
  text : Inline (Piece.text pieces).toList
  notes : ∀ note ∈ Piece.notes pieces, Inline note.toList

/-- Whether a piece is a token that separates quotes. -/
def Piece.isMute (piece : Piece) : Bool :=
  !piece.inPlace.toList.isEmpty && piece.inPlace.toList.all Layout.isMute

namespace Piece.Quiet

variable {ps qs : List Piece}

theorem nil : Quiet [] :=
  ⟨.of_mute rfl, by simp [Piece.notes]⟩

theorem token {text : String} (h : Inline text.toList) : Quiet [.token text] :=
  ⟨by simpa [Piece.text, inPlace] using h, by simp [Piece.notes]⟩

/-- Pieces with a mute one between them. -/
theorem join (hp : Quiet ps) {p : Piece} (mute : p.isMute = true) (hq : Quiet qs) :
    Quiet (ps ++ p :: qs) := by
  simp only [isMute, Bool.and_eq_true, Bool.not_eq_true', List.isEmpty_eq_false_iff] at mute
  have text : (Piece.text (ps ++ p :: qs)).toList =
      (Piece.text ps).toList ++ p.inPlace.toList ++ (Piece.text qs).toList := by
    simp [Piece.text]
  have notes : Piece.notes (ps ++ p :: qs) = Piece.notes ps ++ Piece.notes qs := by
    cases p with
    | note text => exact absurd rfl mute.1
    | _ => simp [Piece.notes]
  refine ⟨text ▸ hp.text.join mute.2 mute.1 hq.text, notes ▸ ?_⟩
  exact List.forall_mem_append.2 ⟨hp.notes, hq.notes⟩

theorem group (needed : Bool) (h : Quiet ps) : Quiet (Piece.group needed ps) := by
  cases needed with
  | false => exact h
  | true => exact (nil.join (p := .token "(") (by decide) h).join (by decide) nil

end Piece.Quiet

namespace Dialect

open Piece

/-- No name has another spelling where it is called. -/
theorem python_call (callee : Expr) (args : List Expr) :
    python.exprPieces (.call callee args) =
      operand Expr.atom callee (python.exprPieces callee)
        ++ .token "(" :: python.listedPieces args ++ [.token ")"] := by
  have listed : python.application = .listed := rfl
  cases callee with
  | name n =>
    have same : python.functionName n.id = n.id := by
      rw [functionName]
      split
      · rename_i print
        exact print.symm
      · rfl
    simp only [exprPieces, same, listed]
    rfl
  | _ => simp only [exprPieces, listed, List.append_assoc]

mutual

theorem python_quiet (e : Expr) (h : e.every Expr.isQuiet = true) : Quiet (python.exprPieces e) :=
  match e with
  | .call callee args => by
    simp only [Expr.every, Bool.and_eq_true] at h
    have called := (python_quiet callee h.1.2).group (callee.strength < Expr.atom)
    have listed := (called.join (p := .token "(") (by decide) (python_quietAll args h.2)).join
      (p := .token ")") (by decide) .nil
    exact python_call callee args ▸ listed
  | .name n => .token (standing_of_isSolid (by simpa [Expr.every, Expr.isQuiet] using h)).toInline
  | .const value _ => .token (Literal.standing_python (by simpa [Expr.every, Expr.isQuiet] using h)).toInline
  | .member object property => by
    simp only [Expr.every, Bool.and_eq_true] at h
    have front := (python_quiet object h.2).group (object.strength < Expr.atom)
    exact front.join (p := .token ".") (by decide) (.token (standing_of_isSolid h.1).toInline)
  | .binary left op right => by
    simp only [Expr.every, Bool.and_eq_true] at h
    have symbol : Quiet [.token (python.binarySymbol op)] :=
      .token (.of_mute (by cases op <;> decide))
    have front := (python_quiet left h.1.2).group (left.strength < op.strength)
    have back := (python_quiet right h.2).group (right.strength < op.strength + 1)
    have joined := (front.join (p := .gap) (by decide) symbol).join (p := .gap) (by decide) back
    simpa [exprPieces, operand] using joined
  | .compare left op right => by
    simp only [Expr.every, Bool.and_eq_true] at h
    have symbol : Quiet [.token (python.compareSymbol op)] :=
      .token (.of_mute (by cases op <;> decide))
    have front := (python_quiet left h.1.2).group (left.strength < CompareOp.strength + 1)
    have back := (python_quiet right h.2).group (right.strength < CompareOp.strength + 1)
    have joined := (front.join (p := .gap) (by decide) symbol).join (p := .gap) (by decide) back
    simpa [exprPieces, operand] using joined
  | .list elements _ _ => by
    simp only [Expr.every, Bool.and_eq_true] at h
    exact (Quiet.nil.join (p := .token "[") (by decide) (python_quietAll elements h.2)).join
      (p := .token "]") (by decide) .nil
  | .tuple elements _ => by
    simp only [Expr.every, Bool.and_eq_true] at h
    have ending : Piece.isMute (.token (python.tupleClose elements.length)) = true := by
      change Piece.isMute (.token (if elements.length = 1 then ",)" else ")")) = true
      split <;> decide
    exact (Quiet.nil.join (p := .token "(") (by decide) (python_quietAll elements h.2)).join
      ending .nil
  | .unknown description => by
    have note := inline_unknownNote (by simpa [Expr.every, Expr.isQuiet] using h)
    have text : Piece.text (python.exprPieces (.unknown description)) = "None" := rfl
    exact ⟨text ▸ .of_mute (by decide), by simpa [exprPieces, python, notes] using note⟩

theorem python_quietAll (es : List Expr) (h : Expr.everyAll Expr.isQuiet es = true) :
    Quiet (python.listedPieces es) :=
  match es with
  | [] => .nil
  | [e] => by
    simp only [Expr.everyAll, Bool.and_eq_true] at h
    exact python_quiet e h.1
  | e :: next :: rest => by
    rw [Expr.everyAll, Bool.and_eq_true] at h
    have others := Quiet.nil.join (p := .gap) (by decide) (python_quietAll (next :: rest) h.2)
    exact (python_quiet e h.1).join (p := .token ",") (by decide) others

end

theorem opens_append {p : List Piece} (h : Opens (Piece.text p).toList) (rest : List Piece) :
    Opens (Piece.text (p ++ rest)).toList := by
  rw [Piece.text_append, String.toList_append]
  exact h.append _

theorem opens_operand {e : Expr} (least : Nat) (h : Opens (python.exprText e).toList) :
    Opens (Piece.text (operand least e (python.exprPieces e))).toList := by
  rw [operand, group]
  split
  · exact .of_head (by simp [Piece.text, inPlace]; decide)
  · exact h

theorem python_opens (e : Expr) (h : e.every Expr.isQuiet = true) :
    Opens (python.exprText e).toList :=
  match e with
  | .call callee args => by
    simp only [Expr.every, Bool.and_eq_true] at h
    have called := opens_operand Expr.atom (python_opens callee h.1.2)
    rw [exprText, python_call]
    exact opens_append (opens_append called _) _
  | .name n => by
    have own := (standing_of_isSolid (by simpa [Expr.every, Expr.isQuiet] using h)).opens
    simpa [exprText, exprPieces, Piece.text, inPlace] using own
  | .const value _ => by
    have own := (Literal.standing_python (by simpa [Expr.every, Expr.isQuiet] using h)).opens
    simpa [exprText, exprPieces, Piece.text, inPlace] using own
  | .member object property => by
    simp only [Expr.every, Bool.and_eq_true] at h
    exact opens_append (opens_operand Expr.atom (python_opens object h.2)) _
  | .binary left op right => by
    simp only [Expr.every, Bool.and_eq_true] at h
    rw [exprText, exprPieces]
    exact opens_append (opens_append (opens_operand op.strength (python_opens left h.1.2)) _) _
  | .compare left op right => by
    simp only [Expr.every, Bool.and_eq_true] at h
    rw [exprText, exprPieces]
    exact opens_append (opens_append (opens_operand _ (python_opens left h.1.2)) _) _
  | .list _ _ _ => opens_append (p := [.token "["]) (.of_head (by decide)) _
  | .tuple _ _ => opens_append (p := [.token "("]) (.of_head (by decide)) _
  | .unknown _ => opens_append (p := [.token "None"]) (.of_head (by decide)) _

/-- A line with an expression in it, after nothing or after a word. -/
theorem python_standing {e : Expr} (h : e.every Expr.isQuiet = true) {front back : String}
    (mute : front.toList.all Layout.isMute = true) (ended : back.toList.all Layout.isMute = true)
    (starts : front = "" ∨ Opens front.toList) :
    Standing (Piece.line front (python.exprPieces e) back) := by
  have quiet := python_quiet e h
  refine .line quiet.text quiet.notes mute ended ?_
  rcases starts with rfl | opens
  · exact python_opens e h
  · exact opens.append _

theorem python_functionHeader {f : Signature} (inClass : Bool) (name : isSolid f.name = true)
    (params : f.paramNames.all isSolid = true) :
    Standing (python.functionHeader f inClass ++ ":").toList := by
  have names : ∀ id ∈ Untyped.python.paramNames inClass f, Inline id.toList := by
    intro id mem
    refine (standing_of_isSolid ?_).toInline
    have known : id = "self" ∨ id ∈ f.paramNames := by
      cases inClass <;> simp_all [Untyped.paramNames]
    rcases known with rfl | param
    · decide
    · exact List.all_eq_true.1 params id param
  have listed : Inline (commas ((Untyped.python.paramNames inClass f).map String.toList)) :=
    .commas (List.forall_mem_map.2 names)
  have header : (python.functionHeader f inClass ++ ":").toList = "def ".toList ++ (f.name.toList
      ++ "(".toList ++ commas ((Untyped.python.paramNames inClass f).map String.toList)
      ++ "):".toList) := by
    have known := Untyped.functionHeader_eq .python inClass f
    change (python.functionHeader f inClass).toList = _ at known
    simp [known, Untyped.functionWord]
  have named : Inline f.name.toList := (standing_of_isSolid name).toInline
  have whole := (named.join (f := "(".toList) (by decide) (by decide) listed).append_mute
    (f := "):".toList) (by decide)
  rw [header]
  exact ⟨whole.mute_append (by decide), .append (.of_head (by decide)) _⟩

theorem python_classHeader {name : String} {bases : List Expr} (solid : isSolid name = true)
    (h : Expr.everyAll Expr.isQuiet bases = true) :
    Standing (python.classHeader name (bases.map python.exprText) ++ ":").toList := by
  have named : Inline name.toList := (standing_of_isSolid solid).toInline
  have listed : Inline (commas (bases.map fun base => (python.exprText base).toList)) :=
    .commas (List.forall_mem_map.2 fun base mem =>
      (python_quiet base ((Expr.everyAll_iff _ _).1 h base mem)).text)
  have header : (python.classHeader name (bases.map python.exprText) ++ ":").toList =
      "class ".toList ++ (name.toList ++ if bases.isEmpty then ":".toList else
        "(".toList ++ commas (bases.map fun base => (python.exprText base).toList)
          ++ "):".toList) := by
    change (Python.classHeader name (bases.map python.exprText) ++ ":").toList = _
    cases bases <;> simp [Python.classHeader, commas, Function.comp_def]
  rw [header]
  refine ⟨.mute_append (by decide) ?_, .append (.of_head (by decide)) _⟩
  split
  · exact named.append_mute (by decide)
  · rw [← List.append_assoc, ← List.append_assoc]
    exact (named.join (by decide) (by decide) listed).append_mute (by decide)

mutual

theorem python_items (s : Stmt) (h : s.every Expr.isQuiet Stmt.isQuiet = true) (inClass : Bool)
    (depth : Nat) : ∀ l ∈ Item.linesAll depth (s.items inClass), Standing l.text :=
  match s with
  | .expr value => by
    simp only [Stmt.every, Bool.and_eq_true] at h
    exact Item.standing_line (python_standing h.2 rfl rfl (.inl rfl))
  | .print value => by
    simp only [Stmt.every, Bool.and_eq_true] at h
    have printed : (Expr.call (.load "print") [value]).every Expr.isQuiet = true := by
      simp [Expr.every, Expr.everyAll, Expr.isQuiet, Expr.load, h.2]
      decide
    exact Item.standing_line (python_standing printed rfl rfl (.inl rfl))
  | .call callee args => by
    simp only [Stmt.every, Bool.and_eq_true] at h
    have called : (Expr.call callee args).every Expr.isQuiet = true := by
      simp [Expr.every, Expr.isQuiet, h]
    exact Item.standing_line (python_standing called rfl rfl (.inl rfl))
  | .ret none => by
    exact Item.standing_line ⟨.of_mute (by decide), .of_head (by decide)⟩
  | .ret (some value) => by
    simp only [Stmt.every, Bool.and_eq_true] at h
    exact Item.standing_line (python_standing h.2 (by decide) rfl (.inr (.of_head (by decide))))
  | .unknown description => by
    have text : (python.unknownStmt description).toList =
        "pass  ".toList ++ (Python.unknownNote description).toList := by
      simp [python]
    have note := inline_unknownNote (by simpa [Stmt.every, Stmt.isQuiet] using h)
    refine Item.standing_line (text ▸ ?_)
    exact ⟨note.mute_append (by decide), .append (.of_head (by decide)) _⟩
  | .assign a => by
    simp only [Stmt.every, Bool.and_eq_true, Stmt.isQuiet] at h
    have target := standing_of_isSolid h.1
    have mute : (a.target.id ++ " = ").toList.all Layout.isMute = true := by
      have sign : " = ".toList.all Layout.isMute = true := by decide
      rw [String.toList_append, List.all_append, isMute_of_isSolid h.1, sign]
      rfl
    have opens : Opens (a.target.id ++ " = ").toList := by
      rw [String.toList_append]
      exact target.opens.append _
    exact Item.standing_line (python_standing h.2 mute rfl (.inr opens))
  | .function f body => by
    simp only [Stmt.every, Bool.and_eq_true, Stmt.isQuiet] at h
    exact Item.standing_under (python_functionHeader inClass h.1.1 h.1.2)
      (python_itemsAll body h.2 false (depth + 1))
  | .classDef name bases body => by
    simp only [Stmt.every, Bool.and_eq_true, Stmt.isQuiet] at h
    exact Item.standing_under (python_classHeader h.1.1 h.1.2)
      (python_itemsAll body h.2 true (depth + 1))
  | .cond test body orelse => by
    simp only [Stmt.every, Bool.and_eq_true] at h
    have header : Standing (Piece.line "if " (python.exprPieces test) ":") :=
      python_standing h.1.1.2 (by decide) (by decide) (.inr (.of_head (by decide)))
    have first := Item.standing_under header (python_itemsAll body h.1.2 inClass (depth + 1))
    have last : Standing "else:".toList := ⟨.of_mute (by decide), .of_head (by decide)⟩
    match orelse with
    | [] => exact first
    | [alternative] =>
      have own : alternative.every Expr.isQuiet Stmt.isQuiet = true := by
        simpa only [Stmt.everyAll, Bool.and_true] using h.2
      have second : ∀ l ∈ Item.linesAll depth (if alternative.isCond
          then Item.led "el".toList (alternative.items inClass)
          else [.under "else:".toList (alternative.items inClass)]), Standing l.text := by
        split
        · exact Item.standing_led (by decide) (.of_head (by decide))
            (python_items alternative own inClass depth)
        · exact Item.standing_under last (python_items alternative own inClass (depth + 1))
      exact Item.standing_append first second
    | second :: third :: rest =>
      exact Item.standing_append first
        (Item.standing_under last (python_itemsAll (second :: third :: rest) h.2 inClass (depth + 1)))

theorem python_itemsAll (ss : List Stmt) (h : Stmt.everyAll Expr.isQuiet Stmt.isQuiet ss = true)
    (inClass : Bool) (depth : Nat) :
    ∀ l ∈ Item.linesAll depth (Stmt.itemsAll inClass ss), Standing l.text :=
  match ss with
  | [] => by simp [Stmt.itemsAll, Item.linesAll]
  | s :: ss => by
    simp only [Stmt.everyAll, Bool.and_eq_true] at h
    exact Item.standing_append (python_items s h.1 inClass depth) (python_itemsAll ss h.2 inClass depth)

end

/-- A quiet program is written so that its blocks are found again by their indentation, and its
indentation is regular. -/
theorem python_layout (p : Program) (quiet : p.isQuiet = true) :
    Layout.tokens (some ['#']) (renderApart python p).code.toList =
        Item.tokensAll (Stmt.itemsAll false p.body) ∧
      Layout.reindent (some ['#']) [' ', ' ', ' ', ' '] (renderApart python p).code.toList =
        (renderApart python p).code.toList := by
  have standing := python_itemsAll p.body quiet false 0
  rw [python_code]
  exact ⟨Item.tokens_source standing, Item.reindent_source standing⟩

/-- A function with a chain of branches, of which the first is empty and has a note on its header,
and an empty class. -/
def branchingProgram : Program :=
  ⟨[.function { name := "f", params := [⟨"x", .param⟩] }
      [.cond (.unknown "a \"\" b") []
        [.cond (.load "x") [.ret none] [.print (.lit (.str "it's"))]]],
    .classDef "A" [.load "B"] []]⟩

theorem python_layout_branching :
    branchingProgram.isQuiet = true ∧
      Layout.tokens (some ['#']) (renderApart python branchingProgram).code.toList =
        [.line "def f(x):".toList, .blockStart,
          .line "if None:  # unknown: a \"\" b".toList, .blockStart, .line "pass".toList, .blockEnd,
          .line "elif x:".toList, .blockStart, .line "return".toList, .blockEnd,
          .line "else:".toList, .blockStart, .line "print('it\\'s')".toList, .blockEnd, .blockEnd,
          .line "class A(B):".toList, .blockStart, .line "pass".toList, .blockEnd] ∧
      Layout.reindent (some ['#']) [' ', ' ', ' ', ' '] (renderApart python branchingProgram).code.toList =
        (renderApart python branchingProgram).code.toList := by
  have quiet : branchingProgram.isQuiet = true := by decide
  have layout := python_layout branchingProgram quiet
  exact ⟨quiet, layout.1.trans (by decide), layout.2⟩

end Dialect

end Interlingua
