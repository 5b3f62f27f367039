import Interlingua.Dialect.Braces
import Interlingua.Proofs.Writing.Comments
import Interlingua.Proofs.Writing.Nesting

/-!
# Descriptions stay where they are put

The description of what could not be written is text of another language. On one line it has single
spaces between its words and no other blanks, so nothing in it ends the line of a comment that goes up to
the end of the line. In a comment between two marks, the first closing mark is the one that is written
behind the description.
-/

namespace Interlingua

namespace Text

/-- The code points at which Unicode ends a line: the line feed, the vertical tab, the form feed, the
carriage return, the next line, and the separators of lines and of paragraphs. -/
def lineEnds : List Nat :=
  [0x0A, 0x0B, 0x0C, 0x0D, 0x85, 0x2028, 0x2029]

def endsLine (c : Char) : Bool :=
  c.toNat ∈ lineEnds

/-- A text is on one line, whatever ends a line. -/
def Unbroken (cs : List Char) : Prop :=
  ∀ c ∈ cs, endsLine c = false

theorem endsLine_of_not_isBlank {c : Char} (visible : isBlank c = false) : endsLine c = false := by
  refine Bool.eq_false_iff.2 fun ends => Bool.eq_false_iff.1 visible ?_
  simp only [endsLine, lineEnds, List.mem_cons, List.not_mem_nil, or_false, decide_eq_true_eq] at ends
  rcases ends with code | code | code | code | code | code | code <;>
    simp [isBlank, blankRanges, code]

theorem Unbroken.append {front back : List Char} (first : Unbroken front) (second : Unbroken back) :
    Unbroken (front ++ back) :=
  List.forall_mem_append.2 ⟨first, second⟩

/-- A text on one line that starts and ends with what is not blank and has no two blanks in a row. -/
structure Tidy (cs : List Char) : Prop where
  unbroken : Unbroken cs
  starts : ∀ c, cs.head? = some c → isBlank c = false
  ends : ∀ c, cs.getLast? = some c → isBlank c = false
  apart : ∀ a b, [a, b] <:+: cs → ¬ (isBlank a = true ∧ isBlank b = true)

namespace Tidy

theorem nil : Tidy [] where
  unbroken := by simp [Unbroken]
  starts := by simp
  ends := by simp
  apart := by simp

variable {c : Char} {cs : List Char}

/-- A character that is not blank in front of what may start with a blank. -/
theorem of_visible (visible : isBlank c = false) (unbroken : Unbroken cs)
    (ends : ∀ d, cs.getLast? = some d → isBlank d = false)
    (apart : ∀ a b, [a, b] <:+: cs → ¬ (isBlank a = true ∧ isBlank b = true)) : Tidy (c :: cs) where
  unbroken := List.forall_mem_cons.2 ⟨endsLine_of_not_isBlank visible, unbroken⟩
  starts := by simp [visible]
  ends := by
    cases cs with
    | nil => simp [visible]
    | cons d cs => exact ends
  apart := by
    rintro a b occurs ⟨first, second⟩
    rcases List.infix_cons_iff.1 occurs with here | later
    · cases (List.cons_prefix_cons.1 here).1
      cases first.symm.trans visible
    · exact apart a b later ⟨first, second⟩

theorem cons (visible : isBlank c = false) (h : Tidy cs) : Tidy (c :: cs) :=
  of_visible visible h.unbroken h.ends h.apart

theorem cons_space (visible : isBlank c = false) (h : Tidy cs) (full : cs ≠ []) :
    Tidy (c :: ' ' :: cs) := by
  have ends : (' ' :: cs).getLast? = cs.getLast? := by
    obtain ⟨d, ds, rfl⟩ := List.exists_cons_of_ne_nil full
    rfl
  have unbroken : Unbroken (' ' :: cs) := List.forall_mem_cons.2 ⟨by decide, h.unbroken⟩
  refine of_visible visible unbroken (ends ▸ h.ends) ?_
  rintro a b occurs ⟨first, second⟩
  rcases List.infix_cons_iff.1 occurs with here | later
  · have next := List.singleton_prefix_iff_head?_eq_some.1 (List.cons_prefix_cons.1 here).2
    cases second.symm.trans (h.starts b next)
  · exact h.apart a b later ⟨first, second⟩

end Tidy

theorem nil_notMem_words (cs : List Char) : [] ∉ words cs := by
  fun_induction words cs with
  | case1 => simp
  | case2 c blank => simp
  | case3 c visible => simp
  | case4 c d cs blank ih => exact ih
  | case5 c d cs visible blank ih => simp [ih]
  | case6 c d cs visible inner ih => cases found : words (d :: cs) <;> simp_all [consHead]

theorem collapse_ne_nil {cs : List Char} (h : words cs ≠ []) : collapse cs ≠ [] := by
  obtain ⟨w, ws, found⟩ := List.exists_cons_of_ne_nil h
  have full : w ≠ [] := by
    rintro rfl
    exact nil_notMem_words cs (found ▸ List.mem_cons_self)
  rw [collapse, found]
  cases ws <;> simp [full]

theorem tidy_collapse (cs : List Char) : Tidy (collapse cs) := by
  induction cs with
  | nil => exact .nil
  | cons c cs ih =>
    rw [collapse_cons]
    split
    · exact ih
    · rename_i visible
      have visible := Bool.eq_false_iff.2 visible
      split
      · rename_i followed
        have more : words cs ≠ [] := by simpa using (Bool.and_eq_true_iff.1 followed).2
        exact ih.cons_space visible (collapse_ne_nil more)
      · exact ih.cons visible

/-- The text before and after the first occurrence of `needle`. -/
def cutFirst (needle : List Char) : List Char → Option (List Char × List Char)
  | [] => none
  | c :: cs =>
    match stripFront needle (c :: cs) with
    | some after => some ([], after)
    | none => (cutFirst needle cs).map fun found => (c :: found.1, found.2)

/-- An occurrence is the first one if none lies in what stands before its last character. -/
theorem cutFirst_append {needle before : List Char} (full : needle ≠ [])
    (h : ¬ needle <:+: before ++ needle.dropLast) (after : List Char) :
    cutFirst needle (before ++ (needle ++ after)) = some (before, after) := by
  induction before with
  | nil =>
    obtain ⟨n, rest, rfl⟩ := List.exists_cons_of_ne_nil full
    have found := stripFront_append (n :: rest) after
    rw [List.cons_append] at found
    rw [List.nil_append, List.cons_append, cutFirst, found]
  | cons c before ih =>
    rw [List.cons_append, List.infix_cons_iff, not_or] at h
    have here : stripFront needle (c :: (before ++ (needle ++ after))) = none := by
      refine Option.eq_none_iff_forall_ne_some.2 fun rest found => h.1 ?_
      -- The needle that is found here would be no longer than the text it must not occur in.
      have whole : c :: (before ++ needle.dropLast) <+: c :: (before ++ (needle ++ after)) := by
        rw [List.cons_prefix_cons, List.prefix_append_right_inj]
        exact ⟨rfl, (List.dropLast_prefix needle).trans (List.prefix_append needle after)⟩
      have start : needle <+: c :: (before ++ (needle ++ after)) :=
        ⟨rest, (stripFront_eq_some.1 found).symm⟩
      have short : needle.length ≤ (c :: (before ++ needle.dropLast)).length := by
        simp only [List.length_cons, List.length_append, List.length_dropLast]
        omega
      exact List.prefix_of_prefix_length_le start whole short
    rw [List.cons_append, cutFirst, here, ih h.2]
    rfl

end Text

namespace Dialect

open Text

/-- What holds of tokens and spaces, and of what a dialect has for lists, tuples and unknown parts of
expressions. -/
structure Admits (d : Dialect) (P : Piece → Prop) : Prop where
  token : ∀ text, P (.token text)
  gap : P .gap
  listOpen : ∀ element, ∀ p ∈ d.listOpen element, P p
  tupleOpen : ∀ p ∈ d.tupleOpen, P p
  unknownExpr : ∀ description, ∀ p ∈ d.unknownExpr description, P p

namespace Admits

variable {d : Dialect} {P : Piece → Prop} (h : d.Admits P)

include h

theorem group {pieces : List Piece} (inner : ∀ p ∈ pieces, P p) (needed : Bool) :
    ∀ p ∈ Piece.group needed pieces, P p := by
  cases needed with
  | false => exact inner
  | true => simpa [Piece.group, or_imp, forall_and, h.token] using inner

theorem operator (symbol : String) : ∀ p ∈ [Piece.gap, .token symbol, .gap], P p := by
  simp [h.token, h.gap]

theorem call {callee : Expr} {args : List Expr} (first : ∀ p ∈ d.exprPieces callee, P p)
    (listed : ∀ p ∈ d.listedPieces args, P p) (juxtaposed : ∀ p ∈ d.juxtaposedPieces args, P p) :
    ∀ p ∈ d.exprPieces (.call callee args), P p := by
  have between : ∀ p ∈ .token "(" :: d.listedPieces args ++ [.token ")"], P p := by
    simpa [or_imp, forall_and, h.token] using listed
  by_cases named : ∃ n, callee = .name n
  · obtain ⟨n, rfl⟩ := named
    rw [Dialect.exprPieces]
    refine List.forall_mem_append.2 ⟨List.forall_mem_singleton.2 (h.token _), ?_⟩
    split
    · exact between
    · exact juxtaposed
  · rw [Dialect.exprPieces]
    · refine List.forall_mem_append.2 ⟨?_, ?_⟩
      · split <;> exact h.group first _
      · split
        · exact between
        · exact juxtaposed
    · exact fun n same => named ⟨n, same⟩

mutual

theorem exprPieces (e : Expr) : ∀ p ∈ d.exprPieces e, P p :=
  match e with
  | .call callee args => h.call (exprPieces callee) (listedPieces args) (juxtaposedPieces args)
  | .member object property => by
    have first := h.group (exprPieces object) (object.strength < Expr.atom)
    rw [Dialect.exprPieces]
    exact List.forall_mem_append.2 ⟨first, by simp [h.token]⟩
  | .binary left op right => by
    have first := h.group (exprPieces left) (left.strength < op.strength)
    have second := h.group (exprPieces right) (right.strength < op.strength + 1)
    rw [Dialect.exprPieces]
    exact List.forall_mem_append.2 ⟨List.forall_mem_append.2 ⟨first, h.operator _⟩, second⟩
  | .compare left op right => by
    have first := h.group (exprPieces left) (left.strength < CompareOp.strength + 1)
    have second := h.group (exprPieces right) (right.strength < CompareOp.strength + 1)
    rw [Dialect.exprPieces]
    exact List.forall_mem_append.2 ⟨List.forall_mem_append.2 ⟨first, h.operator _⟩, second⟩
  | .list elements element homogeneous => by
    have opened := List.forall_mem_append.2 ⟨h.listOpen element, listedPieces elements⟩
    rw [Dialect.exprPieces]
    exact List.forall_mem_append.2 ⟨opened, by simp [h.token]⟩
  | .tuple elements types => by
    have opened := List.forall_mem_append.2 ⟨h.tupleOpen, listedPieces elements⟩
    rw [Dialect.exprPieces]
    exact List.forall_mem_append.2 ⟨opened, by simp [h.token]⟩
  | .name n => List.forall_mem_singleton.2 (h.token _)
  | .const value type => List.forall_mem_singleton.2 (h.token _)
  | .unknown description => h.unknownExpr description

theorem listedPieces (es : List Expr) : ∀ p ∈ d.listedPieces es, P p :=
  match es with
  | [] => List.forall_mem_nil _
  | [e] => exprPieces e
  | e :: next :: rest => by
    have others := listedPieces (next :: rest)
    rw [Dialect.listedPieces]
    refine List.forall_mem_append.2 ⟨exprPieces e, ?_⟩
    simpa [h.token, h.gap] using others

theorem juxtaposedPieces (es : List Expr) : ∀ p ∈ d.juxtaposedPieces es, P p :=
  match es with
  | [] => List.forall_mem_nil _
  | e :: rest => by
    have first := h.group (exprPieces e) (isCompound e)
    rw [Dialect.juxtaposedPieces]
    exact List.forall_mem_append.2 ⟨List.forall_mem_cons.2 ⟨h.gap, first⟩, juxtaposedPieces rest⟩

end

end Admits

/-- The end of a line is owed nothing but descriptions. -/
theorem admits_python :
    python.Admits fun p =>
      ∀ text, p = .note text → ∃ description, text = Python.unknownNote description where
  token := by simp
  gap := by simp
  listOpen _ := List.forall_mem_singleton.2 (by simp)
  tupleOpen := List.forall_mem_singleton.2 (by simp)
  unknownExpr description := by
    refine List.forall_mem_cons.2 ⟨by simp, List.forall_mem_singleton.2 ?_⟩
    rintro _ ⟨⟩
    exact ⟨description, rfl⟩

theorem exists_of_mem_notes {e : Expr} {note : String} (h : note ∈ Piece.notes (python.exprPieces e)) :
    ∃ description, note = Python.unknownNote description := by
  simp only [Piece.notes, List.mem_filterMap] at h
  obtain ⟨p, mem, own⟩ := h
  cases p with
  | note text =>
    cases own
    exact admits_python.exprPieces e _ mem _ rfl
  | _ => cases own

theorem tidy_oneLine (description : String) : Tidy (oneLine description).toList := by
  rw [oneLine, String.toList_ofList]
  exact tidy_collapse _

theorem unbroken_described {front : String} (h : Unbroken front.toList) (description : String) :
    Unbroken (front ++ oneLine description).toList := by
  rw [String.toList_append]
  exact h.append (tidy_oneLine description).unbroken

theorem unbroken_unknownNote (description : String) :
    Unbroken (Python.unknownNote description).toList :=
  unbroken_described (by simp [Unbroken, endsLine, lineEnds]) description

/-- An unknown statement is a comment that ends with the description. -/
theorem exists_unknownStmt {d : Dialect} (h : d ∈ [plain, javascript, typescript, java, python, haskell])
    (description : String) :
    ∃ front, d.unknownStmt description = front ++ oneLine description ∧ Unbroken front.toList := by
  have slashes : Unbroken "// unknown: ".toList := by simp [Unbroken, endsLine, lineEnds]
  have hash : Unbroken "pass  # unknown: ".toList := by simp [Unbroken, endsLine, lineEnds]
  have dashes : Unbroken "-- unknown: ".toList := by simp [Unbroken, endsLine, lineEnds]
  simp only [List.mem_cons, List.not_mem_nil, or_false] at h
  rcases h with rfl | rfl | rfl | rfl | rfl | rfl
  · exact ⟨"// unknown: ", rfl, slashes⟩
  · exact ⟨"// unknown: ", rfl, slashes⟩
  · exact ⟨"// unknown: ", rfl, slashes⟩
  · exact ⟨"// unknown: ", rfl, slashes⟩
  · exact ⟨"pass  # unknown: ", rfl, hash⟩
  · exact ⟨"-- unknown: ", rfl, dashes⟩

/-- The comment is closed in front of the placeholder and not before. -/
theorem cutFirst_comment (description placeholder : String) :
    (stripFront ['/', '*'] ("/* unknown: " ++ guarded "*/" "* /" description ++ " */ " ++
        placeholder).toList).bind (cutFirst ['*', '/']) =
      some ((" unknown: " ++ guarded "*/" "* /" description ++ " ").toList,
        (" " ++ placeholder).toList) := by
  have kept : ¬ ['*', '/'] <:+: (guarded "*/" "* /" description).toList := by
    rw [← count_pair_eq_zero_iff (by decide), guarded, String.toList_ofList]
    exact count_replace_pair_self (by decide) (by decide) (by decide) _
  have space : ' ' ∉ ['*', '/'] := by decide
  have first : ¬ ['*', '/'] <:+: (" unknown: " ++ guarded "*/" "* /" description ++ " ").toList ++
      ['*', '/'].dropLast := by
    have parts : (" unknown: " ++ guarded "*/" "* /" description ++ " ").toList ++
        ['*', '/'].dropLast =
        " unknown:".toList ++ ' ' :: ((guarded "*/" "* /" description).toList ++ ' ' :: ['*']) := by
      simp
    rw [parts]
    intro occurs
    rcases infix_append_cons space occurs with lead | later
    · exact absurd lead (not_infix_of_notMem (by decide))
    · rcases infix_append_cons space later with inside | last
      · exact kept inside
      · exact absurd last.length_le (by decide)
  have text : ("/* unknown: " ++ guarded "*/" "* /" description ++ " */ " ++ placeholder).toList =
      ['/', '*'] ++ ((" unknown: " ++ guarded "*/" "* /" description ++ " ").toList ++
        (['*', '/'] ++ (" " ++ placeholder).toList)) := by
    simp
  rw [text, stripFront_append, Option.bind_some]
  exact cutFirst_append (by decide) first _

/-- A description stays in its comment. Between two marks nothing closes the comment but the mark in
front of the placeholder. Up to the end of the line, where unknown statements and the notes of a language
without other comments stand, nothing ends the line: on one line a description has no line ends, no
blanks at its ends and no two in a row. -/
theorem descriptions_contained (description : String) :
    (∀ d ∈ [plain, javascript, typescript, java], ∃ text, d.unknownExpr description = [.token text] ∧
      (stripFront ['/', '*'] text.toList).bind (cutFirst ['*', '/']) =
        some ((" unknown: " ++ guarded "*/" "* /" description ++ " ").toList,
          (" " ++ d.nullText).toList)) ∧
    (∀ d ∈ [plain, javascript, typescript, java, python, haskell],
      ∃ front, d.unknownStmt description = front ++ oneLine description ∧
        Unbroken (d.unknownStmt description).toList) ∧
    (∀ e, ∀ note ∈ Piece.notes (python.exprPieces e),
      ∃ described, note = "# unknown: " ++ oneLine described ∧ Unbroken note.toList) ∧
    Tidy (oneLine description).toList := by
  refine ⟨?_, ?_, ?_, tidy_oneLine description⟩
  · intro d mem
    simp only [List.mem_cons, List.not_mem_nil, or_false] at mem
    rcases mem with rfl | rfl | rfl | rfl <;> exact ⟨_, rfl, cutFirst_comment description _⟩
  · intro d mem
    obtain ⟨front, same, line⟩ := exists_unknownStmt mem description
    exact ⟨front, same, same ▸ unbroken_described line description⟩
  · intro e note mem
    obtain ⟨described, rfl⟩ := exists_of_mem_notes mem
    exact ⟨described, rfl, unbroken_unknownNote described⟩

/-- A function over two lines, with a comment in it. -/
theorem descriptions_contained_function :
    java ∈ [plain, javascript, typescript, java] ∧
      python ∈ [plain, javascript, typescript, java, python, haskell] ∧
      "# unknown: x => /* y */ x" ∈ Piece.notes (python.exprPieces (.unknown "x =>\n /* y */ x")) ∧
      (∃ text, java.unknownExpr "x =>\n /* y */ x" = [.token text] ∧
        (stripFront ['/', '*'] text.toList).bind (cutFirst ['*', '/']) =
          some ((" unknown: " ++ guarded "*/" "* /" "x =>\n /* y */ x" ++ " ").toList,
            (" " ++ java.nullText).toList)) ∧
      (∃ front, python.unknownStmt "x =>\n /* y */ x" = front ++ oneLine "x =>\n /* y */ x" ∧
        Unbroken (python.unknownStmt "x =>\n /* y */ x").toList) ∧
      (∃ described, "# unknown: x => /* y */ x" = "# unknown: " ++ oneLine described ∧
        Unbroken "# unknown: x => /* y */ x".toList) ∧
      Tidy (oneLine "x =>\n /* y */ x").toList := by
  have braces : java ∈ [plain, javascript, typescript, java] := by simp
  have written : python ∈ [plain, javascript, typescript, java, python, haskell] := by simp
  have owed : "# unknown: x => /* y */ x" ∈
      Piece.notes (python.exprPieces (.unknown "x =>\n /* y */ x")) := by decide +kernel
  obtain ⟨comment, line, note, tidy⟩ := descriptions_contained "x =>\n /* y */ x"
  exact ⟨braces, written, owed, comment java braces, line python written, note _ _ owed, tidy⟩

end Dialect

end Interlingua
