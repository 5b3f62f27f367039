import Interlingua.Proofs.Program.Agreement
import Interlingua.Proofs.Reading.Clauses
import Interlingua.Proofs.Reading.Modes
import Interlingua.Proofs.Reading.Sentinel
import Interlingua.Proofs.Record.Aligning
import Interlingua.Proofs.Syntax.Meaning
import Interlingua.Proofs.Syntax.Valid

/-!
# Programs read back

A core program that is written in Python or JavaScript is read back as one that is alike, with its
records in comments or apart. Reading finds what the clauses of the program mean, which is the
program without the types that its records state, and attaching the records restores these.
-/

namespace Interlingua

namespace Untyped

open Dialect Text

variable (u : Untyped) {lex : Lexicon} {parse : Parser} {p : Program}

section

variable (core : p.isCore lex = true)

include core

/-- The written code is read as what its clauses mean. -/
theorem readPrepared_code (grammar : u.Parses lex parse (u.program p)) :
    u.language.readPrepared parse (joinLines ((u.lines p).map Line.plain)) =
      .ok (⟨Clause.meaningAll u (u.program p)⟩, Line.starts (u.lines p) 0) := by
  have valid := u.areValid_program core
  obtain ⟨t, parsed, shaped⟩ := grammar valid
  change parse (String.ofList (joinLines ((u.lines p).map Line.plain))) = some t at parsed
  rw [Language.readPrepared, u.prepare_code core, parsed]
  exact u.readTree_eq valid shaped

/-- The records of a program restore what its clauses do not say. -/
theorem alike_attach_gather :
    p.alike ((⟨Clause.meaningAll u (u.program p)⟩ : Program).attach ⟨p.gather⟩).1 = true := by
  have restored : (p.erase.attach ⟨p.gather⟩).1 = p := by
    have attached := Stmt.attachAll_erase p.body [] (Program.restorable_of_isCore core)
    rw [List.append_nil] at attached
    exact congrArg (fun r => Program.mk r.1) attached
  have agrees := Program.agree_attach (u.agree_program core) ⟨p.gather⟩
  rwa [restored] at agrees

end

/-- A core program is read back as one that is alike, with its records apart and, where all facts
about parameters can travel in a comment, also with its records in comments. In Python the program
that only names the reserved word is left out. -/
theorem read_render (core : p.isCore lex = true)
    (other : u = python → p.body ≠ [.expr (.load reserved)])
    (grammar : u.Parses lex parse (u.program p)) :
    (∃ q, u.language.readWith parse (renderApart u.dialect p).records
        (renderApart u.dialect p).code = .ok q ∧ p.alike q = true) ∧
      ((∀ s ∈ p.consumers, u.carriesFacts s = true) →
        ∃ q, u.language.read parse (render u.dialect .inline p) = .ok q ∧ p.alike q = true) := by
  have worded := Program.isWorded_of_isCore core
  have prepared := u.readPrepared_code core grammar
  have alike := u.alike_attach_gather core
  constructor
  · have readable := u.isSentinel_render core other .sidecar
    rw [← u.renderApart_eq worded] at prepared
    exact ⟨_, Language.readWith_eq readable p.gather prepared, alike⟩
  · intro facts
    have readable := u.isSentinel_render core other .inline
    have scanned := u.scan_inline worded (u.carries_of_isCore core facts)
    have aligned : Queue.aligned (Line.spoken (u.lines p) 0) (Line.starts (u.lines p) 0) =
        ⟨p.gather⟩ := by
      rw [Queue.aligned, Queue.alignedRecords_spoken, u.records_lines]
    rw [← aligned] at alike
    exact ⟨_, Language.read_eq readable scanned prepared, alike⟩

/-! A class in Python, with the tree that its grammar gives it. -/

/-- The words that are no identifiers in Python. -/
def pythonKeywords : List String :=
  ["False", "None", "True", "and", "as", "assert", "async", "await", "break", "class", "continue",
    "def", "del", "elif", "else", "except", "finally", "for", "from", "global", "if", "import", "in",
    "is", "lambda", "nonlocal", "not", "or", "pass", "raise", "return", "try", "while", "with",
    "yield"]

def pythonLexicon : Lexicon where
  known id := isWord id && id.toList.all (· ≠ '$') && !id.toList.head?.any Char.isDigit &&
    id ∉ pythonKeywords
  isWord_of_known id h := by
    simp only [Bool.and_eq_true] at h
    exact h.1.1.1
  own := by decide +kernel

def barkSignature : Signature where
  name := "bark"
  params := [⟨"times", .param⟩]
  returnType := .void
  paramTypes := Dict.ofList [("times", .number)]
  paramFacts := Dict.ofList [("times", Dict.ofList [("unit", "woofs")])]

def barkBody : List Stmt :=
  [.cond (.compare (.load "times") .gt (.lit (.int 0)))
    [.assign (.store "noise" (.lit (.str "woof")))]
    [.assign (.store "noise" (.lit (.str "")))],
   .print (.load "noise")]

def barkProgram : Program :=
  ⟨[.classDef "Dog" [.load "Animal"]
    [.assign (.store "legs" (.lit (.int 4))), .function barkSignature barkBody]]⟩

def barkCode : List Char :=
  joinLines <| List.map String.toList
    ["class Dog(Animal):",
     "    legs = 4",
     "    def bark(self, times):",
     "        if times > 0:",
     "            noise = 'woof'",
     "        else:",
     "            noise = ''",
     "        print(noise)"]

/-- A stretch of the code. -/
def barkText (start stop : Nat) : String :=
  String.ofList ((barkCode.take stop).drop start)

def partNode (kind : String) (field : Option String) (row : Nat) (text : String)
    (children : List Tree := []) : Tree :=
  .node ⟨kind, true, field, text, row⟩ children

def tokenNode (row : Nat) (text : String) (field : Option String := none) : Tree :=
  .node ⟨text, false, field, text, row⟩ []

def barkCondition : Tree :=
  partNode "if_statement" none 3 (barkText 67 144)
    [tokenNode 3 "if",
     partNode "comparison_operator" (some "condition") 3 "times > 0"
      [partNode "identifier" none 3 "times", tokenNode 3 ">" (some "operators"),
       partNode "integer" none 3 "0"],
     tokenNode 3 ":",
     partNode "block" (some "consequence") 4 "noise = 'woof'"
      [partNode "assignment" none 4 "noise = 'woof'"
        [partNode "identifier" (some "left") 4 "noise", tokenNode 4 "=",
         partNode "string" (some "right") 4 "'woof'"
          [partNode "string_start" none 4 "'", partNode "string_content" none 4 "woof",
           partNode "string_end" none 4 "'"]]],
     partNode "else_clause" (some "alternative") 5 (barkText 116 144)
      [tokenNode 5 "else", tokenNode 5 ":",
       partNode "block" (some "body") 6 "noise = ''"
        [partNode "assignment" none 6 "noise = ''"
          [partNode "identifier" (some "left") 6 "noise", tokenNode 6 "=",
           partNode "string" (some "right") 6 "''"
            [partNode "string_start" none 6 "'", partNode "string_end" none 6 "'"]]]]]

def barkMethod : Tree :=
  partNode "function_definition" none 2 (barkText 36 165)
    [tokenNode 2 "def", partNode "identifier" (some "name") 2 "bark",
     partNode "parameters" (some "parameters") 2 "(self, times)"
      [tokenNode 2 "(", partNode "identifier" none 2 "self", tokenNode 2 ",",
       partNode "identifier" none 2 "times", tokenNode 2 ")"],
     tokenNode 2 ":",
     partNode "block" (some "body") 3 (barkText 67 165)
      [barkCondition,
       partNode "call" none 7 "print(noise)"
        [partNode "identifier" (some "function") 7 "print",
         partNode "argument_list" (some "arguments") 7 "(noise)"
          [tokenNode 7 "(", partNode "identifier" none 7 "noise", tokenNode 7 ")"]]]]

def barkTree : Tree :=
  partNode "module" none 0 (barkText 0 165)
    [partNode "class_definition" none 0 (barkText 0 165)
      [tokenNode 0 "class", partNode "identifier" (some "name") 0 "Dog",
       partNode "argument_list" (some "superclasses") 0 "(Animal)"
        [tokenNode 0 "(", partNode "identifier" none 0 "Animal", tokenNode 0 ")"],
       tokenNode 0 ":",
       partNode "block" (some "body") 1 (barkText 23 165)
        [partNode "assignment" none 1 "legs = 4"
          [partNode "identifier" (some "left") 1 "legs", tokenNode 1 "=",
           partNode "integer" (some "right") 1 "4"],
         barkMethod]]]

/-- A parser that knows the class. -/
def parseBark : Parser := fun source =>
  if source.toList = barkCode then some barkTree else none

theorem code_bark : python.code (python.program barkProgram) = barkCode := by
  decide +kernel

theorem shaped_condition :
    Clause.Shaped python false 2 3
      (.cond (.compare (.name "times") .gt (.literal (.int 0)))
        [.assign {} false "noise" (.literal (.str "woof"))]
        (.otherwise [.assign {} false "noise" (.literal (.str ""))])) barkCondition := by
  refine ⟨rfl, ⟨_, rfl, rfl, _, _, _, rfl, rfl, ⟨rfl, rfl⟩, rfl, rfl⟩, ⟨_, rfl, rfl, _, _, rfl, ?_, rfl⟩,
    _, rfl, rfl, _, rfl, _, _, rfl, ?_, rfl⟩
  · exact ⟨rfl, rfl, ⟨_, rfl, rfl, rfl⟩, ⟨_, rfl, ⟨rfl, rfl⟩, by decide⟩, rfl⟩
  · exact ⟨rfl, rfl, ⟨_, rfl, rfl, rfl⟩, ⟨_, rfl, ⟨rfl, rfl⟩, by decide⟩, rfl⟩

theorem shaped_method :
    Clause.Shaped python true 1 2
      (.function (Record.ofSignature barkSignature) true "bark" ["self", "times"]
        (python.clauses false barkBody ["times"]).1) barkMethod := by
  refine ⟨rfl, rfl, rfl, ⟨_, rfl, rfl⟩, rfl, _, rfl, _, _, rfl, shaped_condition, _, _, rfl, ?_, rfl⟩
  exact ⟨rfl, ⟨_, rfl, rfl, rfl⟩, _, rfl, rfl, _, _, rfl, ⟨rfl, rfl⟩, rfl⟩

theorem shaped_bark :
    Clause.ShapedAll python false 0 0 (python.program barkProgram) barkTree.parts := by
  refine ⟨_, _, rfl, ⟨rfl, rfl, ⟨_, _, rfl, ⟨rfl, rfl⟩, rfl⟩, _, rfl, _, _, rfl, ?_, _, _, rfl,
    shaped_method, rfl⟩, rfl⟩
  exact ⟨rfl, rfl, ⟨_, rfl, rfl, rfl⟩, ⟨_, rfl, rfl, rfl⟩, rfl⟩

theorem read_render_bark :
    barkProgram.isCore pythonLexicon = true ∧
      python.Parses pythonLexicon parseBark (python.program barkProgram) ∧
      (∃ q, Language.python.readWith parseBark barkProgram.gather
        (renderApart python.dialect barkProgram).code = .ok q ∧ barkProgram.alike q = true) ∧
      ∃ q, Language.python.read parseBark (render python.dialect .inline barkProgram) = .ok q ∧
        barkProgram.alike q = true := by
  have core : barkProgram.isCore pythonLexicon = true := by decide +kernel
  have grammar : python.Parses pythonLexicon parseBark (python.program barkProgram) := by
    refine fun _ => ⟨barkTree, ?_, shaped_bark⟩
    rw [code_bark, parseBark, String.toList_ofList, if_pos rfl]
  have facts : ∀ s ∈ barkProgram.consumers, python.carriesFacts s = true := by
    decide +kernel
  obtain ⟨apart, inline⟩ := python.read_render core (fun _ => nofun) grammar
  exact ⟨core, grammar, apart, inline facts⟩

/-! What the conditions leave out. -/

def reservedProgram : Program :=
  ⟨[.expr (.load reserved)]⟩

/-- A function without a body and with these facts about its parameter. -/
def stubProgram (facts : Dict String) : Program :=
  ⟨[.function
    { name := "f", params := [⟨"x", .param⟩], paramFacts := Dict.ofList [("x", facts)] } []]⟩

def markedFacts : Dict String :=
  Dict.ofList [("note", "# __META__:")]

/-- The comment with the marked facts. -/
def stubComment : String :=
  "# __META__: \x7b\"individualParamMetadata\":\x7b\"x\":\x7b\"note\":\"# __META__:\"\x7d\x7d\x7d"

/-- The tree of the function from its first line on, with comments on that line. -/
def stubTree (header : String) (comments : List Tree) : Tree :=
  partNode "module" none 0 (header ++ "\n    pass")
    [partNode "function_definition" none 0 (header ++ "\n    pass")
      ([tokenNode 0 "def", partNode "identifier" (some "name") 0 "f",
        partNode "parameters" (some "parameters") 0 "(x)"
          [tokenNode 0 "(", partNode "identifier" none 0 "x", tokenNode 0 ")"],
        tokenNode 0 ":"] ++ comments ++
       [partNode "block" (some "body") 1 "pass"
          [partNode "pass_statement" none 1 "pass" [tokenNode 1 "pass"]]])]

/-- A parser that knows the function, with and without the comment. -/
def parseStub : Parser := fun source =>
  if source = "def f(x):\n    pass" then some (stubTree "def f(x):" [])
  else some (stubTree ("def f(x): " ++ stubComment) [partNode "comment" none 0 stubComment])

theorem shaped_stub (facts : Dict String) (source : String) : ∃ t, parseStub source = some t ∧
    Clause.ShapedAll python false 0 0 (python.program (stubProgram facts)) t.parts := by
  rw [parseStub]
  split
  all_goals
    refine ⟨_, rfl, _, _, rfl, ?_, rfl⟩
    refine ⟨rfl, rfl, rfl, ⟨_, rfl, rfl⟩, rfl, _, rfl, ?_⟩
    exact ⟨_, _, rfl, rfl, rfl⟩

theorem readPrepared_stub {facts : Dict String}
    (core : (stubProgram facts).isCore pythonLexicon = true) (code : List Char) :
    Language.python.readPrepared parseStub code =
      .ok (⟨Clause.meaningAll python (python.program (stubProgram facts))⟩, [0]) := by
  obtain ⟨t, parsed, shaped⟩ := shaped_stub facts (String.ofList (Language.python.prepare code))
  rw [Language.readPrepared, parsed]
  exact python.readTree_eq (python.areValid_program core) shaped

/-- Every parser reads the reserved name as an error. In comments, a parameter about which there are
no facts is lost, and so are facts with the start of a comment in them. -/
theorem unread_exceptions :
    reservedProgram.isCore pythonLexicon = true ∧
      (∀ parse, Language.python.readWith parse reservedProgram.gather
          (renderApart python.dialect reservedProgram).code = .error (.sentinel .python) ∧
        Language.python.read parse (render python.dialect .inline reservedProgram) =
          .error (.sentinel .python)) ∧
      ∀ facts ∈ [{}, markedFacts], (stubProgram facts).isCore pythonLexicon = true ∧
        python.Parses pythonLexicon parseStub (python.program (stubProgram facts)) ∧
        ∃ q, Language.python.read parseStub (render python.dialect .inline (stubProgram facts)) =
          .ok q ∧ (stubProgram facts).alike q = false := by
  refine ⟨by decide +kernel, fun parse => ⟨rfl, rfl⟩, ?_⟩
  have core : ∀ facts ∈ [{}, markedFacts], (stubProgram facts).isCore pythonLexicon = true := by
    decide +kernel
  have lost : ∀ facts ∈ [{}, markedFacts], (stubProgram facts).alike
      ((⟨Clause.meaningAll python (python.program (stubProgram facts))⟩ : Program).attach
        (.aligned (Record.scan Language.python.commentMark
          (render python.dialect .inline (stubProgram facts)).toList).records [0])).1 = false := by
    decide +kernel
  intro facts mem
  exact ⟨core facts mem, fun _ => shaped_stub facts _, _,
    Language.read_eq (python.isSentinel_render (core facts mem) (fun _ => nofun) .inline) rfl
      (readPrepared_stub (core facts mem) _), lost facts mem⟩

end Untyped

end Interlingua
