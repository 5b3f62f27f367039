import Interlingua.Proofs.Session.Files
import Interlingua.Session.Transpile

/-!
# What a run leaves behind

A plan says what its run writes, and carrying it out has one of four outcomes: nothing is changed, the
code is written, the code and the records are written, or the records were written in vain and are
taken back. From these outcomes: what a failed run leaves, and what a run leaves of the files that were
there when it must not replace its output.
-/

namespace Interlingua

namespace Job

/-- Where the records of a run go. -/
def recordMode (job : Job) (settings : Settings) : RecordMode :=
  if job.sidecar then .sidecar else settings.recordMode

/-- Where the code of a run goes, once its input and its target are known. -/
def outputPath? (job : Job) : Option String :=
  job.input.bind fun input => (job.target.bind Language.target?).map (job.outputPath input)

/-- Where the records of a run go, if they go to a file of their own. -/
def recordsPath? (job : Job) (settings : Settings) : Option String :=
  if job.recordMode settings = .sidecar then job.outputPath?.map (· ++ settings.suffix) else none

/-- The text of a source, and the records beside it. -/
structure Supply where
  content : String
  records : Option (List Record)
  deriving DecidableEq

/-- What a run with these settings takes from a path. -/
def supply (settings : Settings) (fs : Files) (path : String) : Except TranspileError Supply := do
  let content ← readFile fs path
  let records ← recordsBeside fs (path ++ settings.suffix)
  return { content, records }

/-- How a plan came about: the program it is for was read from what its input supplied, and the plan
is to write that program. -/
structure Makes (job : Job) (settings : Settings) (parse : Parser) (fs : Files) (program : Program)
    (plan : Plan) : Prop where
  read : ∃ input supply, job.input = some input ∧ Job.supply settings fs input = .ok supply ∧
    readProgram plan.source parse input supply.content supply.records = .ok program
  output : job.outputPath? = some plan.output
  free : settings.mayOverwrite = true ∨ fs.contains plan.output = false
  code : plan.code = plan.target.dialect.render (job.recordMode settings) program
  records : plan.records =
    (job.recordsPath? settings).map fun path => (path, recordsText program.gather)

theorem recordMode_eq_sidecar_iff {job : Job} {settings : Settings} :
    job.recordMode settings = .sidecar ↔
      (job.sidecar || settings.recordMode = .sidecar) = true := by
  unfold recordMode
  cases job.sidecar <;> simp

theorem of_bind_eq_ok {ε α β : Type} {x : Except ε α} {f : α → Except ε β} {b : β}
    (h : (x >>= f) = .ok b) : ∃ a, x = .ok a ∧ f a = .ok b := by
  cases x with
  | error e => cases h
  | ok a => exact ⟨a, rfl, h⟩

theorem makes_of_plan_eq_ok {job : Job} {settings : Settings} {parse : Parser} {fs : Files}
    {plan : Plan} (h : job.plan settings parse fs = .ok plan) :
    ∃ program, job.Makes settings parse fs program plan := by
  unfold Job.plan at h
  split at h
  rotate_left
  · cases h
  rename_i input given
  split at h
  rotate_left
  · cases h
  rename_i targetName named
  obtain ⟨source, -, h⟩ := of_bind_eq_ok h
  obtain ⟨target, known, h⟩ := of_bind_eq_ok h
  dsimp only at h
  by_cases same : source = target
  · rw [if_pos same] at h
    cases h
  rw [if_neg same] at h
  obtain ⟨content, contentRead, h⟩ := of_bind_eq_ok h
  obtain ⟨records, recordsRead, h⟩ := of_bind_eq_ok h
  obtain ⟨program, programRead, h⟩ := of_bind_eq_ok h
  by_cases taken : (!settings.mayOverwrite && fs.contains (job.outputPath input target)) = true
  · rw [if_pos taken] at h
    cases h
  rw [if_neg taken] at h
  have output : job.outputPath? = some (job.outputPath input target) := by
    have named : Language.target? targetName = some target := by
      unfold targetLanguage at known
      split at known
      · rename_i found
        cases known
        exact found
      · cases known
    simp [outputPath?, *]
  have read : ∃ input supply, job.input = some input ∧ Job.supply settings fs input = .ok supply ∧
      readProgram source parse input supply.content supply.records = .ok program :=
    ⟨input, ⟨content, records⟩, given, by rw [supply, contentRead, recordsRead]; rfl, programRead⟩
  have free : settings.mayOverwrite = true ∨ fs.contains (job.outputPath input target) = false := by
    simpa [Decidable.or_iff_not_imp_left] using taken
  refine ⟨program, ?_⟩
  split at h
  · rename_i apart
    have mode := recordMode_eq_sidecar_iff.2 apart
    cases h
    exact ⟨read, output, free, by rw [mode]; rfl, by simp [recordsPath?, mode, output]; rfl⟩
  · rename_i together
    have mode : job.recordMode settings = .inline := by
      have other := mt recordMode_eq_sidecar_iff.1 together
      cases mode : job.recordMode settings <;> simp_all
    cases h
    exact ⟨read, output, free, by rw [mode], by simp [recordsPath?, mode]⟩

theorem Makes.mem_recordsPath? {job : Job} {settings : Settings} {parse : Parser} {fs : Files}
    {program : Program} {plan : Plan} (made : job.Makes settings parse fs program plan)
    {path text : String} (apart : plan.records = some (path, text)) :
    path ∈ job.recordsPath? settings := by
  obtain ⟨_, goes, same⟩ := Option.map_eq_some_iff.1 (made.records.symm.trans apart)
  cases same
  exact goes

end Job

namespace Plan

/-- What carrying out a plan does to the files, and whether it fails. -/
inductive Outcome (plan : Plan) (fs : Files) : Files → Except TranspileError Unit → Prop where
  | refused (blocked : ∀ path text j, plan.records = some (path, text) → fs.key? path = some j →
        fs.entries.find? j = some .directory) (cause : TranspileError) :
      Outcome plan fs fs (.error cause)
  | written (k : String) (together : plan.records = none) (leads : fs.key? plan.output = some k)
      (file : fs.entries.find? k ≠ some .directory) :
      Outcome plan fs (fs.setFile k plan.code) (.ok ())
  | recorded (path text j k : String) (apart : plan.records = some (path, text))
      (recordsLead : fs.key? path = some j) (recordsFile : fs.entries.find? j ≠ some .directory)
      (leads : fs.key? plan.output = some k) (file : fs.entries.find? k ≠ some .directory) :
      Outcome plan fs ((fs.setFile j text).setFile k plan.code) (.ok ())
  | withdrawn (path text j : String) (apart : plan.records = some (path, text))
      (recordsLead : fs.key? path = some j) (recordsFile : fs.entries.find? j ≠ some .directory)
      (cause : TranspileError) :
      Outcome plan fs (fs.drop j) (.error cause)

theorem put_eq_ok_iff {fs fs' : Files} {path content : String} :
    put fs path content = .ok fs' ↔
      ∃ k, fs.key? path = some k ∧ fs.entries.find? k ≠ some .directory ∧
        fs' = fs.setFile k content := by
  rw [← Files.write_eq_ok_iff, put]
  cases fs.write path content <;> simp

theorem carryOut_outcome (plan : Plan) (fs : Files) :
    Outcome plan fs (plan.carryOut fs).1 (plan.carryOut fs).2 := by
  unfold carryOut
  split
  · rename_i together
    split
    · rename_i after put
      obtain ⟨k, leads, file, rfl⟩ := put_eq_ok_iff.1 put
      exact .written k together leads file
    · exact .refused (fun _ _ _ apart => by simp [together] at apart) _
  · rename_i path text apart
    split
    · rename_i failed
      refine .refused (fun path' text' j same leads => Classical.not_not.1 fun file => ?_) _
      cases apart.symm.trans same
      have put : put fs path text = .ok _ := put_eq_ok_iff.2 ⟨j, leads, file, rfl⟩
      cases failed.symm.trans put
    · rename_i after put
      obtain ⟨j, recordsLead, recordsFile, rfl⟩ := put_eq_ok_iff.1 put
      have alike := Files.Alike.setFile recordsFile text
      split
      · rename_i after put
        obtain ⟨k, leads, file, rfl⟩ := put_eq_ok_iff.1 put
        exact .recorded path text j k apart recordsLead recordsFile
          ((alike.key? _).trans leads) (mt (alike.directories k).1 file)
      · rw [Files.remove_eq ((alike.key? path).symm.trans recordsLead)
          ((fs.find?_setFile j j text).trans (if_pos rfl)), Files.drop_setFile]
        exact .withdrawn path text j apart recordsLead recordsFile _

/-- A file stays if the code goes to a new one and the records elsewhere. -/
theorem Outcome.find?_of_file {plan : Plan} {fs after : Files} {result : Except TranspileError Unit}
    (outcome : plan.Outcome fs after result)
    (new : ∀ k, fs.key? plan.output = some k → fs.entries.find? k = none) {id content : String}
    (file : fs.entries.find? id = some (.file content))
    (other : ∀ path text, plan.records = some (path, text) → fs.key? path ≠ some id) :
    after.entries.find? id = some (.file content) := by
  have apartFrom {k : String} (leads : fs.key? plan.output = some k) : id ≠ k := by
    rintro rfl
    cases file.symm.trans (new id leads)
  cases outcome with
  | refused => exact file
  | written k together leads => simp [apartFrom leads, file]
  | recorded path text j k apart recordsLead recordsFile leads =>
    have ne : id ≠ j := fun same => other path text apart (same ▸ recordsLead)
    simp [apartFrom leads, ne, file]
  | withdrawn path text j apart recordsLead =>
    have ne : id ≠ j := fun same => other path text apart (same ▸ recordsLead)
    simp [ne, file]

/-- What becomes of a file where the records go, if the code goes to a new one: it has the new records
if the plan succeeds, and it is removed if it fails. -/
theorem Outcome.find?_records {plan : Plan} {fs after : Files} {result : Except TranspileError Unit}
    (outcome : plan.Outcome fs after result)
    (new : ∀ k, fs.key? plan.output = some k → fs.entries.find? k = none) {path text j old : String}
    (apart : plan.records = some (path, text)) (recordsLead : fs.key? path = some j)
    (file : fs.entries.find? j = some (.file old)) :
    after.entries.find? j = result.toOption.map fun _ => .file text := by
  cases outcome with
  | refused blocked => cases file.symm.trans (blocked path text j apart recordsLead)
  | written k together => cases apart.symm.trans together
  | recorded _ _ j' k apart' recordsLead' _ leads =>
    cases apart.symm.trans apart'
    cases recordsLead.symm.trans recordsLead'
    have ne : j ≠ k := by
      rintro rfl
      cases file.symm.trans (new j leads)
    simp [ne, Except.toOption]
  | withdrawn _ _ j' apart' recordsLead' =>
    cases apart.symm.trans apart'
    cases recordsLead.symm.trans recordsLead'
    simp [Except.toOption]

end Plan

namespace Files

/-- No file that was there before has been removed or has another content. -/
def Keeps (before after : Files) : Prop :=
  ∀ k content, before.entries.find? k = some (.file content) →
    after.entries.find? k = some (.file content)

end Files

namespace Job

variable {job : Job} {settings : Settings} {parse : Parser} {fs : Files}

/-- A run fails before it has changed anything, or it carries out its plan. -/
theorem transpile_cases (job : Job) (settings : Settings) (parse : Parser) (fs : Files) :
    (∃ cause, job.plan settings parse fs = .error cause ∧
        job.transpile settings parse fs = (fs, .error cause)) ∨
      ∃ plan after result, job.plan settings parse fs = .ok plan ∧ plan.Outcome fs after result ∧
        job.transpile settings parse fs = (after, result.map fun _ => plan) := by
  unfold transpile
  cases planned : job.plan settings parse fs with
  | error cause => exact .inl ⟨cause, rfl, rfl⟩
  | ok plan => exact .inr ⟨plan, _, _, rfl, plan.carryOut_outcome fs, rfl⟩

/-- The paths that a run may write to. -/
def outputs (job : Job) (settings : Settings) : List String :=
  job.outputPath?.toList ++ (job.recordsPath? settings).toList

/-- A run makes and removes no directory, and files only where its outputs go. -/
theorem transpile_find? (job : Job) (settings : Settings) (parse : Parser) (fs : Files) :
    fs.Alike (job.transpile settings parse fs).1 ∧
      ∀ k, (∀ path ∈ job.outputs settings, fs.key? path ≠ some k) →
        (job.transpile settings parse fs).1.entries.find? k = fs.entries.find? k := by
  obtain ⟨cause, planned, same⟩ | ⟨plan, after, result, planned, outcome, same⟩ :=
    job.transpile_cases settings parse fs
  · rw [same]
    exact ⟨.refl fs, fun _ _ => rfl⟩
  · rw [same]
    obtain ⟨program, made⟩ := makes_of_plan_eq_ok planned
    have output : plan.output ∈ job.outputs settings := by simp [outputs, made.output]
    have recorded {path text : String} (apart : plan.records = some (path, text)) :
        path ∈ job.outputs settings :=
      List.mem_append_right _ (Option.mem_toList.2 (made.mem_recordsPath? apart))
    cases outcome with
    | refused blocked cause => exact ⟨.refl fs, fun _ _ => rfl⟩
    | written k together leads file =>
      refine ⟨.setFile file _, fun id other => ?_⟩
      have ne : id ≠ k := fun h => other _ output (h ▸ leads)
      simp [ne]
    | recorded path text j k apart recordsLead recordsFile leads file =>
      have alike := Files.Alike.setFile recordsFile text
      refine ⟨alike.trans (.setFile (mt (alike.directories k).2 file) _), fun id other => ?_⟩
      have ne : id ≠ k := fun h => other _ output (h ▸ leads)
      have ne' : id ≠ j := fun h => other _ (recorded apart) (h ▸ recordsLead)
      simp [ne, ne']
    | withdrawn path text j apart recordsLead recordsFile cause =>
      refine ⟨.drop recordsFile, fun id other => ?_⟩
      have ne : id ≠ j := fun h => other _ (recorded apart) (h ▸ recordsLead)
      simp [ne]

/-- A run that fails leaves the files as they were, if there was no file where its records go. The
records have then been written to a new file, if at all, and this is removed. -/
theorem transpile_fst_of_error {cause : TranspileError}
    (fresh : ∀ path ∈ job.recordsPath? settings, ∀ content, fs.read path ≠ .ok content)
    (failed : (job.transpile settings parse fs).2 = .error cause) :
    (job.transpile settings parse fs).1 = fs := by
  obtain ⟨_, _, same⟩ | ⟨plan, after, result, planned, outcome, same⟩ :=
    job.transpile_cases settings parse fs
  · rw [same]
  · rw [same] at failed ⊢
    cases outcome with
    | refused => rfl
    | written | recorded => cases failed
    | withdrawn path text j apart recordsLead recordsFile =>
      obtain ⟨program, made⟩ := makes_of_plan_eq_ok planned
      refine Files.drop_eq_self ?_
      cases found : fs.entries.find? j with
      | none => rfl
      | some entry =>
        cases entry with
        | directory => exact absurd found recordsFile
        | file content =>
          exact absurd (Files.read_eq_ok_iff.2 ((Files.entryAt?_eq recordsLead).trans found))
            (fresh path (made.mem_recordsPath? apart) content)

/-- The tree of a source that declares `x` with a type. -/
def declarationTree (type : String) : Tree :=
  .node ⟨"program", true, none, "", 0⟩
    [.node ⟨"lexical_declaration", true, none, "", 0⟩
      [.node ⟨"variable_declarator", true, none, "", 0⟩
        [.node ⟨"identifier", true, some "name", "x", 0⟩ [],
         .node ⟨"type_annotation", true, some "type", ": " ++ type, 0⟩ [],
         .node ⟨"identifier", true, some "value", "a", 0⟩ []]]]

/-- The code cannot be written where there is a directory, and the records are taken back. -/
theorem transpile_fst_of_error_directory :
    let fs : Files :=
      { entries := .ofList [("a.ts", .file "let x: number = a;"), ("out.py", .directory)] }
    let job : Job :=
      { input := some "a.ts", target := some "python", output := some "out.py", sidecar := true }
    let run := job.transpile {} (fun _ => some (declarationTree "number")) fs
    job.recordsPath? {} = some "out.py.meta.json" ∧
    fs.read "out.py.meta.json" = .error .notFound ∧
    run.2 = .error (.unwritable "out.py" .isDirectory) ∧
    run.1 = fs := by
  refine ⟨rfl, rfl, rfl, transpile_fst_of_error (fun path mem content read => ?_) rfl⟩
  cases mem
  cases read

/-- A run that must not replace its output has a new one. -/
theorem Makes.find?_output {program : Program} {plan : Plan} {k : String}
    (made : job.Makes settings parse fs program plan) (guarded : settings.mayOverwrite = false)
    (leads : fs.key? plan.output = some k) : fs.entries.find? k = none := by
  have free : fs.contains plan.output = false :=
    made.free.resolve_left (by rw [guarded]; exact Bool.false_ne_true)
  rw [Files.contains_eq, Files.entryAt?_eq leads] at free
  simpa using free

/-- What a run leaves of the files that were there when it must not replace its output. It keeps all
but the one where its records go, and it keeps that one as well if and only if no plan is to write
records there, or the run succeeds with the very records that are already there. -/
theorem keeps_transpile_iff (guarded : settings.mayOverwrite = false) :
    (∀ k content, fs.entries.find? k = some (.file content) →
      (∀ path ∈ job.recordsPath? settings, fs.key? path ≠ some k) →
      (job.transpile settings parse fs).1.entries.find? k = some (.file content)) ∧
    (fs.Keeps (job.transpile settings parse fs).1 ↔
      ∀ plan path text old, job.plan settings parse fs = .ok plan →
        plan.records = some (path, text) → fs.read path = .ok old →
        (job.transpile settings parse fs).2 = .ok plan ∧ old = text) := by
  obtain ⟨cause, planned, same⟩ | ⟨plan, after, result, planned, outcome, same⟩ :=
    job.transpile_cases settings parse fs
  · rw [same, planned]
    refine ⟨fun _ _ file _ => file, fun _ _ _ _ _ made => ?_, fun _ _ _ file => file⟩
    cases made
  · rw [same]
    obtain ⟨program, made⟩ := makes_of_plan_eq_ok planned
    have new k (leads : fs.key? plan.output = some k) := made.find?_output guarded leads
    constructor
    · intro k content file other
      exact outcome.find?_of_file new file fun path text apart =>
        other path (made.mem_recordsPath? apart)
    constructor
    · intro keeps plan' path text old planned' apart read
      cases planned.symm.trans planned'
      obtain ⟨j, leads, file⟩ := Files.entryAt?_eq_file_iff.1 (Files.read_eq_ok_iff.1 read)
      have left := outcome.find?_records new apart leads file
      rw [keeps j old file] at left
      cases result with
      | error cause => cases left
      | ok => exact ⟨rfl, by simpa [Except.toOption] using left⟩
    · intro agree k content file
      by_cases elsewhere : ∀ path text, plan.records = some (path, text) → fs.key? path ≠ some k
      · exact outcome.find?_of_file new file elsewhere
      · simp only [Classical.not_forall, Classical.not_not] at elsewhere
        obtain ⟨path, text, apart, leads⟩ := elsewhere
        have read : fs.read path = .ok content :=
          Files.read_eq_ok_iff.2 (Files.entryAt?_eq_file_iff.2 ⟨k, leads, file⟩)
        obtain ⟨succeeds, rfl⟩ := agree plan path text content planned apart read
        rw [outcome.find?_records new apart leads file]
        cases result with
        | error cause => cases succeeds
        | ok => rfl

/-- The records that are already there are written once more. -/
theorem keeps_transpile_iff_repeated :
    let settings : Settings := { overwrite := some false }
    let fs : Files := { entries := .ofList [("a.ts", .file "let x: number = a;"),
      ("a.py.meta.json", .file "[\n  \x7b\n    \"variableType\": \"number\"\n  \x7d\n]")] }
    let job : Job := { input := some "a.ts", target := some "python", sidecar := true }
    settings.mayOverwrite = false ∧
      fs.Keeps (job.transpile settings (fun _ => some (declarationTree "number")) fs).1 := by
  refine ⟨rfl, (keeps_transpile_iff rfl).2.2 fun plan path text old planned apart read => ?_⟩
  cases planned
  cases apart
  cases read
  exact ⟨rfl, rfl⟩

/-- Other records are replaced although there may be no new output in place of an old one. -/
theorem not_keeps_transpile :
    let settings : Settings := { overwrite := some false }
    let fs : Files :=
      { entries := .ofList [("a.ts", .file "let x: number = a;"), ("a.py.meta.json", .file "[]")] }
    let job : Job := { input := some "a.ts", target := some "python", sidecar := true }
    settings.mayOverwrite = false ∧
      ¬ fs.Keeps (job.transpile settings (fun _ => some (declarationTree "number")) fs).1 := by
  intro settings fs job
  refine ⟨rfl, fun keeps => ?_⟩
  have there : fs.entries.find? "a.py.meta.json" = some (.file "[]") := by decide +kernel
  have replaced : (job.transpile settings (fun _ => some (declarationTree "number")) fs).1.entries.find?
      "a.py.meta.json" ≠ some (.file "[]") := by decide +kernel
  exact replaced (keeps _ _ there)

end Job

end Interlingua
