import Interlingua.Proofs.Session.Siblings
import Interlingua.Proofs.Session.Transpile

/-!
# What a run leaves of its input

A run reads its input and the records beside it, and writes in the same directory if no output is named.
What it reads stays as it is unless an output has the same path. With the language taken from the
extension of the input that never happens; a language that is asked for can be written under the very
path it is read from.
-/

namespace Interlingua

theorem Files.toOption_read_congr {fs fs' : Files} {path : String}
    (h : fs'.entryAt? path = fs.entryAt? path) : (fs'.read path).toOption = (fs.read path).toOption := by
  have reads {x : Except FileError String} {content : String} :
      x.toOption = some content ↔ x = .ok content := by
    cases x <;> simp [Except.toOption]
  ext content
  rw [reads, reads, read_eq_ok_iff, read_eq_ok_iff, h]

/-- Extensions of different languages do not start alike. -/
theorem Language.eq_of_comparable : ∀ s t : Language, ∀ extension ∈ s.sourceExtensions,
    extension.toList <+: t.extension.toList ∨ t.extension.toList <+: extension.toList → s = t := by
  intro s t
  cases s <;> cases t <;> decide

/-- Whether a file is left as it is by a plan that is carried out. The code must not go there unless it
is the same, and the records must not either, unless they are the same or the code comes after them. A
plan that fails removes its records. -/
theorem Plan.Outcome.find?_iff {plan : Plan} {fs after : Files} {result : Except TranspileError Unit}
    (outcome : plan.Outcome fs after result) {k content : String}
    (file : fs.entries.find? k = some (.file content)) :
    after.entries.find? k = some (.file content) ↔
      (fs.key? plan.output = some k → result = .ok () → plan.code = content) ∧
      ∀ path text, plan.records = some (path, text) → fs.key? path = some k →
        result = .ok () ∧ (fs.key? plan.output = some k ∨ text = content) := by
  cases outcome with
  | refused blocked cause =>
    have elsewhere path text (apart : plan.records = some (path, text)) : fs.key? path ≠ some k := by
      intro leads
      cases file.symm.trans (blocked path text k apart leads)
    simpa [file] using elsewhere
  | written j together leads _ => simp [together, leads, file, eq_comm]
  | recorded path text i j apart recordsLead _ leads _ =>
    by_cases code : k = j
    · simp [apart, leads, code, eq_comm]
    · by_cases records : k = i
      · subst records
        simp [apart, recordsLead, leads, code, Ne.symm code]
      · simp [apart, recordsLead, leads, code, records, file, eq_comm]
  | withdrawn path text i apart recordsLead _ cause =>
    simp [apart, recordsLead, file, eq_comm]

namespace Job

/-- The paths that a run reads. -/
def sources (job : Job) (settings : Settings) : List String :=
  job.input.toList.flatMap fun input => [input, input ++ settings.suffix]

variable {job : Job} {settings : Settings} {parse : Parser} {fs : Files}

theorem read_transpile_iff {path content : String} (there : fs.read path = .ok content) :
    (job.transpile settings parse fs).1.read path = .ok content ↔
      ∀ plan, job.plan settings parse fs = .ok plan →
        (fs.key? plan.output = fs.key? path → (job.transpile settings parse fs).2 = .ok plan →
          plan.code = content) ∧
        ∀ records text, plan.records = some (records, text) → fs.key? records = fs.key? path →
          (job.transpile settings parse fs).2 = .ok plan ∧
            (fs.key? plan.output = fs.key? path ∨ text = content) := by
  obtain ⟨k, found, file⟩ := Files.entryAt?_eq_file_iff.1 (Files.read_eq_ok_iff.1 there)
  have alike := (job.transpile_find? settings parse fs).1
  rw [Files.read_eq_ok_iff, Files.entryAt?_eq ((alike.key? path).symm.trans found), found]
  obtain ⟨cause, planned, same⟩ | ⟨plan, after, result, planned, outcome, same⟩ :=
    job.transpile_cases settings parse fs
  · simp [same, planned, file]
  · have done : result.map (fun _ => plan) = .ok plan ↔ result = .ok () := by
      cases result <;> simp [Except.map]
    rw [same, planned]
    simp only [Except.ok.injEq, forall_eq', done]
    exact outcome.find?_iff file

/-- The languages of a run are known and differ. -/
theorem languages_of_plan_eq_ok {plan : Plan} {input : String}
    (planned : job.plan settings parse fs = .ok plan) (given : job.input = some input) :
    ∃ source target, sourceLanguage input job.source = .ok source ∧
      job.target.bind Language.target? = some target ∧ source ≠ target := by
  unfold Job.plan at planned
  rw [given] at planned
  dsimp only at planned
  split at planned
  rotate_left
  · cases planned
  rename_i name named
  obtain ⟨source, detected, planned⟩ := of_bind_eq_ok planned
  obtain ⟨target, known, planned⟩ := of_bind_eq_ok planned
  refine ⟨source, target, detected, ?_, ?_⟩
  · unfold targetLanguage at known
    split at known
    · rename_i found
      cases known
      rw [named, Option.bind_some, found]
    · cases known
  · rintro rfl
    rw [if_pos rfl] at planned
    cases planned

/-- A language that is detected has an extension of the input. -/
theorem exists_extension_of_detected {input : String} {source : Language}
    (detected : sourceLanguage input none = .ok source) :
    ∃ extension, Path.extension? input = some extension ∧
      String.ofList (extension.toList.map Char.toLower) ∈ source.sourceExtensions := by
  unfold sourceLanguage at detected
  dsimp only at detected
  split at detected
  · rename_i language found
    cases detected
    obtain ⟨lower, known, found⟩ := Option.bind_eq_some_iff.1 found
    obtain ⟨extension, there, rfl⟩ := Option.map_eq_some_iff.1 known
    exact ⟨extension, there, by simpa using List.find?_some found⟩
  · cases detected

theorem outputs_subset {output : String} (goes : job.outputPath? = some output) :
    job.outputs settings ⊆ [output, output ++ settings.suffix] := by
  intro path mem
  rw [outputs, recordsPath?, goes] at mem
  split at mem
  · simpa using mem
  · simp_all

/-- How the output of a run lies beside its input. -/
structure Beside (job : Job) (input output : String) (source target : Language)
    (directory name new : List Char) : Prop where
  language : sourceLanguage input job.source = .ok source
  differ : source ≠ target
  inputIn : Path.In directory name input
  inputName : name ≠ ['.']
  outputIn : Path.In directory new output
  outputName : new ≠ ['.']
  renames : Path.Renames target.extension.toList name ((Path.extension? input).map String.toList) new

/-- The output of a run without a named one is in the directory of the input. -/
theorem exists_beside {plan : Plan} {input : String} (planned : job.plan settings parse fs = .ok plan)
    (given : job.input = some input) (unnamed : job.output = none) :
    ∃ source target directory name new, job.Beside input plan.output source target directory name new := by
  obtain ⟨program, made⟩ := makes_of_plan_eq_ok planned
  obtain ⟨source, target, language, known, differ⟩ := languages_of_plan_eq_ok planned given
  obtain ⟨input', supply, given', supplied, -⟩ := made.read
  cases given.symm.trans given'
  obtain ⟨content, read, -⟩ := of_bind_eq_ok supplied
  have there : fs.read input = .ok content := by
    unfold readFile at read
    split at read
    · rename_i content' there
      cases read
      exact there
    · cases read
  obtain ⟨directory, name, inside, dot⟩ := Files.exists_in_of_read there
  have plain : '/' ∉ target.extension.toList := by cases target <;> decide
  obtain ⟨new, renames, beside⟩ := Path.renames_withExtension inside dot plain
  have output := made.output
  rw [outputPath?, given, known, Option.bind_some, Option.map_some, outputPath, unnamed,
    Option.getD_none] at output
  rw [Option.some.inj output] at beside
  exact ⟨source, target, directory, name, new, language, differ, inside, dot, beside,
    renames.ne_dot inside.full, renames⟩

theorem mem_sources {path : String} (mem : path ∈ job.sources settings) :
    ∃ input, job.input = some input ∧ path ∈ [input, input ++ settings.suffix] := by
  obtain ⟨input, given, mem⟩ := List.mem_flatMap.1 mem
  exact ⟨input, Option.mem_toList.1 given, mem⟩

section

variable {plan : Plan} (planned : job.plan settings parse fs = .ok plan) (unnamed : job.output = none)
  (slash : '/' ∉ settings.suffix.toList) {path : String} (mem : path ∈ job.sources settings)

include planned unnamed slash mem

/-- What a run reads stays as it is if no output has the same path. -/
theorem read_sources_of_notMem (other : path ∉ job.outputs settings) :
    ((job.transpile settings parse fs).1.read path).toOption = (fs.read path).toOption := by
  obtain ⟨input, given, mem⟩ := mem_sources mem
  obtain ⟨source, target, directory, name, new, beside⟩ := exists_beside planned given unnamed
  obtain ⟨program, made⟩ := makes_of_plan_eq_ok planned
  obtain ⟨own, -, within, dot⟩ := beside.inputIn.exists_mem beside.inputName slash mem
  obtain ⟨alike, same⟩ := job.transpile_find? settings parse fs
  refine Files.toOption_read_congr (alike.entryAt? fun k leads => same k fun out goes => ?_)
  obtain ⟨own', -, within', dot'⟩ :=
    beside.outputIn.exists_mem beside.outputName slash (outputs_subset made.output goes)
  have differ : own ≠ own' := by
    rintro rfl
    exact other (within.path_eq within' ▸ goes)
  exact Files.key?_ne_of_in within within' dot dot' differ leads

/-- A language that is detected is not written under a path that is read. -/
theorem notMem_outputs_of_detected (detected : job.source = none)
    (other : ∀ input ∈ job.input, Path.extension? input ≠ some settings.suffix) :
    path ∉ job.outputs settings := by
  intro goes
  obtain ⟨input, given, mem⟩ := mem_sources mem
  obtain ⟨source, target, directory, name, new, beside⟩ := exists_beside planned given unnamed
  obtain ⟨program, made⟩ := makes_of_plan_eq_ok planned
  obtain ⟨extension, there, known⟩ := exists_extension_of_detected (detected ▸ beside.language)
  have foreign : extension ≠ settings.suffix := fun same => other input given (same ▸ there)
  obtain ⟨own, among, within, -⟩ := beside.inputIn.exists_mem beside.inputName slash mem
  obtain ⟨own', among', within', -⟩ :=
    beside.outputIn.exists_mem beside.outputName slash (outputs_subset made.output goes)
  have same : own = own' := List.append_cancel_left (within.shown.symm.trans within'.shown)
  -- neither extension goes on from the other
  have clash (h : extension.toList <+: target.extension.toList ∨
      target.extension.toList <+: extension.toList) : False := by
    have small : target.extension.toList.map Char.toLower = target.extension.toList := by
      cases target <;> decide
    refine beside.differ (Language.eq_of_comparable source target _ known ?_)
    rw [String.toList_ofList, ← small]
    exact h.imp (fun h => h.map _) (fun h => h.map _)
  have renames := beside.renames
  rw [there, Option.map_some] at renames
  simp only [List.mem_cons, List.not_mem_nil, or_false] at among among'
  cases renames with
  | cut =>
    have nothing (none : extension.toList = []) : False := clash (.inl (none ▸ List.nil_prefix))
    rcases among with rfl | rfl <;> rcases among' with rfl | rfl
    · exact nothing (by simpa using same)
    · exact foreign (String.toList_inj.1 (by simpa using same))
    · exact nothing (by simp_all)
    · exact nothing (by simpa using same)
  | replaced =>
    rcases among with rfl | rfl <;> rcases among' with rfl | rfl
    · exact clash (.inl ⟨[], by simpa using same⟩)
    · exact clash (.inr ⟨settings.suffix.toList, by simpa using same.symm⟩)
    · exact clash (.inl ⟨settings.suffix.toList, by simpa using same⟩)
    · exact clash (.inl ⟨[], by simpa using same⟩)

end

/-- What a run without a named output leaves of what it reads. A file is left exactly if neither the code
nor the records of a plan replace or remove it. That they do not is known from the paths alone, and where
the language is detected there is nothing to know but that the suffix of records is not the extension of
the input itself: of `..py` the output is `..`, and with the suffix `py` the records go to `..py`. -/
theorem read_sources_transpile (unnamed : job.output = none) :
    (∀ path ∈ job.sources settings, ∀ content, fs.read path = .ok content →
      ((job.transpile settings parse fs).1.read path = .ok content ↔
        ∀ plan, job.plan settings parse fs = .ok plan →
          (fs.key? plan.output = fs.key? path → (job.transpile settings parse fs).2 = .ok plan →
            plan.code = content) ∧
          ∀ records text, plan.records = some (records, text) → fs.key? records = fs.key? path →
            (job.transpile settings parse fs).2 = .ok plan ∧
              (fs.key? plan.output = fs.key? path ∨ text = content))) ∧
    ('/' ∉ settings.suffix.toList →
      (∀ path ∈ job.sources settings, path ∉ job.outputs settings) ∨
        job.source = none ∧ (∀ input ∈ job.input, Path.extension? input ≠ some settings.suffix) →
      ∀ path ∈ job.sources settings,
        ((job.transpile settings parse fs).1.read path).toOption = (fs.read path).toOption) := by
  refine ⟨fun path _ content there => read_transpile_iff there, fun slash apart path mem => ?_⟩
  cases planned : job.plan settings parse fs with
  | error cause => rw [transpile, planned]
  | ok plan =>
    refine read_sources_of_notMem planned unnamed slash mem ?_
    rcases apart with apart | ⟨detected, other⟩
    · exact apart path mem
    · exact notMem_outputs_of_detected planned unnamed slash mem detected other

/-- The code and the records go beside the input. -/
theorem read_sources_transpile_beside :
    let fs : Files :=
      { entries := .ofList [("a.ts", .file "let x: number = a;"), ("a.ts.meta.json", .file "[]")] }
    let job : Job := { input := some "a.ts", target := some "python", sidecar := true }
    let run := job.transpile {} (fun _ => some (declarationTree "number")) fs
    run.2.toOption.map (·.output) = some "a.py" ∧ job.output = none ∧
    (run.1.read "a.ts").toOption = some "let x: number = a;" ∧
    (run.1.read "a.ts.meta.json").toOption = some "[]" := by
  intro fs job run
  have kept := (@read_sources_transpile job {} (fun _ => some (declarationTree "number")) fs rfl).2
    (by decide) (.inr ⟨rfl, fun input given => by cases given; decide⟩)
  refine ⟨by decide +kernel, rfl, ?_, ?_⟩
  · exact (kept "a.ts" (by decide)).trans (by decide +kernel)
  · exact (kept "a.ts.meta.json" (by decide)).trans (by decide +kernel)

/-- Read as another language than its extension says, the input is replaced by its own translation. -/
theorem read_input_transpile_replaced :
    let fs : Files := { entries := .ofList [("a.js", .file "let x: number = a;")] }
    let job : Job := { input := some "a.js", source := some "typescript", target := some "javascript" }
    let run := job.transpile {} (fun _ => some (declarationTree "number")) fs
    job.output = none ∧ (fs.read "a.js").toOption = some "let x: number = a;" ∧
    (run.1.read "a.js").toOption =
      some "let x = a; // __META__: \x7b\"variableType\":\"number\"\x7d" := by
  decide +kernel

end Job

end Interlingua
