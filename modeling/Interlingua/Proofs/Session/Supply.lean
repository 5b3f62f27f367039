import Interlingua.Proofs.Record.Listing
import Interlingua.Proofs.Session.Transpile

/-!
# What an output supplies to later runs

A run that reads the output of an earlier one takes the records beside it, if there are any, and those
in its comments otherwise. Between the two runs nothing changes but the outputs of the runs between
them. So it takes what the earlier run has left, and this is what that run had for the output unless
records were beside the output before and the run has put its own in comments, or unless one of its
records cannot be spelled.
-/

namespace Interlingua

namespace Files

/-- Two paths lead to the same place, or both nowhere. -/
def SamePlace (fs : Files) (path path' : String) : Prop :=
  (fs.locate path).toOption = (fs.locate path').toOption

instance (fs : Files) (path path' : String) : Decidable (fs.SamePlace path path') :=
  inferInstanceAs (Decidable (_ = _))

namespace SamePlace

variable {fs fs' : Files} {path path' : String}

theorem key? (h : fs.SamePlace path path') : fs.key? path = fs.key? path' := by
  rw [Files.key?, Files.key?, h]

theorem entryAt? (h : fs.SamePlace path path') : fs.entryAt? path = fs.entryAt? path' := by
  rw [Files.entryAt?, Files.entryAt?, h]

theorem alike (h : fs.SamePlace path path') (same : fs.Alike fs') : fs'.SamePlace path path' :=
  (same.followPath _ _).symm.trans (h.trans (same.followPath _ _))

end SamePlace

end Files

namespace Job

/-! What is read from a path depends on what it leads to. -/

theorem readFile_of_entryAt? {fs : Files} {path content : String}
    (h : fs.entryAt? path = some (.file content)) : readFile fs path = .ok content := by
  rw [readFile, Files.read_eq h]

theorem recordsBeside_eq (fs : Files) (path : String) :
    recordsBeside fs path = match fs.entryAt? path with
      | none => .ok none
      | some .directory => .error (.unreadable path .isDirectory)
      | some (.file content) =>
        match recordList? content with
        | some records => .ok (some records)
        | none => .error (.badRecords path) := by
  unfold recordsBeside
  rw [Files.contains_eq]
  cases found : fs.entryAt? path with
  | none => rfl
  | some entry =>
    rw [Option.isSome_some, if_pos rfl, readFile, Files.read_eq found]
    cases entry with
    | directory => rfl
    | file content =>
      change (match recordList? content with | some records => _ | none => _) =
        match recordList? content with | some records => _ | none => _
      cases recordList? content <;> rfl

theorem supply_eq {settings : Settings} {fs : Files} {path content : String}
    (h : fs.entryAt? path = some (.file content)) :
    supply settings fs path =
      (recordsBeside fs (path ++ settings.suffix)).map (Supply.mk content) := by
  rw [supply, readFile_of_entryAt? h]
  cases recordsBeside fs (path ++ settings.suffix) <;> rfl

/-- A run that finds no records beside a path finds nothing there at all. -/
theorem recordsBeside_eq_none_iff {fs : Files} {path : String} :
    recordsBeside fs path = .ok none ↔ fs.contains path = false := by
  rw [recordsBeside_eq, Files.contains_eq]
  cases fs.entryAt? path with
  | none => simp
  | some entry =>
    cases entry with
    | directory => simp
    | file content => cases read : recordList? content <;> simp [read]

theorem stated_recordsBeside {fs : Files} {path : String} {rs : List Record}
    (h : recordsBeside fs path = .ok (some rs)) : ∀ r ∈ rs, r.Stated := by
  rw [recordsBeside_eq] at h
  split at h
  · cases h
  · cases h
  · split at h
    · rename_i listed
      cases h
      exact stated_recordList? listed
    · cases h

/-! A series of runs. -/

/-- The files after a series of runs with the same settings. -/
def transpileAll (settings : Settings) (runs : List (Job × Parser)) (fs : Files) : Files :=
  runs.foldl (fun fs run => (run.1.transpile settings run.2 fs).1) fs

theorem transpileAll_find? (settings : Settings) (runs : List (Job × Parser)) (fs : Files) :
    fs.Alike (transpileAll settings runs fs) ∧
      ∀ k, (∀ run ∈ runs, ∀ path ∈ run.1.outputs settings, fs.key? path ≠ some k) →
        (transpileAll settings runs fs).entries.find? k = fs.entries.find? k := by
  induction runs generalizing fs with
  | nil => exact ⟨.refl fs, fun _ _ => rfl⟩
  | cons run runs ih =>
    obtain ⟨alike, kept⟩ := run.1.transpile_find? settings run.2 fs
    obtain ⟨alike', kept'⟩ := ih (run.1.transpile settings run.2 fs).1
    refine ⟨alike.trans alike', fun k elsewhere => ?_⟩
    obtain ⟨first, others⟩ := List.forall_mem_cons.1 elsewhere
    refine (kept' k fun run mem path output => ?_).trans (kept k first)
    rw [← alike.key? path]
    exact others run mem path output

/-! The output of a run. -/

section

variable {job : Job} {settings : Settings} {parse : Parser} {fs : Files} {plan : Plan}

theorem Makes.recordsPath? {program : Program} (made : job.Makes settings parse fs program plan) :
    job.recordsPath? settings =
      if job.recordMode settings = .sidecar then some (plan.output ++ settings.suffix) else none := by
  rw [Job.recordsPath?, made.output, Option.map_some]

/-- The program of a plan has stated records. -/
theorem Makes.stated {program : Program} (made : job.Makes settings parse fs program plan) :
    ∀ r ∈ program.gather, r.Stated := by
  obtain ⟨input, supplied, -, supply, read⟩ := made.read
  obtain ⟨content, -, supply⟩ := of_bind_eq_ok supply
  obtain ⟨records, found, supply⟩ := of_bind_eq_ok supply
  cases supply
  refine stated_of_readProgram (fun rs same => ?_) read
  cases same
  exact stated_recordsBeside found

/-- What a run that succeeds has done. Its code is where its output goes. Its records are beside it, if
they go there and not to the output itself; otherwise everything else is as it was. -/
theorem find?_of_transpile_ok (done : (job.transpile settings parse fs).2 = .ok plan) :
    ∃ program k, job.Makes settings parse fs program plan ∧ fs.key? plan.output = some k ∧
      (job.transpile settings parse fs).1.entries.find? k = some (.file plan.code) ∧
      match job.recordMode settings with
      | .sidecar => ∃ j, fs.key? (plan.output ++ settings.suffix) = some j ∧
          (j ≠ k → (job.transpile settings parse fs).1.entries.find? j =
            some (.file (recordsText program.gather)))
      | .inline => ∀ j, j ≠ k →
          (job.transpile settings parse fs).1.entries.find? j = fs.entries.find? j := by
  obtain ⟨cause, -, same⟩ | ⟨plan', after, result, planned, outcome, same⟩ :=
    job.transpile_cases settings parse fs
  · rw [same] at done
    cases done
  · rw [same] at done ⊢
    obtain ⟨program, made⟩ := makes_of_plan_eq_ok planned
    have records := made.records
    rw [made.recordsPath?] at records
    cases outcome with
    | refused | withdrawn => cases done
    | written k together leads file =>
      cases done
      refine ⟨program, k, made, leads, by simp, ?_⟩
      cases mode : job.recordMode settings with
      | sidecar => simp [mode, together] at records
      | inline =>
        intro j ne
        simp [ne]
    | recorded path text j k apart recordsLead recordsFile leads file =>
      cases done
      refine ⟨program, k, made, leads, by simp, ?_⟩
      cases mode : job.recordMode settings with
      | inline => simp [mode, apart] at records
      | sidecar =>
        simp only [mode, apart, if_true, Option.map_some, Option.some.injEq, Prod.mk.injEq] at records
        obtain ⟨rfl, rfl⟩ := records
        refine ⟨j, recordsLead, fun ne => ?_⟩
        simp [ne]

end

/-- What the output of a run supplies to a later one, which may reach it by another path. Between the
two there are runs that write neither to the output nor beside it, or leave both as they were. If the
records of the run are beside its output, they are taken as they were written, but for tuples that
cannot be spelled. If they are in its comments, what is taken is what was beside the output before, and
only if there was nothing are the comments read. -/
theorem supply_transpileAll {job : Job} {settings : Settings} {parse : Parser} {fs : Files}
    {plan : Plan} (done : (job.transpile settings parse fs).2 = .ok plan)
    (apart : fs.key? (plan.output ++ settings.suffix) ≠ fs.key? plan.output)
    (later : List (Job × Parser))
    (kept : ∀ k, fs.key? plan.output = some k ∨ fs.key? (plan.output ++ settings.suffix) = some k →
      (∀ run ∈ later, ∀ path ∈ run.1.outputs settings, fs.key? path ≠ some k) ∨
      (transpileAll settings later (job.transpile settings parse fs).1).entries.find? k =
        (job.transpile settings parse fs).1.entries.find? k)
    {path : String} (reached : fs.SamePlace path plan.output)
    (beside : fs.SamePlace (path ++ settings.suffix) (plan.output ++ settings.suffix)) :
    let after := transpileAll settings later (job.transpile settings parse fs).1
    ∃ program, job.Makes settings parse fs program plan ∧
      match job.recordMode settings with
      | .sidecar =>
        supply settings after path = .ok ⟨plan.code, some program.gather⟩ ↔
          ∀ r ∈ program.gather, r.variableType ≠ some (.tuple [.unknown])
      | .inline =>
        supply settings after path =
          (recordsBeside fs (path ++ settings.suffix)).map (Supply.mk plan.code) ∧
        (supply settings after path = .ok ⟨plan.code, none⟩ ↔
          fs.contains (path ++ settings.suffix) = false) := by
  intro after
  obtain ⟨program, k, made, leads, code, rest⟩ := find?_of_transpile_ok done
  refine ⟨program, made, ?_⟩
  obtain ⟨alike, -⟩ := job.transpile_find? settings parse fs
  obtain ⟨alike', frame⟩ := transpileAll_find? settings later (job.transpile settings parse fs).1
  have unchanged (id : String) (aimed : fs.key? plan.output = some id ∨
      fs.key? (plan.output ++ settings.suffix) = some id) :
      after.entries.find? id = (job.transpile settings parse fs).1.entries.find? id := by
    refine (kept id aimed).elim (fun elsewhere => frame id fun run mem path output => ?_) fun h => h
    rw [← alike.key? path]
    exact elsewhere run mem path output
  have same : fs.Alike after := alike.trans alike'
  have own : after.entryAt? path = some (.file plan.code) := by
    rw [(reached.alike same).entryAt?, Files.entryAt?_eq ((same.key? _).symm.trans leads),
      unchanged k (.inl leads), code]
  rw [supply_eq own]
  cases mode : job.recordMode settings with
  | sidecar =>
    rw [mode] at rest
    obtain ⟨j, lead, text⟩ := rest
    have ne : j ≠ k := fun same => apart (by rw [lead, leads, same])
    have records : after.entryAt? (path ++ settings.suffix) =
        some (.file (recordsText program.gather)) := by
      rw [(beside.alike same).entryAt?, Files.entryAt?_eq ((same.key? _).symm.trans lead),
        unchanged j (.inr lead), text ne]
    have listed := recordList?_recordsText program.gather
    dsimp only
    rw [← recordList?_recordsText_gather_iff made.stated, recordsBeside_eq, records]
    simp [listed, Except.map]
  | inline =>
    rw [mode] at rest
    have records : after.entryAt? (path ++ settings.suffix) =
        fs.entryAt? (path ++ settings.suffix) := by
      refine same.entryAt? fun j lead => ?_
      rw [beside.key?] at lead
      have ne : j ≠ k := fun same => apart (by rw [lead, leads, same])
      rw [unchanged j (.inr lead), rest j ne]
    have taken : recordsBeside after (path ++ settings.suffix) =
        recordsBeside fs (path ++ settings.suffix) := by
      rw [recordsBeside_eq, recordsBeside_eq, records]
    dsimp only
    rw [taken, ← recordsBeside_eq_none_iff]
    refine ⟨rfl, ?_⟩
    cases recordsBeside fs (path ++ settings.suffix) <;> simp [Except.map]

/-- Two sources that declare `x` with different types. -/
def declaringFiles : Files :=
  { entries := .ofList [("a.ts", .file "let x: number = a;"), ("b.ts", .file "let x: string = a;")] }

/-- A parser that finds a declaration of `x` with a type in every source. -/
def declaringParser (type : String) : Parser :=
  fun _ => some (declarationTree type)

def declaringJob (input output : String) (sidecar : Bool) : Job :=
  { input := some input, target := some "python", output := some output, sidecar }

/-- Records beside an output, taken through another path after a run that writes elsewhere. -/
theorem supply_transpileAll_beside :
    let run := (declaringJob "a.ts" "out.py" true).transpile {} (declaringParser "number") declaringFiles
    let later := [(declaringJob "b.ts" "other.py" false, declaringParser "string")]
    (∃ plan, run.2 = .ok plan) ∧
    supply {} (transpileAll {} later run.1) "./out.py" =
      .ok ⟨"x = a", some [{ variableType := some (.base .number) }]⟩ := by
  intro run later
  have done : run.2 = .ok ⟨.typescript, .python, "out.py", "x = a", some ("out.py.meta.json",
      "[\n  \x7b\n    \"variableType\": \"number\"\n  \x7d\n]")⟩ := rfl
  refine ⟨⟨_, done⟩, ?_⟩
  have reached : declaringFiles.SamePlace "./out.py" "out.py" := by decide +kernel
  have beside : declaringFiles.SamePlace "./out.py.meta.json" "out.py.meta.json" := by decide +kernel
  have apart : declaringFiles.key? "out.py.meta.json" ≠ declaringFiles.key? "out.py" := by
    decide +kernel
  have elsewhere (k : String) (aimed : declaringFiles.key? "out.py" = some k ∨
      declaringFiles.key? "out.py.meta.json" = some k) :
      ∀ run ∈ later, ∀ path ∈ run.1.outputs {}, declaringFiles.key? path ≠ some k := by
    intro run mem path output
    cases List.mem_singleton.1 mem
    cases List.mem_singleton.1 output
    rcases aimed with same | same <;> cases same <;> decide +kernel
  obtain ⟨program, made, round⟩ :=
    supply_transpileAll done apart later (fun k aimed => .inl (elsewhere k aimed)) reached beside
  obtain ⟨input, supplied, given, found, read⟩ := made.read
  cases given
  cases found
  cases read
  exact round.2 (by decide)

/-- The sources and an output of the first of them, with its records beside it. -/
def outdatedFiles : Files :=
  { entries := .ofList [("a.ts", .file "let x: number = a;"), ("b.ts", .file "let x: string = a;"),
      ("out.py", .file "x = a"), ("out.py.meta.json",
        .file "[\n  \x7b\n    \"variableType\": \"number\"\n  \x7d\n]")] }

/-- Records beside an output from an earlier run, taken in place of those in its comments. -/
theorem supply_transpileAll_outdated :
    let before :=
      ((declaringJob "a.ts" "out.py" true).transpile {} (declaringParser "number") declaringFiles).1
    let run := (declaringJob "b.ts" "out.py" false).transpile {} (declaringParser "string") before
    let code := "x = a # __META__: \x7b\"variableType\":\"string\"\x7d"
    run.2 = .ok ⟨.typescript, .python, "out.py", code, none⟩ ∧
    supply {} run.1 "out.py" = .ok ⟨code, some [{ variableType := some (.base .number) }]⟩ := by
  have left : ((declaringJob "a.ts" "out.py" true).transpile {} (declaringParser "number")
      declaringFiles).1 = outdatedFiles := by decide +kernel
  have beside : recordsText [{ variableType := some (.base .number) }] =
      "[\n  \x7b\n    \"variableType\": \"number\"\n  \x7d\n]" := by decide +kernel
  have listed := recordList?_recordsText [{ variableType := some (.base .number) }]
  rw [left]
  intro before run code
  have own : run.1.entryAt? "out.py" = some (.file code) := by decide +kernel
  have older : run.1.entryAt? "out.py.meta.json" =
      some (.file (recordsText [{ variableType := some (.base .number) }])) := by
    rw [beside]
    decide +kernel
  have taken : recordsBeside run.1 "out.py.meta.json" =
      .ok (some [{ variableType := some (.base .number) }]) := by
    rw [recordsBeside_eq, older]
    simp only [listed]
    rfl
  refine ⟨rfl, ?_⟩
  rw [supply_eq own]
  exact congrArg _ taken

end Job

end Interlingua
