import Interlingua.Proofs.Dict
import Interlingua.Session.Files

/-!
# Files by what their paths lead to

A path leads to an entry, or nowhere. What it leads to depends only on the directories, and these
are never made or removed by writing and removing files: a path leads to the same entry throughout.
Reading, writing and removing are then what they are on a dictionary.
-/

namespace Interlingua

namespace Dict

variable {α : Type}

theorem erase_insert (d : Dict α) (key : String) (value : α) :
    (d.insert key value).erase key = d.erase key := by
  refine ext ?_
  change (insertEntry key value d.entries).filter (·.1 ≠ key) = d.entries.filter (·.1 ≠ key)
  induction d.entries with
  | nil => simp [insertEntry]
  | cons head rest ih =>
    rw [insertEntry]
    split
    · simp
    · split
      · rw [List.filter_cons, List.filter_cons, ih]
      · rename_i notLt notGt
        have same : key = head.1 :=
          String.le_antisymm (String.not_lt.1 notGt) (String.not_lt.1 notLt)
        simp [same]

theorem erase_eq_self {d : Dict α} {key : String} (h : d.find? key = none) : d.erase key = d := by
  refine ext (List.filter_eq_self.2 fun entry mem => ?_)
  have other : key ≠ entry.1 := by simpa using List.lookup_eq_none_iff.1 h entry mem
  simp [Ne.symm other]

end Dict

namespace Files

/-- The key of the entry that a path leads to. A path that leads to the root or nowhere has none. -/
def key? (fs : Files) (path : String) : Option String :=
  (fs.locate path).toOption.bind fun place => if place.isEmpty then none else some (key place)

/-- What a path leads to. -/
def entryAt? (fs : Files) (path : String) : Option Entry :=
  (fs.locate path).toOption.bind fs.entry?

/-- Write a file under its key. -/
def setFile (fs : Files) (k content : String) : Files :=
  { fs with entries := fs.entries.insert k (.file content) }

/-- Remove the entry under a key. -/
def drop (fs : Files) (k : String) : Files :=
  { fs with entries := fs.entries.erase k }

@[simp] theorem find?_setFile (fs : Files) (k id content : String) :
    (fs.setFile k content).entries.find? id =
      if id = k then some (.file content) else fs.entries.find? id :=
  fs.entries.find?_insert k id _

@[simp] theorem find?_drop (fs : Files) (k id : String) :
    (fs.drop k).entries.find? id = if id = k then none else fs.entries.find? id :=
  fs.entries.find?_erase k id

theorem drop_setFile (fs : Files) (k content : String) : (fs.setFile k content).drop k = fs.drop k := by
  simp [drop, setFile, Dict.erase_insert]

theorem drop_eq_self {fs : Files} {k : String} (h : fs.entries.find? k = none) : fs.drop k = fs := by
  simp [drop, Dict.erase_eq_self h]

/-! Paths and directories. -/

/-- Files with the same directories, and the same one to start from. -/
structure Alike (fs fs' : Files) : Prop where
  here : fs.here = fs'.here
  directories (k : String) :
    fs.entries.find? k = some .directory ↔ fs'.entries.find? k = some .directory

/-- A path goes on through directories only. -/
theorem follow_cons (fs : Files) (place : Place) (part : String) (rest : List String) :
    (fs.follow place (part :: rest)).toOption =
      if fs.entry? place = some .directory ∧ ¬ longestName < part.utf8ByteSize then
        (fs.follow (enter place part) rest).toOption
      else none := by
  rw [follow]
  split
  · rename_i none
    simp [none, Except.toOption]
  · rename_i content file
    simp [file, Except.toOption]
  · rename_i directory
    split <;> simp [Except.toOption, *]

theorem follow_append (fs : Files) (place : Place) (front back : List String) :
    (fs.follow place (front ++ back)).toOption =
      (fs.follow place front).toOption.bind fun place => (fs.follow place back).toOption := by
  induction front generalizing place with
  | nil => rfl
  | cons part rest ih =>
    rw [List.cons_append, follow_cons, follow_cons, ih]
    split <;> rfl

/-- A slash at the end of a path asks for a directory. -/
theorem locate_toOption (fs : Files) (path : String) :
    (fs.locate path).toOption =
      (fs.followPath path (Path.names path)).toOption.bind fun place =>
        if Path.endsInSlash path = true ∧ fs.entry? place ≠ some .directory then none
        else some place := by
  have short : ¬ longestName < ".".utf8ByteSize := by decide
  rw [locate, followPath, followPath]
  split
  · rfl
  split
  · rfl
  split
  · rfl
  rw [Path.parts, follow_append]
  congr 1
  funext place
  by_cases slash : Path.endsInSlash path = true
  · rw [if_pos slash, follow_cons]
    by_cases directory : fs.entry? place = some .directory
    · simp [directory, short, enter, follow, Except.toOption]
    · simp [directory, slash]
  · simp [slash, follow, Except.toOption]

namespace Alike

theorem refl (fs : Files) : Alike fs fs :=
  ⟨rfl, fun _ => Iff.rfl⟩

theorem trans {fs fs' fs'' : Files} (h : Alike fs fs') (h' : Alike fs' fs'') : Alike fs fs'' :=
  ⟨h.here.trans h'.here, fun k => (h.directories k).trans (h'.directories k)⟩

/-- Files come and go without a change to the directories. -/
theorem setFile {fs : Files} {k : String} (h : fs.entries.find? k ≠ some .directory)
    (content : String) : Alike fs (fs.setFile k content) where
  here := rfl
  directories id := by
    rw [find?_setFile]
    split
    · rename_i same
      simp [same, h]
    · exact Iff.rfl

theorem drop {fs : Files} {k : String} (h : fs.entries.find? k ≠ some .directory) :
    Alike fs (fs.drop k) where
  here := rfl
  directories id := by
    rw [find?_drop]
    split
    · rename_i same
      simp [same, h]
    · exact Iff.rfl

variable {fs fs' : Files}

theorem entry? (h : Alike fs fs') (place : Place) :
    fs.entry? place = some .directory ↔ fs'.entry? place = some .directory := by
  unfold Files.entry?
  split
  · exact Iff.rfl
  · exact h.directories _

theorem follow (h : Alike fs fs') (place : Place) (parts : List String) :
    (fs.follow place parts).toOption = (fs'.follow place parts).toOption := by
  induction parts generalizing place with
  | nil => rfl
  | cons part rest ih =>
    rw [follow_cons, follow_cons, ih]
    simp only [h.entry? place]

theorem followPath (h : Alike fs fs') (path : String) (parts : List String) :
    (fs.followPath path parts).toOption = (fs'.followPath path parts).toOption := by
  have start : fs.start path = fs'.start path := by simp [Files.start, h.here]
  rw [Files.followPath, Files.followPath, start]
  split
  · rfl
  split
  · rfl
  split
  · rfl
  exact h.follow _ _

theorem key? (h : Alike fs fs') (path : String) : fs.key? path = fs'.key? path := by
  rw [Files.key?, Files.key?, Files.locate, Files.locate, h.followPath]

end Alike

/-! Reading, writing and removing. -/

section

variable {fs : Files} {path k : String}

theorem contains_eq (fs : Files) (path : String) : fs.contains path = (fs.entryAt? path).isSome := by
  rw [contains, entryAt?]
  cases fs.locate path <;> rfl

theorem read_eq {entry : Entry} (h : fs.entryAt? path = some entry) :
    fs.read path = match entry with
      | .file content => .ok content
      | .directory => .error .isDirectory := by
  rw [entryAt?] at h
  rw [read]
  cases located : fs.locate path with
  | error e => simp [located, Except.toOption] at h
  | ok place =>
    have found : fs.entry? place = some entry := by simpa [located, Except.toOption] using h
    dsimp only [bind, Except.bind]
    rw [found]
    cases entry <;> rfl

theorem read_eq_ok_iff {content : String} :
    fs.read path = .ok content ↔ fs.entryAt? path = some (.file content) := by
  cases found : fs.entryAt? path with
  | some entry => cases entry <;> simp [read_eq found]
  | none =>
    rw [entryAt?] at found
    rw [read]
    cases located : fs.locate path with
    | error e => simp [bind, Except.bind]
    | ok place =>
      have missing : fs.entry? place = none := by simpa [located, Except.toOption] using found
      dsimp only [bind, Except.bind]
      rw [missing]
      simp [throw, throwThe, MonadExceptOf.throw]

/-- A path to a file or to nothing leads to what its key has. -/
theorem entryAt?_eq (h : fs.key? path = some k) : fs.entryAt? path = fs.entries.find? k := by
  obtain ⟨place, located, found⟩ := Option.bind_eq_some_iff.1 h
  rw [entryAt?, located]
  split at found
  · cases found
  · rename_i nonempty
    cases found
    simp [nonempty, entry?]

theorem entryAt?_eq_file_iff {content : String} :
    fs.entryAt? path = some (.file content) ↔
      ∃ k, fs.key? path = some k ∧ fs.entries.find? k = some (.file content) := by
  constructor
  · intro h
    obtain ⟨place, located, found⟩ := Option.bind_eq_some_iff.1 h
    cases place with
    | nil => cases found
    | cons name place => exact ⟨key (name :: place), by simp [key?, located], found⟩
  · rintro ⟨k, leads, file⟩
    rw [entryAt?_eq leads, file]

/-- What a path leads to depends on the directories and on the entry under its key. -/
theorem Alike.entryAt? {fs' : Files} (h : Alike fs fs')
    (same : ∀ k, fs.key? path = some k → fs'.entries.find? k = fs.entries.find? k) :
    fs'.entryAt? path = fs.entryAt? path := by
  have located : (fs.locate path).toOption = (fs'.locate path).toOption := h.followPath _ _
  cases leads : fs.key? path with
  | some k => rw [entryAt?_eq leads, entryAt?_eq ((h.key? path).symm.trans leads), same k leads]
  | none =>
    rw [Files.entryAt?, Files.entryAt?, ← located]
    rw [Files.key?] at leads
    cases result : (fs.locate path).toOption with
    | none => rfl
    | some place =>
      cases place with
      | nil => rfl
      | cons name rest => simp [result] at leads

theorem remove_eq {content : String} (leads : fs.key? path = some k)
    (file : fs.entries.find? k = some (.file content)) : fs.remove path = fs.drop k := by
  obtain ⟨place, located, found⟩ := Option.bind_eq_some_iff.1 leads
  cases result : fs.locate path with
  | error e => simp [result, Except.toOption] at located
  | ok place' =>
    obtain rfl : place' = place := by simpa [result, Except.toOption] using located
    split at found
    · cases found
    · rename_i nonempty
      cases found
      simp [remove, result, entry?, nonempty, file, drop]

theorem write_eq {place : Place} (h : fs.followPath path (Path.names path) = .ok place)
    (content : String) :
    fs.write path content =
      if fs.entry? place = some .directory ∨ Path.endsInSlash path = true then .error .isDirectory
      else .ok (fs.insert place (.file content)) := by
  rw [write, h]
  dsimp only [bind, Except.bind]
  split
  · simp [*]
    rfl
  · rename_i other
    have file : fs.entry? place ≠ some .directory := other
    by_cases slash : Path.endsInSlash path = true
    · simp only [slash, if_true, or_true]
      rfl
    · rw [if_neg slash, if_neg (not_or.2 ⟨file, slash⟩)]
      rfl

/-- A file is written where its path leads to, unless there is a directory. -/
theorem write_eq_ok_iff {content : String} {fs' : Files} :
    fs.write path content = .ok fs' ↔
      ∃ k, fs.key? path = some k ∧ fs.entries.find? k ≠ some .directory ∧
        fs' = fs.setFile k content := by
  rw [key?, locate_toOption]
  cases followed : fs.followPath path (Path.names path) with
  | error e => simp [write, followed, Except.toOption, bind, Except.bind]
  | ok place =>
    rw [write_eq followed]
    cases place with
    | nil => simp [Except.toOption, entry?]
    | cons name place =>
      have entry : fs.entry? (name :: place) = fs.entries.find? (key (name :: place)) := rfl
      by_cases directory : fs.entry? (name :: place) = some .directory
      · simp [Except.toOption, directory, ← entry]
      · by_cases slash : Path.endsInSlash path = true
        · simp [Except.toOption, directory, slash]
        · simp [Except.toOption, directory, slash, ← entry, insert, setFile]
          exact eq_comm

end

end Files

end Interlingua
