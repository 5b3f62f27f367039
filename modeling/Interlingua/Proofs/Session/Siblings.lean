import Interlingua.Proofs.Session.Files
import Interlingua.Proofs.Text.Occurrences

/-!
# Paths in the same directory

A path is a directory, as it stands in front of a name, and the name. Two paths with the same directory
and different names never lead to the same entry.
-/

namespace Interlingua

open Text

namespace Path

/-- A path by its directory, which is nothing or ends in a slash, and a name in it. -/
structure In (directory name : List Char) (path : String) : Prop where
  shown : path.toList = directory ++ name
  front : directory = [] ∨ ∃ outer, directory = outer ++ ['/']
  plain : '/' ∉ name
  full : name ≠ []

/-- A text before and after the last occurrence of a character. -/
theorem exists_split (sep : Char) (cs : List Char) : ∃ front back, cs = front ++ back ∧ sep ∉ back ∧
    (front = [] ∨ ∃ outer, front = outer ++ [sep]) := by
  induction cs with
  | nil => exact ⟨[], [], rfl, by simp, .inl rfl⟩
  | cons c cs ih =>
    obtain ⟨front, back, rfl, plain, ends⟩ := ih
    rcases ends with rfl | ⟨outer, rfl⟩
    · by_cases same : c = sep
      · exact ⟨[sep], back, by rw [same]; rfl, plain, .inr ⟨[], rfl⟩⟩
      · exact ⟨[], c :: back, rfl, by simp [Ne.symm same, plain], .inl rfl⟩
    · exact ⟨c :: outer ++ [sep], back, by simp, plain, .inr ⟨c :: outer, rfl⟩⟩

theorem takeWhile_reverse {sep : Char} {back : List Char} (plain : sep ∉ back) {front : List Char}
    (ends : front = [] ∨ ∃ outer, front = outer ++ [sep]) :
    ((front ++ back).reverse.takeWhile (· ≠ sep)).reverse = back := by
  have other : ∀ c ∈ back.reverse, decide (c ≠ sep) = true := fun c mem =>
    decide_eq_true fun same => plain (same ▸ List.mem_reverse.1 mem)
  have stop : front.reverse.takeWhile (· ≠ sep) = [] := by
    rcases ends with rfl | ⟨outer, rfl⟩ <;> simp
  rw [List.reverse_append, List.takeWhile_append_of_pos other, stop, List.append_nil,
    List.reverse_reverse]

namespace In

variable {directory name : List Char} {path : String} (h : In directory name path)

include h

theorem names_eq : names path = names (String.ofList directory) ++ [String.ofList name] := by
  have nonempty : name.isEmpty = false := by simpa using h.full
  rw [names, names, h.shown, String.toList_ofList]
  rcases h.front with rfl | ⟨outer, rfl⟩
  · simp [splitOn_of_notMem h.plain, splitOn, nonempty]
  · rw [List.append_assoc, List.singleton_append, splitOn_append, splitOn_append,
      splitOn_of_notMem h.plain]
    simp [splitOn, nonempty]

theorem endsInSlash_eq : endsInSlash path = false := by
  obtain ⟨c, last⟩ := Option.isSome_iff_exists.1 (List.getLast?_isSome.2 h.full)
  have other : c ≠ '/' := fun slash => h.plain (slash ▸ List.mem_of_getLast? last)
  simp [endsInSlash, h.shown, List.getLast?_append, last, other]

theorem isAbsolute_eq : isAbsolute path = isAbsolute (String.ofList directory) := by
  rw [isAbsolute, isAbsolute, h.shown, String.toList_ofList]
  rcases h.front with rfl | ⟨outer, rfl⟩
  · obtain ⟨c, cs, rfl⟩ := List.exists_cons_of_ne_nil h.full
    have other : c ≠ '/' := fun slash => h.plain (slash ▸ List.mem_cons_self)
    simp [other]
  · cases outer <;> rfl

variable (dot : name ≠ ['.'])

include dot

theorem trimTail_eq : trimTail path.toList.reverse = path.toList.reverse := by
  obtain ⟨c, cs, last⟩ := List.exists_cons_of_ne_nil (List.reverse_ne_nil_iff.2 h.full)
  have mem {d : Char} (mem : d ∈ c :: cs) : d ∈ name := List.mem_reverse.1 (last ▸ mem)
  rw [h.shown, List.reverse_append, last, List.cons_append]
  unfold trimTail
  split
  · rename_i slash
    exact absurd (mem ((List.cons.inj slash).1 ▸ List.mem_cons_self)) h.plain
  · rename_i dotted
    obtain ⟨rfl, rest⟩ := List.cons.inj dotted
    cases cs with
    | nil => exact absurd (List.reverse_eq_iff.1 last) dot
    | cons d cs =>
      obtain rfl : d = '/' := (List.cons.inj rest).1
      exact absurd (mem (by simp)) h.plain
  · rfl

theorem splitName_eq : splitName path = (directory, name) := by
  have last := takeWhile_reverse h.plain h.front
  rw [splitName, h.trimTail_eq dot, List.reverse_reverse, h.shown, last, List.length_append,
    Nat.add_sub_cancel, List.take_left]

omit dot

theorem path_eq {path' : String} (h' : In directory name path') : path = path' :=
  String.toList_inj.1 (h.shown.trans h'.shown.symm)

/-- The path itself and the one with a suffix are in the same directory. -/
theorem exists_mem {suffix : String} (dot : name ≠ ['.']) (slash : '/' ∉ suffix.toList) {other : String}
    (mem : other ∈ [path, path ++ suffix]) :
    ∃ own ∈ [name, name ++ suffix.toList], In directory own other ∧ own ≠ ['.'] := by
  simp only [List.mem_cons, List.not_mem_nil, or_false] at mem
  rcases mem with rfl | rfl
  · exact ⟨name, by simp, h, dot⟩
  · have inside : In directory (name ++ suffix.toList) (path ++ suffix) :=
      ⟨by simp [h.shown], h.front, by simp [h.plain, slash], by simp [h.full]⟩
    exact ⟨_, by simp, inside, by simp [List.append_eq_singleton_iff, h.full, dot]⟩

end In

/-! Names and their extensions. -/

theorem splitStem_append (stem : List Char) {extension : List Char} (plain : '.' ∉ extension) :
    splitStem (stem ++ '.' :: extension) =
      if stem = [] then ('.' :: extension, none) else (stem, some extension) := by
  have last := takeWhile_reverse plain (.inr ⟨stem, rfl⟩)
  rw [List.append_assoc, List.singleton_append] at last
  have size : (stem ++ '.' :: extension).length - extension.length - 1 = stem.length := by
    rw [List.length_append, List.length_cons]
    omega
  rw [splitStem, last, size, List.take_left]
  cases stem with
  | nil => simp
  | cons c stem =>
    have shorter : extension.length ≠ stem.length + (extension.length + 1) + 1 := by omega
    simp [shorter]

theorem splitStem_of_notMem {name : List Char} (plain : '.' ∉ name) : splitStem name = (name, none) := by
  have last := takeWhile_reverse plain (.inl rfl)
  rw [List.nil_append] at last
  rw [splitStem, last]
  simp

/-- How a name is given another extension, where the old one is known. What is left without the old
one may lead to the directory above, and stays as it is. -/
inductive Renames (extension : List Char) : List Char → Option (List Char) → List Char → Prop where
  | above : Renames extension ['.', '.'] none ['.', '.']
  | cut (old : List Char) : Renames extension ('.' :: '.' :: old) (some old) ['.', '.']
  | added (name : List Char) : Renames extension name none (name ++ '.' :: extension)
  | replaced {stem : List Char} (full : stem ≠ []) (old : List Char) :
      Renames extension (stem ++ '.' :: old) (some old) (stem ++ '.' :: extension)

theorem Renames.ne_dot {extension name new : List Char} {old : Option (List Char)}
    (h : Renames extension name old new) (full : name ≠ []) : new ≠ ['.'] := by
  cases h with
  | above | cut => decide
  | added =>
    obtain ⟨c, name, rfl⟩ := List.exists_cons_of_ne_nil full
    simp
  | replaced some =>
    obtain ⟨c, stem, rfl⟩ := List.exists_cons_of_ne_nil some
    simp

theorem extension?_eq {directory name : List Char} {path : String} (h : In directory name path)
    (dot : name ≠ ['.']) :
    extension? path = if name = ['.', '.'] then none else (splitStem name).2.map String.ofList := by
  have full : name.isEmpty = false := by simpa using h.full
  rw [extension?, h.splitName_eq dot]
  by_cases up : name = ['.', '.'] <;> simp [isName, full, dot, up]

theorem dropExtension_of_none {path : String} (h : extension? path = none) : dropExtension path = path := by
  rw [dropExtension, h]
  simp [← String.length_toList]

theorem dropExtension_of_some {path : String} {front old : List Char}
    (h : extension? path = some (String.ofList old)) (shown : path.toList = front ++ old) :
    dropExtension path = String.ofList front := by
  have size : path.length - old.length = front.length := by
    rw [← String.length_toList, shown, List.length_append, Nat.add_sub_cancel]
  rw [dropExtension, h, Option.getD_some, String.length_ofList, size, shown, List.take_left]

/-- A new extension behind a name. -/
theorem In.rename {directory name : List Char} {path : String} (h : In directory name path)
    {stem : List Char} (within : stem ⊆ name) {extension : String}
    (slash : '/' ∉ extension.toList) :
    In directory (stem ++ '.' :: extension.toList)
      (String.ofList (directory ++ stem) ++ "." ++ extension) where
  shown := by simp
  front := h.front
  plain := by
    have plain : '/' ∉ stem := fun mem => h.plain (within mem)
    simp [plain, slash]
  full := by simp

theorem withExtension_eq {directory name : List Char} {path kept : String}
    (same : dropExtension path = kept) (h : In directory name kept) (dot : name ≠ ['.'])
    (extension : String) :
    withExtension path extension =
      if name = ['.', '.'] then kept
      else String.ofList (directory ++ (splitStem name).1) ++ "." ++ extension := by
  have full : name.isEmpty = false := by simpa using h.full
  rw [withExtension, same, h.splitName_eq dot]
  by_cases up : name = ['.', '.'] <;> simp [isName, full, dot, up]

section

variable {directory name : List Char} {path : String} (h : In directory name path) (dot : name ≠ ['.'])
  {extension : String} (slash : '/' ∉ extension.toList)

include h dot slash

/-- A path with another extension is in the same directory. -/
theorem renames_withExtension :
    ∃ new, Renames extension.toList name ((extension? path).map String.toList) new ∧
      In directory new (withExtension path extension) := by
  have found := extension?_eq h dot
  by_cases up : name = ['.', '.']
  · rw [if_pos up] at found
    rw [withExtension_eq (dropExtension_of_none found) h dot, if_pos up, found]
    refine ⟨name, ?_, h⟩
    rw [up]
    exact .above
  rw [if_neg up] at found
  -- without an extension, the new one is added
  have add (bare : splitStem name = (name, none)) :
      ∃ new, Renames extension.toList name ((extension? path).map String.toList) new ∧
        In directory new (withExtension path extension) := by
    rw [bare] at found
    rw [withExtension_eq (dropExtension_of_none found) h dot, if_neg up, found, bare]
    exact ⟨_, .added name, h.rename (List.Subset.refl _) slash⟩
  obtain ⟨front, old, split, plain, ends⟩ := exists_split '.' name
  rcases ends with rfl | ⟨stem, rfl⟩
  · rw [List.nil_append] at split
    exact add (splitStem_of_notMem (split ▸ plain))
  rw [List.append_assoc, List.singleton_append] at split
  have parts := splitStem_append stem plain
  rw [← split] at parts
  by_cases hidden : stem = []
  · rw [if_pos hidden] at parts
    rw [hidden, List.nil_append] at split
    exact add (split ▸ parts)
  · rw [if_neg hidden] at parts
    rw [parts] at found
    have within : '/' ∉ stem ++ ['.'] := by
      have plain := h.plain
      rw [split, List.mem_append, not_or] at plain
      simp [plain.1]
    have kept : dropExtension path = String.ofList (directory ++ (stem ++ ['.'])) :=
      dropExtension_of_some found (by rw [h.shown, split]; simp)
    have left : In directory (stem ++ ['.']) (dropExtension path) :=
      ⟨by rw [kept, String.toList_ofList], h.front, within, by simp⟩
    have dot' : stem ++ ['.'] ≠ ['.'] := by simpa using hidden
    rw [withExtension_eq rfl left dot', found, split, Option.map_some, Option.map_some,
      String.toList_ofList]
    by_cases up : stem ++ ['.'] = ['.', '.']
    · obtain rfl : stem = ['.'] := List.append_cancel_right up
      rw [if_pos up]
      exact ⟨_, .cut old, left⟩
    · rw [if_neg up, splitStem_append stem List.not_mem_nil, if_neg hidden]
      exact ⟨_, .replaced hidden old, left.rename (List.subset_append_left _ _) slash⟩

end

end Path

namespace Files

theorem key_cons (name : String) (place : Place) :
    key (name :: place) = if place = [] then name else key place ++ "/" ++ name := by
  rw [key, List.reverse_cons]
  split
  · rename_i root
    rw [root]
    rfl
  · rename_i below
    rw [String.intercalate_append_of_ne_nil (by simpa using below) (List.cons_ne_nil _ _)]
    rfl

theorem length_key_tail_lt {place : Place} (below : place.tail ≠ []) (name : String) :
    (key place.tail).length < (key (name :: place)).length := by
  cases place with
  | nil => exact absurd rfl below
  | cons top place =>
    have within := key_cons top place
    have slash : "/".length = 1 := rfl
    rw [List.tail_cons] at below ⊢
    rw [if_neg below] at within
    rw [key_cons, if_neg (List.cons_ne_nil _ _), within]
    simp only [String.length_append]
    omega

/-- Different names in a directory lead to different entries. Two dots lead to a shorter key. -/
theorem key_enter_inj {place : Place} {a b : String} (ha : a ≠ ".") (hb : b ≠ ".")
    (below : enter place a ≠ []) (below' : enter place b ≠ [])
    (same : key (enter place a) = key (enter place b)) : a = b := by
  unfold enter at below below' same
  rw [if_neg ha] at below same
  rw [if_neg hb] at below' same
  by_cases up : a = ".."
  · by_cases up' : b = ".."
    · rw [up, up']
    · rw [if_pos up] at below same
      rw [if_neg up'] at same
      exact absurd (congrArg String.length same) (Nat.ne_of_lt (length_key_tail_lt below b))
  · by_cases up' : b = ".."
    · rw [if_neg up, if_pos up'] at same
      rw [if_pos up'] at below'
      exact absurd (congrArg String.length same) (Nat.ne_of_gt (length_key_tail_lt below' a))
    · rw [if_neg up, if_neg up', key_cons, key_cons] at same
      split at same
      · exact same
      · exact (String.append_right_inj _).1 same

theorem follow_of_followPath {fs : Files} {path : String} {parts : List String} {place : Place}
    (h : (fs.followPath path parts).toOption = some place) :
    (fs.follow (fs.start path) parts).toOption = some place := by
  rw [followPath] at h
  split at h
  · cases h
  split at h
  · cases h
  split at h
  · cases h
  exact h

/-- The entry of a path in a directory is found from where the directory leads. -/
theorem key?_of_in {fs : Files} {directory name : List Char} {path k : String}
    (h : Path.In directory name path) (found : fs.key? path = some k) :
    ∃ place,
      (fs.follow (fs.start (String.ofList directory)) (Path.names (String.ofList directory))).toOption =
        some place ∧
      fs.entry? place = some .directory ∧ enter place (String.ofList name) ≠ [] ∧
      k = key (enter place (String.ofList name)) := by
  obtain ⟨last, located, found⟩ := Option.bind_eq_some_iff.1 found
  rw [locate_toOption, h.endsInSlash_eq] at located
  obtain ⟨_, followed, same⟩ := Option.bind_eq_some_iff.1 located
  cases same
  have start : fs.start path = fs.start (String.ofList directory) := by
    rw [Files.start, Files.start, h.isAbsolute_eq]
  have whole := follow_of_followPath followed
  rw [start, h.names_eq, follow_append] at whole
  obtain ⟨place, within, entered⟩ := Option.bind_eq_some_iff.1 whole
  rw [follow_cons] at entered
  split at entered
  · rename_i inside
    cases entered
    split at found
    · cases found
    · rename_i below
      exact ⟨place, within, inside.1, by simpa using below, (Option.some.inj found).symm⟩
  · cases entered

/-- Paths in the same directory with different names never lead to the same entry. -/
theorem key?_ne_of_in {fs : Files} {directory a b : List Char} {path path' k : String}
    (h : Path.In directory a path) (h' : Path.In directory b path') (dot : a ≠ ['.']) (dot' : b ≠ ['.'])
    (other : a ≠ b) (found : fs.key? path = some k) : fs.key? path' ≠ some k := by
  intro found'
  obtain ⟨place, within, -, below, rfl⟩ := key?_of_in h found
  obtain ⟨place', within', -, below', same⟩ := key?_of_in h' found'
  cases within.symm.trans within'
  have name {cs : List Char} (dot : cs ≠ ['.']) : String.ofList cs ≠ "." := by
    intro same
    exact dot (by simpa using congrArg String.toList same)
  exact other (String.ofList_injective (key_enter_inj (name dot) (name dot') below below' same))

/-- A path that ends in a slash leads to a directory, if anywhere. -/
theorem endsInSlash_eq_false {fs : Files} {path k content : String} (found : fs.key? path = some k)
    (file : fs.entries.find? k = some (.file content)) : Path.endsInSlash path = false := by
  obtain ⟨place, located, found⟩ := Option.bind_eq_some_iff.1 found
  split at found
  · cases found
  rename_i below
  cases found
  rw [locate_toOption] at located
  obtain ⟨place', -, same⟩ := Option.bind_eq_some_iff.1 located
  split at same
  · cases same
  rename_i slash
  cases same
  have other : fs.entry? place ≠ some .directory := by simp [below, file, entry?]
  simpa [other] using slash

/-- A path to a file ends in a name. -/
theorem exists_in_of_read {fs : Files} {path content : String} (h : fs.read path = .ok content) :
    ∃ directory name, Path.In directory name path ∧ name ≠ ['.'] := by
  obtain ⟨k, found, file⟩ := entryAt?_eq_file_iff.1 (read_eq_ok_iff.1 h)
  obtain ⟨directory, name, shown, plain, front⟩ := Path.exists_split '/' path.toList
  have full : name ≠ [] := by
    rintro rfl
    rw [List.append_nil] at shown
    rcases front with rfl | ⟨outer, rfl⟩
    · rw [String.toList_eq_nil_iff.1 shown] at found
      cases found
    · have slash := endsInSlash_eq_false found file
      simp [Path.endsInSlash, shown] at slash
  have inside : Path.In directory name path := ⟨shown, front, plain, full⟩
  refine ⟨directory, name, inside, ?_⟩
  rintro rfl
  obtain ⟨place, -, within, below, rfl⟩ := key?_of_in inside found
  have here : enter place (String.ofList ['.']) = place := rfl
  rw [here] at below file
  have same : fs.entry? place = fs.entries.find? (key place) := if_neg (by simpa using below)
  cases within.symm.trans (same.trans file)

end Files

end Interlingua
