import Interlingua.Session.Files
import Interlingua.Toml.Parser
import Interlingua.Writing.Sheet

/-!
# Settings

Settings come from a file of the user and a file of the project, which wins key by key. A file that
cannot be read as settings counts as none.
-/

namespace Interlingua

structure Settings where
  mode : Option RecordMode := none
  overwrite : Option Bool := none
  recordSuffix : Option String := none
  deriving DecidableEq

namespace Settings

/-- Where records go unless a run asks for them apart. -/
def recordMode (s : Settings) : RecordMode :=
  s.mode.getD .inline

/-- Whether an existing output may be replaced. -/
def mayOverwrite (s : Settings) : Bool :=
  s.overwrite.getD true

/-- What is added to the path of a source or output to name the file of its records. -/
def suffix (s : Settings) : String :=
  s.recordSuffix.getD ".meta.json"

/-- The settings under another one's. -/
def merge (s other : Settings) : Settings where
  mode := other.mode <|> s.mode
  overwrite := other.overwrite <|> s.overwrite
  recordSuffix := other.recordSuffix <|> s.recordSuffix

/-- The fields of a section with these names. A list gives them in order, and a date none. -/
def section? (names : List String) : Toml → Option Toml.Fields
  | .table _ fields => some fields
  | .arr items => some (names.zip items)
  | .tables elements => some (names.zip (elements.map (Toml.table .header)))
  | .date _ => some []
  | _ => none

/-- A key that may be missing but has to fit if it is there. -/
def optional? {α : Type} (decode? : Toml → Option α) (fields : Toml.Fields) (key : String) :
    Option (Option α) :=
  match fields.lookup key with
  | none => some none
  | some value => (decode? value).map some

def modeOf? : String → Option RecordMode
  | "inline" => some .inline
  | "sidecar" => some .sidecar
  | _ => none

/-- A mode by its name, or by a table with nothing but an empty field of that name. -/
def mode? : Toml → Option RecordMode
  | .str name => modeOf? name
  | .table _ [(name, value)] => if value.isHollow then modeOf? name else none
  | _ => none

/-- The settings in the fields of a file; keys of other names are ignored. -/
def ofFields? (fields : Toml.Fields) : Option Settings := do
  let output := (← optional? (section? ["metadata", "overwrite"]) fields "output").getD []
  let input := (← optional? (section? ["metadata_file"]) fields "input").getD []
  let mode ← optional? mode? output "metadata"
  let overwrite ← optional? Toml.bool? output "overwrite"
  let recordSuffix ← optional? Toml.str? input "metadata_file"
  return { mode, overwrite, recordSuffix }

def ofFile (fs : Files) (path : String) : Settings :=
  match fs.read path with
  | .ok content => ((Toml.parse content.toList).bind ofFields?).getD {}
  | .error _ => {}

/-- The name of the directory that settings are kept in. -/
def directory : String := "polyglot"

def userFile (configHome : String) : String :=
  Path.join configHome (directory ++ "/config.toml")

def projectFile : String :=
  "." ++ directory ++ "/config.toml"

/-- The settings that hold in the working directory. -/
def load (configHome : String) (fs : Files) : Settings :=
  (ofFile fs (userFile configHome)).merge (ofFile fs projectFile)

end Settings

end Interlingua
