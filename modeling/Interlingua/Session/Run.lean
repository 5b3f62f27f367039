import Interlingua.Session.Arguments

/-!
# Runs of the program
-/

namespace Interlingua

/-- What a run prints and how it ends. -/
structure Run where
  exit : Nat
  stdout : String := ""
  stderr : String := ""

namespace Run

def programName : String := "polyglot"

def versionText : String :=
  programName ++ " 0.1.0\n"

def usageText : String :=
  "Usage: " ++ programName ++ " [OPTIONS] --target <TARGET> <INPUT>"

def helpText : String :=
  "Translate source code between Python, JavaScript, TypeScript, Java and Haskell\n\n"
    ++ usageText ++ "\n       " ++ programName ++ " <COMMAND>\n\n"
    ++ "Commands:\n"
    ++ "  languages  List supported source and target languages\n"
    ++ "  help       Print this message or the help of the given subcommand(s)\n\n"
    ++ "Arguments:\n"
    ++ "  <INPUT>  Input source file\n\n"
    ++ "Options:\n"
    ++ "  -s, --source <SOURCE>  Source language (detected from the extension if omitted)\n"
    ++ "  -t, --target <TARGET>  Target language\n"
    ++ "  -o, --output <OUTPUT>  Output file (defaults to the input stem with the target extension)\n"
    ++ "      --sidecar          Write type metadata to <output>.meta.json instead of comments\n"
    ++ "  -v, --verbose          Log pipeline details to stderr\n"
    ++ "  -h, --help             Print help\n"
    ++ "  -V, --version          Print version\n"

def helpLanguagesText : String :=
  "List supported source and target languages\n\n"
    ++ "Usage: " ++ programName ++ " languages [OPTIONS]\n\n"
    ++ "Options:\n"
    ++ "  -v, --verbose  Log pipeline details to stderr\n"
    ++ "  -h, --help     Print help\n"

def helpHelpText : String :=
  "Print this message or the help of the given subcommand(s)\n\n"
    ++ "Usage: " ++ programName ++ " help [COMMAND]...\n\n"
    ++ "Arguments:\n"
    ++ "  [COMMAND]...  Print help for the subcommand(s)\n"

/-- A text in a column of at least this width. -/
def padded (width : Nat) (text : String) : String :=
  text ++ String.ofList (List.replicate (width - text.length) ' ')

def tableRow (language read write extensions : String) : String :=
  padded 12 language ++ " " ++ padded 6 read ++ " " ++ padded 6 write ++ " " ++ extensions ++ "\n"

def yesOrDash (holds : Bool) : String :=
  if holds then "yes" else "-"

/-- The extensions of a language, those that are read first. -/
def extensionsOf (l : Language) : List String :=
  l.sourceExtensions ++ if l.extension ∈ l.sourceExtensions then [] else [l.extension]

/-- The languages in the order of their names. -/
def sortedLanguages : List Language :=
  Language.all.mergeSort fun a b => a.name ≤ b.name

/-- What can be read and written. -/
def languagesTable : String :=
  tableRow "language" "read" "write" "extensions"
    ++ String.join (sortedLanguages.map fun l =>
      tableRow l.name (yesOrDash l.isReadable) (yesOrDash true) (", ".intercalate (extensionsOf l)))

/-- The outcome of a run that was asked to transpile. -/
def ofTranspile (job : Job) : Except TranspileError Plan → Run
  | .ok plan =>
    { exit := 0
      stderr := "Transpiled " ++ job.input.getD "-" ++ " -> " ++ plan.output ++ " ("
        ++ plan.source.name ++ " -> " ++ plan.target.name ++ ")\n" }
  | .error cause => { exit := 1, stderr := "error: " ++ cause.message ++ "\n" }

/-- Run the program on files: the files afterwards and what it prints. -/
def execute (configHome : String) (parse : Parser) (argv : List String) (fs : Files) :
    Files × Run :=
  match Arguments.read argv with
  | none => (fs, { exit := 2, stderr := usageText ++ "\n" })
  | some .version => (fs, { exit := 0, stdout := versionText })
  | some .help => (fs, { exit := 0, stdout := helpText })
  | some .helpLanguages => (fs, { exit := 0, stdout := helpLanguagesText })
  | some .helpHelp => (fs, { exit := 0, stdout := helpHelpText })
  | some .languages => (fs, { exit := 0, stdout := languagesTable })
  | some (.transpile job) =>
    let (after, result) := job.transpile (Settings.load configHome fs) parse fs
    (after, ofTranspile job result)

end Run

end Interlingua
