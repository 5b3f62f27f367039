import Interlingua.Session.Transpile

/-!
# Command lines

Options may stand anywhere and be given once; two dashes end them. A subcommand is only recognised
as the first argument.
-/

namespace Interlingua

/-- What a command line asks for. -/
inductive Invocation where
  | transpile (job : Job)
  | languages
  | version
  | help
  | helpLanguages
  | helpHelp
  deriving DecidableEq

/-- The options that take a value. -/
inductive Slot where
  | source
  | target
  | output
  deriving DecidableEq

/-- What has been read of a command line. -/
structure Arguments where
  job : Job := {}
  verbose : Bool := false
  /-- Whether any argument has been read. -/
  started : Bool := false
  /-- Whether two dashes have ended the options. -/
  plainOnly : Bool := false

namespace Arguments

def isOption (arg : String) : Bool :=
  arg.startsWith "-" && arg ≠ "-"

/-- Fill an option that is still open. Paths are not empty. -/
def fill (args : Arguments) (slot : Slot) (value : String) : Option Arguments :=
  let job := args.job
  match slot with
  | .source =>
    if job.source.isSome then none
    else some { args with job := { job with source := value }, started := true }
  | .target =>
    if job.target.isSome then none
    else some { args with job := { job with target := value }, started := true }
  | .output =>
    if job.output.isSome || value.isEmpty then none
    else some { args with job := { job with output := value }, started := true }

def setInput (args : Arguments) (path : String) : Option Arguments :=
  if args.job.input.isSome || path.isEmpty then none
  else some { args with job := { args.job with input := path }, started := true }

def setSidecar (args : Arguments) : Option Arguments :=
  if args.job.sidecar then none
  else some { args with job := { args.job with sidecar := true }, started := true }

def setVerbose (args : Arguments) : Option Arguments :=
  if args.verbose then none else some { args with verbose := true, started := true }

/-- What an argument comes to: it is done with, it takes its value from the next one, or it decides
the command line. -/
inductive Effect where
  | done (args : Arguments)
  | takes (args : Arguments) (slot : Slot)
  | decides (invocation : Invocation)

def longSlot? : String → Option Slot
  | "source" => some .source
  | "target" => some .target
  | "output" => some .output
  | _ => none

def shortSlot? : Char → Option Slot
  | 's' => some .source
  | 't' => some .target
  | 'o' => some .output
  | _ => none

/-- An option with two dashes. -/
def long (args : Arguments) (body : List Char) : Option Effect :=
  let (name, value) := match Text.splitFirst '=' body with
    | some (name, value) => (String.ofList name, some (String.ofList value))
    | none => (String.ofList body, none)
  match longSlot? name, value with
  | some slot, some value => (args.fill slot value).map .done
  | some slot, none => some (.takes args slot)
  | none, some _ => none
  | none, none =>
    match name with
    | "sidecar" => args.setSidecar.map .done
    | "verbose" => args.setVerbose.map .done
    | "version" => some (.decides .version)
    | "help" => some (.decides .help)
    | _ => none

/-- Options with one dash, one letter after the other. The value of one that takes one is the rest
of the argument. -/
def short : Arguments → List Char → Option Effect
  | args, [] => some (.done args)
  | args, c :: rest =>
    match shortSlot? c with
    | some slot =>
      match rest with
      | [] => some (.takes args slot)
      | '=' :: value => (args.fill slot (String.ofList value)).map .done
      | value => (args.fill slot (String.ofList value)).map .done
    | none =>
      match c with
      | 'v' => args.setVerbose.bind fun args => short args rest
      | 'V' => some (.decides .version)
      | 'h' => some (.decides .help)
      | _ => none

/-- What one argument comes to. -/
def effect (args : Arguments) (arg : String) : Option Effect :=
  if args.plainOnly || !isOption arg then (args.setInput arg).map .done
  else if arg = "--" then some (.done { args with plainOnly := true })
  else
    match arg.toList with
    | '-' :: '-' :: body => args.long body
    | '-' :: body => args.short body
    | _ => none

def finish (args : Arguments) : Option Invocation :=
  if args.job.input.isSome && args.job.target.isSome then some (.transpile args.job) else none

/-- The flags of the subcommand that lists languages, one letter after the other. Returns whether it
is verbose, or nothing if help is asked for. -/
def languagesFlags (verbose : Bool) : List Char → Option (Option Bool)
  | [] => some (some verbose)
  | 'v' :: rest => if verbose then none else languagesFlags true rest
  | 'h' :: _ => some none
  | _ => none

/-- Read the arguments of the subcommand that lists languages. It takes no others than flags. -/
def readLanguages (verbose plainOnly : Bool) : List String → Option Invocation
  | [] => some .languages
  | arg :: rest =>
    if plainOnly then none
    else if arg = "--" then readLanguages verbose true rest
    else
      let flags := match arg.toList with
        | '-' :: '-' :: name =>
          match String.ofList name with
          | "verbose" => languagesFlags verbose ['v']
          | "help" => some none
          | _ => none
        | '-' :: flag :: flags => languagesFlags verbose (flag :: flags)
        | _ => none
      match flags with
      | none => none
      | some none => some .helpLanguages
      | some (some verbose) => readLanguages verbose false rest

/-- Read the arguments of the subcommand that explains the program. -/
def readHelp : List String → Option Invocation
  | [] => some .help
  | ["languages"] => some .helpLanguages
  | ["help"] => some .helpHelp
  | _ => none

/-- Read arguments, of which one may wait for its value. -/
def readFrom (args : Arguments) (waiting : Option Slot) : List String → Option Invocation
  | [] => if waiting.isSome then none else args.finish
  | arg :: rest =>
    match waiting with
    | some slot =>
      if isOption arg then none
      else (args.fill slot arg).bind fun args => readFrom args none rest
    | none =>
      if !args.started && !args.plainOnly && arg = "languages" then readLanguages false false rest
      else if !args.started && !args.plainOnly && arg = "help" then readHelp rest
      else
        match args.effect arg with
        | none => none
        | some (.done args) => readFrom args none rest
        | some (.takes args slot) => readFrom args (some slot) rest
        | some (.decides invocation) => some invocation

/-- What a command line asks for, if it is used as it should be. -/
def read (argv : List String) : Option Invocation :=
  readFrom {} none argv

end Arguments

end Interlingua
