import Interlingua.Reading.Source
import Interlingua.Session.Settings
import Interlingua.Writing.Statement

/-!
# Transpiling a file

A run first makes a plan, which reads files but changes none, and then carries it out: the records
are written first, and taken back if the code cannot be written.
-/

namespace Interlingua

/-- What a run is asked to do. -/
structure Job where
  input : Option String := none
  source : Option String := none
  target : Option String := none
  output : Option String := none
  sidecar : Bool := false
  deriving DecidableEq

inductive TranspileError where
  | noInput
  | noTarget
  | unknownSource (name : String)
  | undetected (path : String)
  | unknownTarget (name : String)
  | sameLanguage (language : Language)
  | unreadable (path : String) (cause : FileError)
  | badRecords (path : String)
  | unparsed (path : String) (language : Language) (cause : ReadError)
  | outputExists (path : String)
  | unwritable (path : String) (cause : FileError)
  deriving DecidableEq

namespace TranspileError

def names (languages : List Language) : String :=
  ", ".intercalate (languages.map Language.name)

def message : TranspileError → String
  | noInput => "no input file given"
  | noTarget => "no target language given (use --target)"
  | unknownSource name =>
    "unknown source language '" ++ name ++ "' (supported: " ++ names Language.readable ++ ")"
  | undetected path =>
    "cannot detect the language of " ++ path ++ "; use --source (supported: "
      ++ names Language.readable ++ ")"
  | unknownTarget name =>
    "unknown target language '" ++ name ++ "' (supported: " ++ names Language.all ++ ")"
  | sameLanguage language => "source and target language are both " ++ language.name
  | unreadable path cause => "failed to read " ++ path ++ ": " ++ cause.message
  | badRecords path => "invalid metadata file " ++ path
  | unparsed path language cause =>
    "failed to parse " ++ path ++ " as " ++ language.name ++ ": " ++ cause.message
  | outputExists path => path ++ " already exists (output.overwrite is false)"
  | unwritable path cause => "failed to write " ++ path ++ ": " ++ cause.message

end TranspileError

/-- What is to be written where. -/
structure Plan where
  source : Language
  target : Language
  output : String
  code : String
  /-- The file of the records and its content. -/
  records : Option (String × String)

namespace Job

/-- The language that is read: the one asked for, or the one with the input's extension. -/
def sourceLanguage (input : String) : Option String → Except TranspileError Language
  | some name =>
    match Language.source? name with
    | some language => .ok language
    | none => .error (.unknownSource name)
  | none =>
    let lower := (Path.extension? input).map fun e => String.ofList (e.toList.map Char.toLower)
    match lower.bind Language.sourceByExtension? with
    | some language => .ok language
    | none => .error (.undetected input)

def targetLanguage (name : String) : Except TranspileError Language :=
  match Language.target? name with
  | some language => .ok language
  | none => .error (.unknownTarget name)

def readFile (fs : Files) (path : String) : Except TranspileError String :=
  match fs.read path with
  | .ok content => .ok content
  | .error cause => .error (.unreadable path cause)

/-- The records of a list of JSON values. What is no record counts as an empty one, so that those
after it keep their places. -/
def recordList? (content : String) : Option (List Record) :=
  ((Json.parse content.toList).bind Json.arr?).map fun items =>
    items.map fun item => (Record.salvage? item).getD {}

/-- The records beside a source, if there is a file of them. -/
def recordsBeside (fs : Files) (path : String) : Except TranspileError (Option (List Record)) := do
  if fs.contains path then
    match recordList? (← readFile fs path) with
    | some records => return some records
    | none => throw (.badRecords path)
  else return none

def readProgram (language : Language) (parse : Parser) (input content : String)
    (records : Option (List Record)) : Except TranspileError Program :=
  let result := match records with
    | some records => language.readWith parse records content
    | none => language.read parse content
  match result with
  | .ok program => .ok program
  | .error cause => .error (.unparsed input language cause)

/-- A list of records as the text of a file. -/
def recordsText (records : List Record) : String :=
  String.ofList (Json.pretty (.arr (records.map Record.toJson)))

/-- Where the code goes: the path asked for, or the input's with the extension of the target. -/
def outputPath (job : Job) (input : String) (target : Language) : String :=
  job.output.getD (Path.withExtension input target.extension)

def plan (job : Job) (settings : Settings) (parse : Parser) (fs : Files) :
    Except TranspileError Plan := do
  let some input := job.input | throw .noInput
  let some targetName := job.target | throw .noTarget
  let source ← sourceLanguage input job.source
  let target ← targetLanguage targetName
  if source = target then throw (.sameLanguage source)
  let content ← readFile fs input
  let records ← recordsBeside fs (input ++ settings.suffix)
  let program ← readProgram source parse input content records
  let output := job.outputPath input target
  if !settings.mayOverwrite && fs.contains output then throw (.outputExists output)
  if job.sidecar || settings.recordMode = .sidecar then
    let written := target.dialect.renderApart program
    let records := some (output ++ settings.suffix, recordsText written.records)
    return { source, target, output, code := written.code, records }
  else
    return { source, target, output, code := target.dialect.render .inline program, records := none }

/-- The files that may be read or written for a job. -/
def paths (job : Job) (settings : Settings) : List String :=
  let input := job.input.toList
  let target := (job.target.bind Language.target?).toList
  let output := input.flatMap fun input => target.map (job.outputPath input)
  (input ++ output).flatMap fun path => [path, path ++ settings.suffix]

end Job

namespace Plan

/-- Write a file of the plan. -/
def put (fs : Files) (path content : String) : Except TranspileError Files :=
  match fs.write path content with
  | .ok fs => .ok fs
  | .error cause => .error (.unwritable path cause)

/-- Carry out a plan: the files afterwards, and the error if it failed. -/
def carryOut (plan : Plan) (fs : Files) : Files × Except TranspileError Unit :=
  match plan.records with
  | none =>
    match put fs plan.output plan.code with
    | .ok after => (after, .ok ())
    | .error cause => (fs, .error cause)
  | some (path, content) =>
    match put fs path content with
    | .error cause => (fs, .error cause)
    | .ok recorded =>
      match put recorded plan.output plan.code with
      | .ok after => (after, .ok ())
      | .error cause => (recorded.remove path, .error cause)

end Plan

/-- Transpile a file: the files afterwards, and the plan that was carried out or the error. -/
def Job.transpile (job : Job) (settings : Settings) (parse : Parser) (fs : Files) :
    Files × Except TranspileError Plan :=
  match job.plan settings parse fs with
  | .error cause => (fs, .error cause)
  | .ok plan =>
    let (after, result) := plan.carryOut fs
    (after, result.map fun _ => plan)

end Interlingua
