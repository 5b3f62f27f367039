import Interlingua.Dict
import Interlingua.Session.Path
import Interlingua.Text.Find

/-!
# Files

The files and directories under a root, as a value, and the working directory among them. A path is
followed part by part, and every part but the last has to lead to a directory.

Every file is a text, and what is done to a file fails because of its path alone: permissions, the
space on a device and contents that are not UTF-8 are left out. A write that fails changes nothing,
and one that succeeds changes no other file.
-/

namespace Interlingua

inductive Entry where
  | file (content : String)
  | directory
  deriving DecidableEq

inductive FileError where
  | notFound
  | notDirectory
  | isDirectory
  | nameTooLong
  /-- The path has a character that no path can have. -/
  | badName
  deriving DecidableEq

def FileError.message : FileError → String
  | notFound => "No such file or directory (os error 2)"
  | notDirectory => "Not a directory (os error 20)"
  | isDirectory => "Is a directory (os error 21)"
  | nameTooLong => "File name too long (os error 36)"
  | badName => "file name contained an unexpected NUL byte"

/-- A place under the root: the names that lead to it, the last one first. -/
abbrev Place := List String

/-- Entries under their paths from the root, which is not itself among them. -/
structure Files where
  entries : Dict Entry := {}
  /-- The working directory. -/
  here : Place := []
  deriving DecidableEq

namespace Files

def key (place : Place) : String :=
  "/".intercalate place.reverse

def entry? (fs : Files) (place : Place) : Option Entry :=
  if place.isEmpty then some .directory else fs.entries.find? (key place)

def insert (fs : Files) (place : Place) (entry : Entry) : Files :=
  { fs with entries := fs.entries.insert (key place) entry }

/-- Where a path starts. -/
def start (fs : Files) (path : String) : Place :=
  if Path.isAbsolute path then [] else fs.here

/-- The place one part of a path leads to. There is nothing above the root. -/
def enter (place : Place) (part : String) : Place :=
  if part = "." then place else if part = ".." then place.tail else part :: place

/-- The bytes a name has at most. -/
def longestName : Nat := 255

/-- The bytes a path has at most. -/
def longestPath : Nat := 4095

def follow (fs : Files) (place : Place) : List String → Except FileError Place
  | [] => .ok place
  | part :: rest =>
    match fs.entry? place with
    | none => .error .notFound
    | some (.file _) => .error .notDirectory
    | some .directory =>
      if longestName < part.utf8ByteSize then .error .nameTooLong
      else follow fs (enter place part) rest

/-- The place that the parts of a path lead to. -/
def followPath (fs : Files) (path : String) (parts : List String) : Except FileError Place :=
  if '\x00' ∈ path.toList then .error .badName
  else if path.isEmpty then .error .notFound
  else if longestPath < path.utf8ByteSize then .error .nameTooLong
  else fs.follow (fs.start path) parts

/-- The place a path leads to, whether there is anything or not. -/
def locate (fs : Files) (path : String) : Except FileError Place :=
  fs.followPath path (Path.parts path)

def contains (fs : Files) (path : String) : Bool :=
  match fs.locate path with
  | .ok place => (fs.entry? place).isSome
  | .error _ => false

def read (fs : Files) (path : String) : Except FileError String := do
  match fs.entry? (← fs.locate path) with
  | some (.file content) => return content
  | some .directory => throw .isDirectory
  | none => throw .notFound

/-- Write a file. A path that ends in a slash can only lead to a directory. -/
def write (fs : Files) (path content : String) : Except FileError Files := do
  let place ← fs.followPath path (Path.names path)
  match fs.entry? place with
  | some .directory => throw .isDirectory
  | _ => if Path.endsInSlash path then throw .isDirectory else return fs.insert place (.file content)

/-- Remove a file; nothing happens where there is none. -/
def remove (fs : Files) (path : String) : Files :=
  match fs.locate path with
  | .ok place =>
    match fs.entry? place with
    | some (.file _) => { fs with entries := fs.entries.erase (key place) }
    | _ => fs
  | .error _ => fs

/-- Make the directories that names lead through from a place. -/
def makeDirectories (fs : Files) (place : Place) : List String → Files
  | [] => fs
  | part :: rest =>
    let next := enter place part
    makeDirectories (if (fs.entry? next).isSome then fs else fs.insert next .directory) next rest

/-- Make a directory and those it is in. -/
def makeDirectory (fs : Files) (path : String) : Files :=
  fs.makeDirectories (fs.start path) (Path.names path)

/-- Write a file and make the directories it is in. -/
def place (fs : Files) (path content : String) : Except FileError Files :=
  (fs.makeDirectories (fs.start path) (Path.names path).dropLast).write path content

/-- No files but an empty working directory. -/
def emptyAt (here : Place) : Files :=
  ({ here } : Files).makeDirectories [] here.reverse

/-- The part of a path below the working directory. -/
def local? (fs : Files) (path : String) : Option String :=
  if fs.here.isEmpty then some path
  else (Text.stripFront (key fs.here ++ "/").toList path.toList).map String.ofList

/-- The entries below the working directory that are new or different after a change. -/
def changed (before after : Files) : List (String × Entry) :=
  (after.entries.entries.filter fun (path, entry) => before.entries.find? path ≠ some entry).filterMap
    fun (path, entry) => (before.local? path).map fun path => (path, entry)

/-- The paths below the working directory that are gone after a change. -/
def removed (before after : Files) : List String :=
  (before.entries.entries.filter fun (path, _) => !after.entries.contains path).filterMap
    fun (path, _) => before.local? path

end Files

end Interlingua
