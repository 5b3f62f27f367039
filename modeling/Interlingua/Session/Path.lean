import Interlingua.Text.Lines

/-!
# Paths

File names, extensions and the parts of a path. A name that starts with its only dot has no
extension.
-/

namespace Interlingua.Path

open Text

/-- The texts of a path between its slashes, empty ones left out. -/
def names (path : String) : List String :=
  ((splitOn '/' path.toList).filter (!·.isEmpty)).map String.ofList

def isAbsolute (path : String) : Bool :=
  path.toList.head? = some '/'

def endsInSlash (path : String) : Bool :=
  path.toList.getLast? = some '/'

/-- The parts of a path. One that ends in a slash has a dot as its last part. -/
def parts (path : String) : List String :=
  names path ++ if endsInSlash path then ["."] else []

/-- A path under a directory, which is the working directory if it has no name. -/
def join (directory path : String) : String :=
  if directory.isEmpty then path else directory ++ "/" ++ path

/-- Leave slashes and dots of their own out, for a path that is given from its end. -/
def trimTail : List Char → List Char
  | '/' :: cs => trimTail cs
  | '.' :: '/' :: cs => trimTail cs
  | cs => cs

/-- The text up to and after the last slash, what only repeats the directory left out. -/
def splitName (path : String) : List Char × List Char :=
  let cs := (trimTail path.toList.reverse).reverse
  let name := (cs.reverse.takeWhile (· ≠ '/')).reverse
  (cs.take (cs.length - name.length), name)

def isName (name : List Char) : Bool :=
  !name.isEmpty && name ≠ ['.'] && name ≠ ['.', '.']

/-- The name before its last dot, and the text after the dot if there is one. -/
def splitStem (name : List Char) : List Char × Option (List Char) :=
  let extension := (name.reverse.takeWhile (· ≠ '.')).reverse
  let stem := name.take (name.length - extension.length - 1)
  if extension.length = name.length || stem.isEmpty then (name, none) else (stem, some extension)

def extension? (path : String) : Option String :=
  let name := (splitName path).2
  if isName name then (splitStem name).2.map String.ofList else none

/-- The path without as many characters at its end as its extension has. The dot stays. -/
def dropExtension (path : String) : String :=
  let length := ((extension? path).getD "").length
  String.ofList (path.toList.take (path.length - length))

/-- The path with another extension. What is left without the old one has to be a name: of `..py`
it is `..`, which leads to a directory and stays as it is. -/
def withExtension (path extension : String) : String :=
  let kept := dropExtension path
  let (directory, name) := splitName kept
  if isName name then String.ofList (directory ++ (splitStem name).1) ++ "." ++ extension else kept

end Interlingua.Path
