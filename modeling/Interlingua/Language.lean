import Interlingua.Dialect.Applicative
import Interlingua.Dialect.Braces
import Interlingua.Dialect.Indented

/-!
# Languages

The languages that can be written, and those among them that can be read as well.
-/

namespace Interlingua

inductive Language where
  | python
  | javascript
  | typescript
  | java
  | haskell
  deriving DecidableEq

namespace Language

def all : List Language :=
  [python, javascript, typescript, java, haskell]

def name : Language → String
  | python => "python"
  | javascript => "javascript"
  | typescript => "typescript"
  | java => "java"
  | haskell => "haskell"

def dialect : Language → Dialect
  | python => Dialect.python
  | javascript => Dialect.javascript
  | typescript => Dialect.typescript
  | java => Dialect.java
  | haskell => Dialect.haskell

/-- The extension of files that are written. -/
def extension : Language → String
  | python => "py"
  | javascript => "js"
  | typescript => "ts"
  | java => "java"
  | haskell => "hs"

/-- The extensions of files that are read, none for a language that cannot be read. -/
def sourceExtensions : Language → List String
  | python => ["py"]
  | javascript => ["js", "mjs"]
  | typescript => ["ts"]
  | java => ["java"]
  | haskell => []

def isReadable (l : Language) : Bool :=
  !l.sourceExtensions.isEmpty

def readable : List Language :=
  all.filter isReadable

/-- The language written under a name. -/
def target? (name : String) : Option Language :=
  all.find? (·.name = name)

def targetByExtension? (extension : String) : Option Language :=
  all.find? (·.extension = extension)

/-- The language read under a name. -/
def source? (name : String) : Option Language :=
  readable.find? (·.name = name)

def sourceByExtension? (extension : String) : Option Language :=
  readable.find? (extension ∈ ·.sourceExtensions)

/-- The text that stands for a source which cannot be read, for the language of this name. -/
def sentinel (name : String) : String :=
  "trigger_error_" ++ String.ofList (name.toList.map Char.toLower)

end Language

end Interlingua
