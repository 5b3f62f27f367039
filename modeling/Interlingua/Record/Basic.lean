import Interlingua.Program.Basic

/-!
# Type records

A record holds what is declared of one function or one assignment, for languages that cannot spell
it. Functions and assignments are the consumers of records.
-/

namespace Interlingua

structure Record where
  returnType : Option BaseType := none
  paramTypes : Dict BaseType := {}
  variableType : Option DeclaredType := none
  paramFacts : Dict (Dict String) := {}
  deriving DecidableEq

namespace Record

instance : Inhabited Record := ⟨{}⟩

def isEmpty (r : Record) : Bool :=
  r.returnType.isNone && r.paramTypes.isEmpty && r.variableType.isNone && r.paramFacts.isEmpty

def ofSignature (f : Signature) : Record where
  returnType := if f.returnType.isKnown then some f.returnType else none
  paramTypes := f.paramTypes
  paramFacts := f.paramFacts

/-- The type of a list or tuple that does not follow from its elements alone. -/
def containerType? : Expr → Option DeclaredType
  | .list elements element _ =>
    if element.isKnown && element ≠ Expr.sharedType elements then some (.arrayOf element) else none
  | .tuple _ types => if types.isEmpty then none else some (.tuple types)
  | _ => none

def ofAssign (a : Assign) : Record where
  variableType := if a.type.isKnown then some (.base a.type) else containerType? a.value

end Record

namespace Signature

/-- The signature with the facts of a record; facts about other names than parameters are left
out. -/
def declare (f : Signature) (r : Record) : Signature :=
  { f with
    returnType := r.returnType.getD f.returnType
    paramTypes := (r.paramTypes.entries.filter fun e => f.hasParam e.1).foldl
      (fun types e => types.insert e.1 e.2) f.paramTypes
    paramFacts := (r.paramFacts.entries.filter fun e => f.hasParam e.1).foldl
      (fun facts e => facts.insert e.1 e.2) f.paramFacts }

end Signature

namespace Assign

/-- The assignment under the variable type of a record. -/
def declareRecord (a : Assign) (r : Record) : Assign :=
  match r.variableType with
  | some type => a.declare type
  | none => a

end Assign

end Interlingua
