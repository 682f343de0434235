import OperatorGraph.Extender.Builtin
import OperatorGraph.Text.Quoted

/-!
Registries of extenders, with at most one for each operator type.
-/

namespace OperatorGraph

/-- A second extender for one operator type. -/
structure Conflict where
  opType : String
deriving DecidableEq

def Conflict.message (c : Conflict) : String :=
  s!"More than one extender registered for operator type \"{c.opType}\""

def Conflict.event (c : Conflict) : Event := .registeredTwice c.opType

structure Registry where
  extenders : NameMap Extender

namespace Registry

def empty : Registry := ⟨.empty⟩

def lookup (r : Registry) (opType : String) : Option Extender := r.extenders.get? opType

def register (r : Registry) (e : Extender) : Except Conflict Registry :=
  if r.extenders.contains e.opType then .error ⟨e.opType⟩
  else .ok ⟨r.extenders.insert e.opType e⟩

def registerAll (r : Registry) (es : List Extender) : Except Conflict Registry :=
  es.foldlM register r

/-- In ascending order. -/
def opTypes (r : Registry) : List String := r.extenders.names

def size (r : Registry) : Nat := r.extenders.size

def describe (r : Registry) : String :=
  let opTypes := ", ".intercalate (r.opTypes.map Text.quoted)
  s!"ExtenderRegistry \x7b op_types: [{opTypes}] \x7d"

/-- Every built-in extender. -/
def builtin : Registry := ⟨.ofList (Extender.builtins.map fun e => (e.opType, e))⟩

end Registry

end OperatorGraph
