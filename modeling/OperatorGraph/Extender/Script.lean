import OperatorGraph.Attribute.Operation
import OperatorGraph.Extender.Builtin

/-!
Extenders given as a list of attribute operations.
-/

namespace OperatorGraph.Extender

open Attribute (Operation Store)

/-- The outcome of one operation. The faults are those of coercions; nothing else can fail. -/
def Outcome.ofOperation : Operation → Store → Outcome
  | .coerce c name, store => .coerce c name store
  | operation, store => { attributes := (operation.run store).1 }

def runScript (script : List Operation) (store : Store) : Outcome :=
  script.foldl (fun o operation => o.andThen (.ofOperation operation)) { attributes := store }

def ofScript (opType : String) (script : List Operation) : Extender :=
  ⟨opType, fun node => runScript script node.attributes⟩

end OperatorGraph.Extender
