import OperatorGraph.Attribute.Fault
import OperatorGraph.Graph.Basic

/-!
An attribute fault together with the node it was found on.
-/

namespace OperatorGraph

structure Diagnostic where
  node : Nat
  nodeName : Option String
  opType : String
  fault : Attribute.Fault
deriving DecidableEq

def Diagnostic.message (d : Diagnostic) : String :=
  s!"node {d.node} ({d.opType} {nameOrUnnamed d.nodeName}): {d.fault.message}"

end OperatorGraph
