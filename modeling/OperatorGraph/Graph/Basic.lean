import OperatorGraph.Attribute.Store

/-!
Operator graphs. A node's id is its place in the list of nodes; edges are names that one node
lists as an output and another as an input.
-/

namespace OperatorGraph

structure Node where
  opType : String
  name : Option String := none
  domain : String := ""
  inputs : List String := []
  outputs : List String := []
  attributes : Attribute.Store := .empty
deriving DecidableEq

/-- How a node is called in messages. -/
def Node.displayName (node : Node) : String := node.name.getD node.opType

/-- How something with an optional name is called where the name itself is asked for. -/
def nameOrUnnamed (name : Option String) : String := name.getD "<unnamed>"

structure OpsetImport where
  domain : String
  version : Int64
deriving DecidableEq

structure Graph where
  name : Option String := none
  opsetImports : List OpsetImport := []
  inputs : List String := []
  outputs : List String := []
  nodes : List Node := []
deriving DecidableEq

namespace Graph

def addNode (g : Graph) (node : Node) : Graph := { g with nodes := g.nodes ++ [node] }

def addOpsetImport (g : Graph) (opset : OpsetImport) : Graph :=
  { g with opsetImports := g.opsetImports ++ [opset] }

/-- The version of the first operator set without a domain. -/
def coreOpsetVersion (g : Graph) : Option Int64 :=
  (g.opsetImports.find? fun opset => opset.domain = "").map (·.version)

def node? (g : Graph) (id : Nat) : Option Node := g.nodes[id]?

def setAttributes (g : Graph) (id : Nat) (attributes : Attribute.Store) : Graph :=
  { g with nodes := g.nodes.modify id fun node => { node with attributes } }

end Graph

end OperatorGraph
