import OperatorGraph.Graph.Basic

/-!
Agreement of graphs: equality, except that floats are compared as numbers. Zeros of both signs
agree, and a graph that holds a NaN does not agree with itself.
-/

namespace OperatorGraph

namespace Attribute

def Scalar.agrees : Scalar → Scalar → Bool
  | .float x, .float y => Binary.Number.agrees x y
  | a, b => a = b

def Value.agrees : Value → Value → Bool
  | .scalar a, .scalar b => a.agrees b
  | .list as, .list bs => as.isEqv bs Scalar.agrees
  | a, b => a = b

def Store.agrees (a b : Store) : Bool :=
  a.entries.isEqv b.entries fun x y => x.1 = y.1 && x.2.agrees y.2

end Attribute

def Node.agrees (a b : Node) : Bool :=
  { a with attributes := .empty } = { b with attributes := .empty } &&
    Attribute.Store.agrees a.attributes b.attributes

def Graph.agrees (a b : Graph) : Bool :=
  { a with nodes := [] } = { b with nodes := [] } && a.nodes.isEqv b.nodes Node.agrees

end OperatorGraph
