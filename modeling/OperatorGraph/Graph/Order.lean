import OperatorGraph.Graph.Basic

/-!
Topological order. A node depends on the last node that outputs one of its input names. Nodes are
taken one by one, always the first of those whose dependencies have all been taken; a counter per
node says how many have not.
-/

namespace OperatorGraph

namespace Order

/-- `dependencies[v]` lists the distinct nodes that `v` depends on. -/
abbrev Dependencies := List (List Nat)

structure Progress where
  remaining : List Nat
  ready : List Nat
  order : List Nat
deriving DecidableEq

def dependents (dependencies : Dependencies) (id : Nat) : List Nat :=
  (List.range dependencies.length).filter fun v => (dependencies.getD v []).contains id

def start (dependencies : Dependencies) : Progress where
  remaining := dependencies.map List.length
  ready := (List.range dependencies.length).filter fun v => dependencies.getD v [] = []
  order := []

/-- Adds an id to an ascending list of them. -/
def enqueue (id : Nat) : List Nat → List Nat
  | [] => [id]
  | first :: rest =>
    if id < first then id :: first :: rest
    else if id = first then first :: rest
    else first :: enqueue id rest

/-- Counts down for a node one of whose dependencies has been taken. -/
def release (p : Progress) (id : Nat) : Progress :=
  let remaining := p.remaining.modify id (· - 1)
  if remaining[id]? = some 0 then { p with remaining, ready := enqueue id p.ready }
  else { p with remaining }

def step (dependencies : Dependencies) (p : Progress) : Progress :=
  match p.ready with
  | [] => p
  | id :: ready =>
    (dependents dependencies id).foldl release { p with ready, order := p.order ++ [id] }

def run (dependencies : Dependencies) : Nat → Progress → Progress
  | 0, p => p
  | steps + 1, p => run dependencies steps (step dependencies p)

end Order

namespace Graph

/-- The last node that outputs a name. -/
def producer? (g : Graph) (name : String) : Option Nat :=
  (g.nodes.zipIdx.filter fun (node, _) => node.outputs.contains name).getLast?.map Prod.snd

/-- The distinct nodes that a node depends on, in ascending order. -/
def dependenciesOf (g : Graph) (node : Node) : List Nat :=
  let producers := node.inputs.filterMap g.producer?
  (List.range g.nodes.length).filter producers.contains

def dependencies (g : Graph) : Order.Dependencies := g.nodes.map g.dependenciesOf

/-- Every id once, each after those it depends on, or nothing if there is a cycle. Of the ids that
may come next the smallest does. -/
def topologicalOrder? (g : Graph) : Option (List Nat) :=
  let dependencies := g.dependencies
  let finished := Order.run dependencies g.nodes.length (Order.start dependencies)
  if finished.order.length = g.nodes.length then some finished.order else none

end Graph

end OperatorGraph
