import OperatorGraph.Extender.Registry
import OperatorGraph.Graph.Order

/-!
Normalization: every node of a graph is visited once and given to the extender of its operator
type, if there is one. Only attributes change.
-/

namespace OperatorGraph

inductive WalkOrder where
  | insertion
  | topological
deriving DecidableEq

def WalkOrder.name : WalkOrder → String
  | .insertion => "insertion"
  | .topological => "topological"

def WalkOrder.ofName? (name : String) : Option WalkOrder :=
  [WalkOrder.insertion, .topological].find? fun order => order.name = name

namespace Normalize

structure Config where
  walkOrder : WalkOrder := .insertion
  /-- Whether diagnostics make the whole pass fail; every node is visited all the same. -/
  strict : Bool := false
deriving DecidableEq

structure Report where
  visited : Nat := 0
  extended : Nat := 0
  diagnostics : List Diagnostic := []
deriving DecidableEq

def Report.isClean (r : Report) : Bool := r.diagnostics.isEmpty

structure Walk where
  graph : Graph
  report : Report := {}
  events : List Event := []

/-- The ids in the order of the walk, which is by insertion if there is a cycle. -/
def route (g : Graph) (order : WalkOrder) : List Nat × List Event :=
  let inserted := List.range g.nodes.length
  match order with
  | .insertion => (inserted, [])
  | .topological =>
    match g.topologicalOrder? with
    | some ids => (ids, [])
    | none => (inserted, [.cyclic])

def diagnose (id : Nat) (node : Node) (faults : List Attribute.Fault) : List Diagnostic :=
  faults.map fun fault => { node := id, nodeName := node.name, opType := node.opType, fault }

/-- A walk after one more node. -/
def visit (registry : Registry) (w : Walk) (id : Nat) : Walk :=
  match w.graph.node? id with
  | none => w
  | some node =>
    match registry.lookup node.opType with
    | none =>
      { w with
        report := { w.report with visited := w.report.visited + 1 }
        events := w.events ++ [.skipped node.opType node.displayName] }
    | some extender =>
      let outcome := extender.extend node
      let diagnostics := diagnose id node outcome.faults
      { graph := w.graph.setAttributes id outcome.attributes
        report :=
          { visited := w.report.visited + 1
            extended := w.report.extended + 1
            diagnostics := w.report.diagnostics ++ diagnostics }
        events :=
          w.events ++ .extending node.opType node.displayName :: outcome.events ++
            diagnostics.map .faulty }

structure Result where
  graph : Graph
  /-- The report, or in strict mode the diagnostics if there are any. -/
  answer : Except (List Diagnostic) Report
  events : List Event

def failureMessage (diagnostics : List Diagnostic) : String :=
  s!"{diagnostics.length} attribute(s) could not be normalized"

def run (g : Graph) (registry : Registry) (config : Config) : Result :=
  let (ids, events) := route g config.walkOrder
  let w := ids.foldl (visit registry) { graph := g, events }
  let report := w.report
  { graph := w.graph
    answer := if config.strict && !report.isClean then .error report.diagnostics else .ok report
    events :=
      w.events ++ [.normalized report.extended report.visited report.diagnostics.length] }

/-- Normalization with the built-in extenders. -/
def runBuiltin (g : Graph) (config : Config) : Result := run g .builtin config

end Normalize

end OperatorGraph
