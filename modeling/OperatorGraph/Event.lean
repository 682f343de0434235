import OperatorGraph.Diagnostic

/-!
What is worth logging, with the level and the line of each event.
-/

namespace OperatorGraph

inductive Level where
  | trace
  | debug
  | info
  | warn
  | error
deriving DecidableEq

def Level.name : Level → String
  | .trace => "trace"
  | .debug => "debug"
  | .info => "info"
  | .warn => "warn"
  | .error => "error"

inductive Event where
  | absent (name : String)
  | registeredTwice (opType : String)
  | registeredBuiltins (count : Nat)
  | decoded (name : Option String) (nodes : Nat)
  | cyclic
  | skipped (opType displayName : String)
  | extending (opType displayName : String)
  | faulty (d : Diagnostic)
  | normalized (extended visited diagnostics : Nat)
deriving DecidableEq

namespace Event

def level : Event → Level
  | absent _ | registeredBuiltins _ | decoded _ _ | extending _ _ => .debug
  | registeredTwice _ => .error
  | cyclic | faulty _ => .warn
  | skipped _ _ => .trace
  | normalized _ _ _ => .info

def message : Event → String
  | absent name => s!"Attribute \"{name}\" absent, nothing to coerce"
  | registeredTwice opType => s!"Extender for \"{opType}\" registered twice"
  | registeredBuiltins count => s!"Registered {count} built-in extenders"
  | decoded name nodes => s!"Decoded graph {nameOrUnnamed name} with {nodes} nodes"
  | cyclic => "Graph has a cycle, normalizing in insertion order"
  | skipped opType displayName => s!"No extender for {opType}, skipping {displayName}"
  | extending opType displayName => s!"Extending {opType} {displayName}"
  | faulty d => s!"Could not normalize attribute on {d.message}"
  | normalized extended visited diagnostics =>
    s!"Normalized {extended} of {visited} nodes, {diagnostics} diagnostic(s)"

end Event

end OperatorGraph
