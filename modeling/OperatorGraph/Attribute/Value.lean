import OperatorGraph.Decimal.Layout
import OperatorGraph.Text.Integer

/-!
Attribute values: scalars, lists of scalars, and payloads, which are encoded messages that
attribute handling never looks into.
-/

namespace OperatorGraph.Attribute

inductive Scalar where
  | int (n : Int64)
  | float (x : Binary64)
  | bool (b : Bool)
  | text (s : String)
deriving DecidableEq

def Scalar.display : Scalar → String
  | .int n => String.ofList (Text.integer n.toInt)
  | .float x => String.ofList x.display
  | .bool b => if b then "true" else "false"
  | .text s => s

inductive PayloadKind where
  | tensor
  | graph
deriving DecidableEq

def PayloadKind.name : PayloadKind → String
  | .tensor => "tensor"
  | .graph => "graph"

structure Payload where
  kind : PayloadKind
  bytes : List UInt8
deriving DecidableEq

inductive Value where
  | scalar (s : Scalar)
  | list (elements : List Scalar)
  | payload (p : Payload)
deriving DecidableEq

inductive Kind where
  | int
  | float
  | bool
  | text
  | list
  | payload (kind : PayloadKind)
deriving DecidableEq

def Kind.name : Kind → String
  | .int => "int"
  | .float => "float"
  | .bool => "bool"
  | .text => "string"
  | .list => "list"
  | .payload kind => kind.name

namespace Value

def kind : Value → Kind
  | .scalar (.int _) => .int
  | .scalar (.float _) => .float
  | .scalar (.bool _) => .bool
  | .scalar (.text _) => .text
  | .list _ => .list
  | .payload p => .payload p.kind

def isList : Value → Bool
  | .list _ => true
  | _ => false

def int (n : Int64) : Value := .scalar (.int n)

def ints (ns : List Int64) : Value := .list (ns.map .int)

def text (s : String) : Value := .scalar (.text s)

end Value

/-- Flags are integers, since the wire format has no booleans. -/
def flag (b : Bool) : Int64 := if b then 1 else 0

end OperatorGraph.Attribute
