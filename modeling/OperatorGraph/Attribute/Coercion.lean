import OperatorGraph.Attribute.Fault
import OperatorGraph.Text.Items
import OperatorGraph.Text.Numeral

/-!
Coercions of attribute values: wrapping into a list, reading one integer, and reading a list whose
elements are all of one form. A text inside a list stands for the items that it lists.
-/

namespace OperatorGraph.Attribute

/-- The element kind that a list is read as. -/
inductive ListForm where
  | integers
  | floats
  | texts
deriving DecidableEq

namespace ListForm

def wanted : ListForm → Wanted
  | integers => .integer
  | floats => .float
  | texts => .text

/-- A float at the precision that the wire format keeps. -/
def float (x : Binary32) : Scalar := .float x.widen

def readInteger : Scalar → Option (List Scalar)
  | .int n => some [.int n]
  | .bool b => some [.int (flag b)]
  | .float _ => none
  | .text s => (Text.items s.toList).mapM fun item => (Text.integer? item).map .int

def readFloat : Scalar → Option (List Scalar)
  | .int n => some [float (.ofInt n.toInt)]
  | .float x => some [float x.narrow]
  | .bool _ => none
  | .text s =>
    (Text.items s.toList).mapM fun item =>
      (Text.numeral? item).map fun numeral => float numeral.toNumber

def readText : Scalar → Option (List Scalar)
  | .text s =>
    (Text.items s.toList).mapM fun item =>
      if item = [] then none else some (.text (String.ofList item))
  | _ => none

/-- The elements that one scalar stands for. -/
def read : ListForm → Scalar → Option (List Scalar)
  | integers => readInteger
  | floats => readFloat
  | texts => readText

/-- The elements that a list stands for, or the first one that stands for nothing. -/
def readAll (form : ListForm) : List Scalar → Except Scalar (List Scalar)
  | [] => .ok []
  | element :: rest =>
    match form.read element with
    | none => .error element
    | some read => (form.readAll rest).map (read ++ ·)

end ListForm

inductive Coercion where
  | list
  | integer
  | listOf (form : ListForm)
deriving DecidableEq

namespace Coercion

/-- The elements of a list; a scalar counts as a list of one. -/
def elements (name : String) : Value → Except Fault (List Scalar)
  | .scalar s => .ok [s]
  | .list elements => .ok elements
  | .payload p => .error (.malformed name .scalarOrList (.payload p.kind))

def toList (name : String) (value : Value) : Except Fault Value :=
  (elements name value).map .list

def toInteger (name : String) : Value → Except Fault Value
  | .scalar (.int n) => .ok (.int n)
  | .scalar (.bool b) => .ok (.int (flag b))
  | .scalar (.text s) =>
    match Text.integer? (Text.trim s.toList) with
    | some n => .ok (.int n)
    | none => .error (.unparseable name s .integer)
  | other => .error (.malformed name .integer other.kind)

def toListOf (form : ListForm) (name : String) (value : Value) : Except Fault Value := do
  match form.readAll (← elements name value) with
  | .ok read => .ok (.list read)
  | .error element => .error (.unparseable name element.display form.wanted)

/-- The coerced value of the attribute with the given name, which only faults mention. -/
def apply : Coercion → String → Value → Except Fault Value
  | list => toList
  | integer => toInteger
  | listOf form => toListOf form

end Coercion

end OperatorGraph.Attribute
