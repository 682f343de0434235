import OperatorGraph.Attribute.Value

/-!
Why an attribute could not be brought into its normal form.
-/

namespace OperatorGraph.Attribute

/-- What an attribute or an element of it should have been. -/
inductive Wanted where
  | scalarOrList
  | integer
  | float
  | text
  | elementTypeName
  | dimension
deriving DecidableEq

def Wanted.name : Wanted → String
  | .scalarOrList => "scalar or list"
  | .integer => "integer"
  | .float => "float"
  | .text => "string"
  | .elementTypeName => "element type name"
  | .dimension => "dimension"

inductive Fault where
  | malformed (name : String) (wanted : Wanted) (found : Kind)
  | unparseable (name element : String) (wanted : Wanted)
  | unknownElementType (name typeName : String)
  | missing (name : String)
  | lengthMismatch (first second : String) (firstLength secondLength : Nat)
deriving DecidableEq

/-- The text for an element type name that is not known. -/
def unknownElementTypeMessage (typeName : String) : String :=
  s!"Unknown IR element type \"{typeName}\""

def Fault.message : Fault → String
  | .malformed name wanted found =>
    s!"Attribute \"{name}\" holds a {found.name}, expected {wanted.name}"
  | .unparseable name element wanted =>
    s!"Attribute \"{name}\" element \"{element}\" is not a valid {wanted.name}"
  | .unknownElementType name typeName =>
    s!"Attribute \"{name}\": {unknownElementTypeMessage typeName}"
  | .missing name => s!"Missing required attribute \"{name}\""
  | .lengthMismatch first second m n =>
    s!"Attributes \"{first}\" and \"{second}\" have mismatched lengths {m} and {n}"

end OperatorGraph.Attribute
