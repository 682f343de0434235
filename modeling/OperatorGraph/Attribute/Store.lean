import OperatorGraph.Attribute.Coercion
import OperatorGraph.ElementType
import OperatorGraph.NameMap

/-!
The attributes of one node, by name, and the changes made to them.
-/

namespace OperatorGraph.Attribute

abbrev Store := NameMap Value

namespace Store

/-- Moves the value of `source` over whatever `target` holds. -/
def rename (store : Store) (source target : String) : Store :=
  match store.get? source with
  | none => store
  | some value => (store.erase source).insert target value

/-- Coerces the value of one attribute; an absent attribute stays absent. -/
def coerce (store : Store) (c : Coercion) (name : String) : Except Fault Store :=
  match store.get? name with
  | none => .ok store
  | some value => (c.apply name value).map (store.insert name)

/-- Writes the canonical name of the element type that `source` holds to `target`. An absent
`source` is a fault only if it is required. -/
def nameElementType (store : Store) (source target : String) (required : Bool) :
    Except Fault Store :=
  match store.get? source with
  | none => if required then .error (.missing source) else .ok store
  | some (.scalar (.text name)) =>
    match ElementType.ofName? name with
    | some t => .ok (store.insert target (.text t.name))
    | none => .error (.unknownElementType source name)
  | some other => .error (.malformed source .elementTypeName other.kind)

end Store

end OperatorGraph.Attribute
