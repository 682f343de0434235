import OperatorGraph.Attribute.Store

/-!
Reading an attribute as a value of one kind, without changing it.
-/

namespace OperatorGraph.Attribute

def Scalar.int? : Scalar → Option Int64
  | .int n => some n
  | _ => none

namespace Store

def int? (store : Store) (name : String) : Option Int64 :=
  match store.get? name with
  | some (.scalar (.int n)) => some n
  | some (.scalar (.text s)) => Text.integer? (Text.trim s.toList)
  | _ => none

def ints? (store : Store) (name : String) : Option (List Int64) :=
  match store.get? name with
  | some (.list elements) => elements.mapM Scalar.int?
  | _ => none

def float? (store : Store) (name : String) : Option Binary64 :=
  match store.get? name with
  | some (.scalar (.float x)) => some x
  | some (.scalar (.int n)) => some (.ofInt n.toInt)
  | _ => none

def text? (store : Store) (name : String) : Option String :=
  match store.get? name with
  | some (.scalar (.text s)) => some s
  | _ => none

/-- The spellings of the two truth values. -/
def readBool (s : String) : Option Bool :=
  if ["true", "True", "1"].contains s then some true
  else if ["false", "False", "0"].contains s then some false
  else none

def bool? (store : Store) (name : String) : Option Bool :=
  match store.get? name with
  | some (.scalar (.bool b)) => some b
  | some (.scalar (.int n)) => some (n != 0)
  | some (.scalar (.text s)) => readBool (String.ofList (Text.trim s.toList))
  | _ => none

end Store

end OperatorGraph.Attribute
