import OperatorGraph.Attribute.Store

/-!
Operations on an attribute store as data, with their answers.
-/

namespace OperatorGraph.Attribute

inductive Operation where
  | set (name : String) (value : Value)
  | remove (name : String)
  | rename (source target : String)
  | coerce (c : Coercion) (name : String)
deriving DecidableEq

inductive Answer where
  | held (previous : Option Value)
  | moved (done : Bool)
  | coerced (fault : Option Fault)
deriving DecidableEq

/-- The store and the answer after an operation; a coercion that fails changes nothing. -/
def Operation.run : Operation → Store → Store × Answer
  | set name value, store => (store.insert name value, .held (store.get? name))
  | remove name, store => (store.erase name, .held (store.get? name))
  | rename source target, store => (store.rename source target, .moved (store.contains source))
  | coerce c name, store =>
    match store.coerce c name with
    | .ok changed => (changed, .coerced none)
    | .error fault => (store, .coerced (some fault))

end OperatorGraph.Attribute
