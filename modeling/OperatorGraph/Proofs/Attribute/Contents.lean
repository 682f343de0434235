import OperatorGraph.Proofs.Attribute.Operation
import OperatorGraph.Proofs.Text.ByteOrder
import OperatorGraph.Proofs.Transcript

/-!
Stores as finite maps. Whatever is done to a store, it lists the names of its attributes once each
and in the order of their bytes, and it holds what a map without any order would hold.
-/

namespace OperatorGraph.Attribute

/-- What is held under each name, without an order of the names. -/
abbrev Contents := String → Option Value

namespace Contents

def put (m : Contents) (name : String) (value : Option Value) : Contents :=
  fun other => if other = name then value else m other

/-- An operation on contents, and its answer. -/
def perform : Operation → Contents → Contents × Answer
  | .set name value, m => (m.put name (some value), .held (m name))
  | .remove name, m => (m.put name none, .held (m name))
  | .rename source target, m =>
    match m source with
    | none => (m, .moved false)
    | some value => ((m.put source none).put target (some value), .moved true)
  | .coerce c name, m =>
    match (m name).map (c.apply name) with
    | none => (m, .coerced none)
    | some (.ok coerced) => (m.put name (some coerced), .coerced none)
    | some (.error fault) => (m, .coerced (some fault))

theorem get?_insert_eq_put (store : Store) (name : String) (value : Value) :
    (store.insert name value).get? = put store.get? name (some value) :=
  funext (store.get?_insert name value)

theorem get?_erase_eq_put (store : Store) (name : String) :
    (store.erase name).get? = put store.get? name none :=
  funext (store.get?_erase name)

/-- An operation on a store does to its contents what it does to contents alone. -/
theorem perform_get? (operation : Operation) (store : Store) :
    perform operation store.get? =
      ((operation.run store).1.get?, (operation.run store).2) := by
  cases operation with
  | set name value => simp only [perform, Operation.run, get?_insert_eq_put]
  | remove name => simp only [perform, Operation.run, get?_erase_eq_put]
  | rename source target =>
    cases held : store.get? source with
    | none => simp [perform, Operation.run, Store.rename, NameMap.contains, held]
    | some value =>
      simp [perform, Operation.run, Store.rename, NameMap.contains, held, get?_insert_eq_put,
        get?_erase_eq_put]
  | coerce c name =>
    rcases Operation.run_coerce_cases c name store with ⟨absent, eq⟩ |
      ⟨value, fault, held, error, eq⟩ | ⟨value, coerced, held, ok, eq⟩
    · simp only [perform, absent, eq, Option.map_none]
    · simp only [perform, held, error, eq, Option.map_some]
    · simp only [perform, held, ok, eq, Option.map_some, get?_insert_eq_put]

end Contents

/-- Whether a store lists what contents hold, once each in the order of the bytes of the names. -/
structure Store.Lists (store : Store) (m : Contents) : Prop where
  ascending : store.names.Pairwise fun a b => Text.utf8 a < Text.utf8 b
  nodup : store.names.Nodup
  size : store.size = store.names.length
  contains : ∀ name, store.contains name = true ↔ name ∈ store.names
  held : ∀ name, store.get? name = m name
  entries : ∀ name value, (name, value) ∈ store.entries ↔ m name = some value

theorem Store.lists_get? (store : Store) : store.Lists store.get? where
  ascending := store.names_ascending.imp Text.utf8_lt_utf8_iff.mpr
  nodup := store.names_nodup
  size := (List.length_map Prod.fst).symm
  contains := store.contains_eq_true_iff
  held _ := rfl
  entries _ _ := NameMap.mem_entries_iff

namespace Operation

/-- A name that holds nothing is not moved. -/
theorem run_rename_absent {store : Store} {source : String} (absent : store.get? source = none)
    (target : String) : (rename source target).run store = (store, .moved false) := by
  simp [run, Store.rename, NameMap.contains, absent]

/-- A value that is moved to its own name stays there. -/
theorem run_rename_self {store : Store} {name : String} (held : store.contains name = true) :
    (rename name name).run store = (store, .moved true) := by
  obtain ⟨value, found⟩ := Option.isSome_iff_exists.mp held
  have back : (store.erase name).insert name value = store := by
    rw [NameMap.insert_erase, NameMap.insert_get? found]
  simp [run, Store.rename, held, found, back]

/-- A store is a finite map over whole runs. Operations that are run on it answer what the same
operations answer on its contents, and it then lists what the contents then are. A name is moved
only if it holds something, and moving it to itself changes nothing. -/
theorem runSteps_lists (store : Store) (operations : List Operation) :
    let stored := runSteps run operations store
    let performed := runSteps Contents.perform operations store.get?
    stored.2 = performed.2 ∧ stored.1.Lists performed.1 ∧
      (∀ source target, stored.1.get? source = none →
        (rename source target).run stored.1 = (stored.1, .moved false)) ∧
      ∀ name, stored.1.contains name = true →
        (rename name name).run stored.1 = (stored.1, .moved true) := by
  intro stored performed
  have same : performed = (stored.1.get?, stored.2) :=
    runSteps_view Contents.perform_get? operations store
  refine ⟨by rw [same], ?_, fun _ target absent => run_rename_absent absent target,
    fun _ held => run_rename_self held⟩
  rw [same]
  exact stored.1.lists_get?

end Operation

end OperatorGraph.Attribute
