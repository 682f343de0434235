import OperatorGraph.Proofs.Extender.Operations
import OperatorGraph.Proofs.Graph.Portable

/-!
What holds of all values of a store, each under its name, and is kept by rules. Integers, lists of
integers and texts are all that a rule writes by itself; the rest it takes from the store.
-/

namespace OperatorGraph

namespace Attribute

variable {p : String → Value → Prop} {store : Store}

/-- Whether every value of a store has a property, which may depend on its name. -/
def Store.All (p : String → Value → Prop) (store : Store) : Prop :=
  ∀ name value, store.get? name = some value → p name value

namespace Store.All

theorem insert (h : store.All p) {name : String} {value : Value} (holds : p name value) :
    Store.All p (store.insert name value) := by
  intro other held found
  rw [NameMap.get?_insert] at found
  split at found
  · rename_i same
    cases found
    exact same ▸ holds
  · exact h other held found

theorem erase (h : store.All p) (name : String) : Store.All p (store.erase name) := by
  intro other value kept
  rw [NameMap.get?_erase] at kept
  split at kept
  · cases kept
  · exact h other value kept

theorem rename (h : store.All p) {source target : String}
    (moves : ∀ value, p source value → p target value) :
    Store.All p (store.rename source target) := by
  unfold Store.rename
  split
  · exact h
  · rename_i value found
    exact (h.erase source).insert (moves value (h source value found))

end Store.All

namespace Operation

/-- Whether an operation keeps a property of values by what it sets, coerces or moves. -/
def Keeps (p : String → Value → Prop) : Operation → Prop
  | set name value => p name value
  | coerce c name =>
    ∀ value coerced, p name value → c.apply name value = .ok coerced → p name coerced
  | rename source target => ∀ value, p source value → p target value
  | remove _ => True

theorem run_all {operation : Operation} (keeps : operation.Keeps p) (h : store.All p) :
    (operation.run store).1.All p := by
  cases operation with
  | set name value => exact h.insert keeps
  | remove name => exact h.erase name
  | rename source target => exact h.rename keeps
  | coerce c name =>
    rcases run_coerce_cases c name store with ⟨_, eq⟩ | ⟨_, _, _, _, eq⟩ |
      ⟨value, coerced, held, ok, eq⟩
    · rw [eq]
      exact h
    · rw [eq]
      exact h
    · rw [eq]
      exact h.insert (keeps value coerced (h name value held) ok)

theorem runAll_all {operations : List Operation}
    (keeps : ∀ operation ∈ operations, operation.Keeps p) (h : store.All p) :
    (runAll operations store).All p := by
  induction operations generalizing store with
  | nil => exact h
  | cons operation rest ih =>
    exact ih (fun later member => keeps later (List.mem_cons_of_mem operation member))
      (run_all (keeps operation List.mem_cons_self) h)

end Operation

/-- An element that a form reads as itself is of that form. -/
theorem ListForm.Reads.holds {form : ListForm} {s : Scalar} (h : form.Reads s) : form.Holds s := by
  cases form with
  | integers =>
    cases s with
    | int n => trivial
    | float x => cases h
    | bool b => cases h
    | text t =>
      obtain ⟨_, _, read⟩ := mem_of_mapM h (List.mem_singleton_self _)
      obtain ⟨_, _, eq⟩ := Option.map_eq_some_iff.mp read
      cases eq
  | floats =>
    cases s with
    | int n => cases h
    | float x =>
      simp only [Reads, read, readFloat, float, Option.some.injEq, List.cons.injEq, and_true,
        Scalar.float.injEq] at h
      exact h
    | bool b => cases h
    | text t =>
      obtain ⟨_, _, read⟩ := mem_of_mapM h (List.mem_singleton_self _)
      obtain ⟨_, _, eq⟩ := Option.map_eq_some_iff.mp read
      cases eq
  | texts =>
    cases s with
    | text t => trivial
    | _ => cases h

theorem Coercion.toListOf_integers {name : String} {value coerced : Value}
    (ok : toListOf .integers name value = .ok coerced) : ∃ ns, coerced = .ints ns := by
  obtain ⟨_, out, _, read, rfl⟩ := toListOf_eq_ok_iff.mp ok
  obtain ⟨ns, rfl⟩ := exists_map_of_forall fun e member =>
    holds_integers_iff.mp (ListForm.reads_of_readAll read e member).holds
  exact ⟨ns, rfl⟩

end Attribute

namespace Extender

open Attribute

variable {p : String → Value → Prop}

theorem Plain.of_setsIntegers (plain : Plain p) {name : String} {value : Value}
    (sets : (Rule.set name value).setsIntegers) : p name value := by
  cases value with
  | scalar s =>
    cases s with
    | int n => exact plain.int name n
    | _ => cases sets
  | list elements =>
    have integers : ∀ e ∈ elements, ∃ n, e = Scalar.int n := by
      intro e member
      have integral := List.all_eq_true.mp sets e member
      cases e with
      | int n => exact ⟨n, rfl⟩
      | _ => cases integral
    obtain ⟨ns, rfl⟩ := exists_map_of_forall integers
    exact plain.ints name ns
  | payload p => cases sets

namespace Rule

variable {node : Node} {store : Store}

/-- Whether a rule keeps a property where it is the rule that decides what is written. -/
def Keeps (p : String → Value → Prop) : Rule → Prop
  | coerce c name =>
    ∀ value coerced, p name value → c.apply name value = .ok coerced → p name coerced
  | set name value => p name value
  | rename source target => ∀ value, p source value → p target value
  | _ => True

theorem Keeps.wraps {r : Rule} (keeps : r.Keeps p) : r.Wraps (Operation.Keeps p) := by
  cases r with
  | _ => exact keeps

theorem applyAll_all (plain : Plain p) {rules : List Rule} (keeps : ∀ r ∈ rules, r.Keeps p)
    (h : store.All p) : (applyAll node rules store).attributes.All p := by
  have integers : ∀ name, (Operation.coerce (.listOf .integers) name).Keeps p := by
    intro name value coerced _ ok
    obtain ⟨ns, rfl⟩ := Coercion.toListOf_integers ok
    exact plain.ints name ns
  rw [← runAll_script]
  exact Operation.runAll_all
    (forall_script plain integers fun r member => (keeps r member).wraps) h

end Rule

end Extender

end OperatorGraph
