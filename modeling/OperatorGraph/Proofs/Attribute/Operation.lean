import OperatorGraph.Attribute.Operation
import OperatorGraph.Proofs.Attribute.Coercion

/-!
Coercions as operations on a store. One that fails leaves the store as it is, one that succeeds
changes nothing but the value of the attribute that it names, and neither does anything else when it
is run a second time.
-/

namespace OperatorGraph.Attribute

namespace Coercion

/-- What a coercion says it expects where it finds a payload. -/
def expected : Coercion → Wanted
  | integer => .integer
  | list | listOf _ => .scalarOrList

theorem apply_payload_eq (c : Coercion) (name : String) (p : Payload) :
    c.apply name (.payload p) = .error (.malformed name c.expected (.payload p.kind)) := by
  cases c <;> rfl

end Coercion

namespace Operation

variable {c : Coercion} {name : String} {store : Store} {value : Value}

theorem run_coerce_absent (absent : store.get? name = none) :
    (coerce c name).run store = (store, .coerced none) := by
  simp only [run, Store.coerce, absent]

theorem run_coerce_ok (held : store.get? name = some value) {coerced : Value}
    (ok : c.apply name value = .ok coerced) :
    (coerce c name).run store = (store.insert name coerced, .coerced none) := by
  simp only [run, Store.coerce, held, ok, Except.map]

theorem run_coerce_error (held : store.get? name = some value) {fault : Fault}
    (error : c.apply name value = .error fault) :
    (coerce c name).run store = (store, .coerced (some fault)) := by
  simp only [run, Store.coerce, held, error, Except.map]

theorem run_coerce_cases (c : Coercion) (name : String) (store : Store) :
    (store.get? name = none ∧ (coerce c name).run store = (store, .coerced none)) ∨
    (∃ value fault, store.get? name = some value ∧ c.apply name value = .error fault ∧
      (coerce c name).run store = (store, .coerced (some fault))) ∨
    (∃ value coerced, store.get? name = some value ∧ c.apply name value = .ok coerced ∧
      (coerce c name).run store = (store.insert name coerced, .coerced none)) := by
  cases held : store.get? name with
  | none => exact .inl ⟨rfl, run_coerce_absent held⟩
  | some value =>
    cases applied : c.apply name value with
    | error fault => exact .inr (.inl ⟨value, fault, rfl, applied, run_coerce_error held applied⟩)
    | ok coerced => exact .inr (.inr ⟨value, coerced, rfl, applied, run_coerce_ok held applied⟩)

/-- Coercions are atomic and local. After a fault the store is what it was. Without one it lists the
names that it listed, and all values but that of the named attribute are what they were. Where there
is no attribute there is no fault and no change, and a payload is always a fault that says which
attribute holds it and of what kind it is. -/
theorem run_coerce_atomic (c : Coercion) (name : String) (store : Store) :
    ∃ changed fault, (coerce c name).run store = (changed, .coerced fault) ∧
      (fault ≠ none → changed = store) ∧
      (fault = none → changed.names = store.names ∧
        ∀ other, other ≠ name → changed.get? other = store.get? other) ∧
      (store.get? name = none → fault = none ∧ changed = store) ∧
      ∀ p, store.get? name = some (.payload p) →
        fault = some (.malformed name c.expected (.payload p.kind)) := by
  rcases run_coerce_cases c name store with ⟨absent, eq⟩ | ⟨value, fault, held, error, eq⟩ |
    ⟨value, coerced, held, ok, eq⟩
  · refine ⟨store, none, eq, fun _ => rfl, fun _ => ⟨rfl, fun _ _ => rfl⟩, fun _ => ⟨rfl, rfl⟩, ?_⟩
    simp [absent]
  · refine ⟨store, some fault, eq, fun _ => rfl, by simp, by simp [held], fun p packed => ?_⟩
    cases held.symm.trans packed
    rw [Coercion.apply_payload_eq] at error
    rw [Except.error.inj error]
  · have listed : store.contains name = true := by simp [NameMap.contains, held]
    refine ⟨store.insert name coerced, none, eq, by simp, fun _ => ?_, by simp [held],
      fun p packed => ?_⟩
    · refine ⟨NameMap.names_insert listed coerced, fun other apart => ?_⟩
      rw [NameMap.get?_insert, if_neg apart]
    · cases held.symm.trans packed
      rw [Coercion.apply_payload_eq] at ok
      cases ok

/-- Coercions are idempotent: the second time the store stays what the first time made it, and the
answer is the same. -/
theorem run_coerce_run_coerce (c : Coercion) (name : String) (store : Store) :
    let first := (coerce c name).run store
    let second := (coerce c name).run first.1
    second.1 = first.1 ∧ second.2 = first.2 := by
  intro first second
  suffices again : second = first by simp only [again, and_self]
  rcases run_coerce_cases c name store with ⟨_, eq⟩ | ⟨_, fault, _, _, eq⟩ |
    ⟨value, coerced, _, ok, eq⟩
  · have unchanged : first = (store, .coerced none) := eq
    simp only [second, unchanged]
    exact eq
  · have unchanged : first = (store, .coerced (some fault)) := eq
    simp only [second, unchanged]
    exact eq
  · have written : first = (store.insert name coerced, .coerced none) := eq
    have kept : (store.insert name coerced).get? name = some coerced := by
      rw [NameMap.get?_insert, if_pos rfl]
    -- what a coercion gives is a fixed point of it, so the value is put where it stands already
    have fixed := run_coerce_ok kept (Coercion.apply_apply ok)
    rw [NameMap.insert_get? kept] at fixed
    simp only [second, written]
    exact fixed

end Operation

end OperatorGraph.Attribute
