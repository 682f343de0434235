import OperatorGraph.Proofs.Attribute.Reading
import OperatorGraph.Proofs.Extender.Documented

/-!
Strides of reorganizations, which are written for each dimension. What is read as an integer is
written out, as all other readings of integers would have it, and what is of another kind is
reported. A list is left as it is without a word, since it may have been written out before, and so
is one that holds anything else.
-/

namespace OperatorGraph

namespace Extender

open Attribute (Fault Scalar Store)

/-- Whether an attribute that wants integers has been dealt with: there is none, or it is a list of
integers and nothing is reported, or it is left alone and one fault says so. -/
inductive DealtWith (name : String) (before : Store) (after : Outcome) : Prop where
  | absent (missing : before.get? name = none) (still : after.attributes.get? name = none)
      (silent : after.faults = [])
  | integers (ns : List Int64) (listed : after.attributes.get? name = some (.ints ns))
      (silent : after.faults = [])
  | reported (fault : Fault) (named : fault.names = [name])
      (kept : after.attributes.get? name = before.get? name) (one : after.faults = [fault])

namespace Rule

variable {store : Store} {name : String}

theorem applyPerDimension_list {elements : List Scalar}
    (held : store.get? name = some (.list elements)) :
    applyPerDimension name store = { attributes := store } := by
  simp only [applyPerDimension, held]

/-- An integer is written out, once for batch and channel each and twice for what is spatial. -/
theorem applyPerDimension_of_int? {n : Int64} (read : store.int? name = some n) :
    applyPerDimension name store =
      { attributes := store.insert name (.ints [1, 1, n, n]) } := by
  obtain ⟨value, held, spells⟩ := Store.int?_eq_some_iff.mp read
  obtain ⟨s, rfl, _⟩ := spells.denotes
  simp only [applyPerDimension, held, read, Outcome.ofChange]

theorem applyPerDimension_dealtWith
    (notList : ∀ elements, store.get? name ≠ some (.list elements)) :
    DealtWith name store (applyPerDimension name store) := by
  cases held : store.get? name with
  | none =>
    have kept : applyPerDimension name store = { attributes := store } := by
      simp only [applyPerDimension, held]
    rw [kept]
    exact .absent held held rfl
  | some value =>
    cases read : store.int? name with
    | some n =>
      rw [applyPerDimension_of_int? read]
      exact .integers [1, 1, n, n] (by simp [NameMap.get?_insert]) rfl
    | none =>
      have refused : applyPerDimension name store =
          { attributes := store, faults := [.malformed name .integer value.kind] } := by
        cases value with
        | list elements => exact absurd held (notList elements)
        | _ => simp only [applyPerDimension, held, read, Outcome.ofChange]
      rw [refused]
      exact .reported _ rfl rfl rfl

/-- Only lists with something other than integers in them are not dealt with. -/
theorem applyPerDimension_dealtWith_iff :
    DealtWith name store (applyPerDimension name store) ↔
      ∀ elements, store.get? name = some (.list elements) → ∀ e ∈ elements, ∃ n, e = .int n := by
  constructor
  · intro dealt elements held e member
    rw [applyPerDimension_list held] at dealt
    cases dealt with
    | absent missing => cases missing.symm.trans held
    | integers ns listed =>
      cases held.symm.trans listed
      obtain ⟨n, _, rfl⟩ := List.mem_map.mp member
      exact ⟨n, rfl⟩
    | reported fault _ _ one => cases one
  · intro integers
    by_cases listed : ∃ elements, store.get? name = some (.list elements)
    · obtain ⟨elements, held⟩ := listed
      obtain ⟨ns, rfl⟩ := exists_map_of_forall (integers elements held)
      rw [applyPerDimension_list held]
      exact .integers ns held rfl
    · exact applyPerDimension_dealtWith fun elements held => listed ⟨elements, held⟩

end Rule

theorem extend_reorgYolo (node : Node) :
    reorgYolo.extender.extend node = Rule.applyPerDimension "stride" node.attributes := by
  simp [reorgYolo, Ruleset.extender, Rule.applyAll, Outcome.andThen, Rule.apply]

end Extender

open Attribute (Operation Store)
open Extender (DealtWith reorgYolo)

theorem Registry.lookup_reorgYolo : builtin.lookup "ReorgYolo" = some reorgYolo.extender :=
  lookup_builtin (s := reorgYolo) (by simp [Extender.builtinRules])

/-- Exactly the strides are dealt with that are not a list with something other than integers in it.
Every list is left as it is, and nothing is reported of it. -/
theorem Registry.dealtWith_stride_iff (node : Node) :
    ∃ e, builtin.lookup "ReorgYolo" = some e ∧
      (DealtWith "stride" node.attributes (e.extend node) ↔
        ∀ elements, node.attributes.get? "stride" = some (.list elements) →
          ∀ x ∈ elements, ∃ n, x = .int n) ∧
      ∀ elements, node.attributes.get? "stride" = some (.list elements) →
        e.extend node = { attributes := node.attributes } := by
  refine ⟨reorgYolo.extender, lookup_reorgYolo, ?_, fun elements held => ?_⟩
  · rw [Extender.extend_reorgYolo]
    exact Extender.Rule.applyPerDimension_dealtWith_iff
  · rw [Extender.extend_reorgYolo, Extender.Rule.applyPerDimension_list held]

/-- A stride that is a list of one text stays that, unreported. -/
theorem Registry.not_dealtWith_stride :
    ¬∀ node : Node, ∃ e, builtin.lookup "ReorgYolo" = some e ∧
      DealtWith "stride" node.attributes (e.extend node) := by
  intro every
  let node : Node :=
    { opType := "ReorgYolo", attributes := .ofList [("stride", .list [.text "x"])] }
  have held : node.attributes.get? "stride" = some (.list [.text "x"]) := by decide
  obtain ⟨e, found, dealt⟩ := every node
  cases found.symm.trans lookup_reorgYolo
  rw [Extender.extend_reorgYolo] at dealt
  obtain ⟨n, text⟩ := Extender.Rule.applyPerDimension_dealtWith_iff.mp dealt _ held (.text "x")
    (List.mem_singleton_self _)
  cases text

/-- All readings of an integer agree. What is read as one integer is coerced to it, and to the list
of it alone, and is written out as a stride. What is read as a list is coerced to itself, and what
has been coerced to an integer is read as that one, which it was before unless it was a flag. -/
theorem Registry.integer_readings_agree (store : Store) (name : String) :
    (∀ n, store.int? name = some n →
      (Operation.coerce .integer name).run store = (store.insert name (.int n), .coerced none) ∧
      ∃ changed, (Operation.coerce (.listOf .integers) name).run store = (changed, .coerced none) ∧
        changed.ints? name = some [n]) ∧
      (∃ e, builtin.lookup "ReorgYolo" = some e ∧
        ∀ (node : Node) n, node.attributes.int? "stride" = some n →
          e.extend node =
            { attributes := node.attributes.insert "stride" (.ints [1, 1, n, n]) }) ∧
      (∀ ns, store.ints? name = some ns →
        (Operation.coerce (.listOf .integers) name).run store = (store, .coerced none)) ∧
      ∀ changed, store.get? name ≠ none →
        (Operation.coerce .integer name).run store = (changed, .coerced none) →
        ∃ n, changed.get? name = some (.int n) ∧ changed.int? name = some n ∧
          (store.int? name = some n ∨
            ∃ b, store.get? name = some (.scalar (.bool b)) ∧ n = Attribute.flag b) := by
  refine ⟨fun n read => ⟨Operation.run_coerce_integer_of_int? read, ?_⟩,
    ⟨reorgYolo.extender, lookup_reorgYolo, fun node n read => ?_⟩, fun ns read => ?_,
    fun changed present run => ?_⟩
  · refine ⟨_, Operation.run_coerce_integers_of_int? read, Store.ints?_eq_some_iff.mpr ?_⟩
    rw [NameMap.get?_insert, if_pos rfl]
  · rw [Extender.extend_reorgYolo, Extender.Rule.applyPerDimension_of_int? read]
  · exact Operation.run_coerce_integers_of_ints? read
  · exact Operation.exists_int?_of_run_coerce_integer present run

end OperatorGraph
