import OperatorGraph.Proofs.Extender.Values

/-!
What the rules write can be expressed by the format: lists of one element kind, floats of single
precision, and integers for flags.
-/

namespace OperatorGraph

namespace Attribute

theorem portable_int (n : Int64) : (Value.int n).Portable := ⟨.integers, trivial⟩

theorem portable_text (s : String) : (Value.text s).Portable := ⟨.texts, trivial⟩

theorem Coercion.apply_portable {c : Coercion} {name : String} {value coerced : Value}
    (ok : c.apply name value = .ok coerced) (h : value.Portable) : coerced.Portable := by
  cases c with
  | list =>
    cases value with
    | scalar s =>
      cases ok
      obtain ⟨form, holds⟩ := h
      exact ⟨form, List.forall_mem_singleton.mpr holds⟩
    | list elements =>
      cases ok
      exact h
    | payload p => cases ok
  | integer =>
    obtain ⟨n, rfl⟩ := toInteger_eq_ok ok
    exact portable_int n
  | listOf form =>
    obtain ⟨_, out, _, read, rfl⟩ := toListOf_eq_ok_iff.mp ok
    exact ⟨form, fun e member => (ListForm.reads_of_readAll read e member).holds⟩

end Attribute

namespace Extender

open Attribute

namespace Rule

variable {node : Node} {store : Store}

theorem plain_portable : Plain fun _ value => value.Portable where
  int _ n := portable_int n
  ints _ ns := portable_of_ints ns
  text _ s := portable_text s

theorem keeps_portable {r : Rule} (sets : r.setsIntegers) : r.Keeps fun _ value => value.Portable := by
  cases r with
  | coerce c name => exact fun _ _ held ok => Coercion.apply_portable ok held
  | set name value => exact plain_portable.of_setsIntegers sets
  | rename source target => exact fun _ => id
  | _ => trivial

/-- Rules write nothing that the format could not express. -/
theorem applyAll_portable {rules : List Rule} (sets : rules.all setsIntegers) (h : store.Portable) :
    (applyAll node rules store).attributes.Portable :=
  applyAll_all plain_portable (fun r member => keeps_portable (List.all_eq_true.mp sets r member)) h

end Rule

theorem builtins_portable {e : Extender} (member : e ∈ builtins) {node : Node}
    (h : node.attributes.Portable) : (e.extend node).attributes.Portable := by
  obtain ⟨s, listed, rfl⟩ := mem_builtins_iff.mp member
  exact Rule.applyAll_portable (builtinRules_undisturbed s listed).2 h

end Extender

end OperatorGraph
