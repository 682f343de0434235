import OperatorGraph.Proofs.Attribute.Operation
import OperatorGraph.Proofs.Extender.Idempotence

/-!
Rules as operations on a store: what a rule makes of attributes comes down to operations that set,
coerce or move them. What holds of the operations of rules follows from what holds of those that the
rules wrap, and of integers, lists of integers and texts, which are all that a rule sets by itself.
-/

namespace OperatorGraph

namespace Attribute.Operation

def runAll (operations : List Operation) (store : Store) : Store :=
  operations.foldl (fun store operation => (operation.run store).1) store

theorem runAll_append (operations later : List Operation) (store : Store) :
    runAll (operations ++ later) store = runAll later (runAll operations store) :=
  List.foldl_append

end Attribute.Operation

namespace Extender

open Attribute

/-- Whether a property holds of the values that rules write by themselves. -/
structure Plain (p : String → Value → Prop) : Prop where
  int (name : String) (n : Int64) : p name (.int n)
  ints (name : String) (ns : List Int64) : p name (.ints ns)
  text (name s : String) : p name (.text s)

namespace Rule

variable {node : Node} {store : Store} {r : Rule} {rules : List Rule}

/-- What a rule does with a store, as operations. A rule that meets a fault where it would set
something does nothing. -/
def operations (node : Node) (store : Store) : Rule → List Operation
  | coerce c name => [.coerce c name]
  | mask name =>
    if isBlank (store.get? name) then [.set name (.list [])]
    else [.coerce (.listOf .integers) name]
  | shape name =>
    match store.text? name with
    | some s =>
      match (Text.items s.toList).mapM dimension? with
      | some dimensions => [.set name (.ints dimensions)]
      | none => []
    | none => [.coerce (.listOf .integers) name]
  | elementType source target _ =>
    match (store.text? source).bind ElementType.ofName? with
    | some t => [.set target (.text t.name)]
    | none => []
  | rename source target => [.rename source target]
  | set name value => [.set name value]
  | flagUnusedOutput name => if node.outputs.head? = some "" then [.set name (.int 1)] else []
  | perDimension name =>
    match store.int? name with
    | some n => [.set name (.ints [1, 1, n, n])]
    | none => []
  | fullRank source target leading =>
    match store.ints? source with
    | some ns => [.set target (.ints (leading ++ ns))]
    | none => []
  | pads first last target dimensions =>
    match store.ints? first, store.ints? last with
    | some bs, some es =>
      if bs.length = es.length then
        [.set target (.ints ([0, 0, 0, 0] ++ interleave bs es)),
          .set dimensions (.ints (spatialDimensions bs.length))]
      else []
    | _, _ => []

/-- What rules do with a store, one after the other. -/
def script (node : Node) : List Rule → Store → List Operation
  | [], _ => []
  | r :: rest, store => r.operations node store ++ script node rest (r.apply node store).attributes

theorem runAll_coerce (c : Coercion) (name : String) (store : Store) :
    Operation.runAll [.coerce c name] store = (Outcome.coerce c name store).attributes := by
  simp only [Operation.runAll, List.foldl_cons, List.foldl_nil, Operation.run, Outcome.coerce]
  cases store.coerce c name with
  | ok changed => rfl
  | error fault => rfl

/-- The operations of a rule do what the rule does. -/
theorem runAll_operations (node : Node) (r : Rule) (store : Store) :
    Operation.runAll (r.operations node store) store = (r.apply node store).attributes := by
  cases r with
  | coerce c name => exact runAll_coerce c name store
  | mask name =>
    simp only [operations, apply, applyMask_eq]
    split
    · rfl
    · exact runAll_coerce _ name store
  | shape name =>
    simp only [operations, apply, applyShape_eq]
    cases store.text? name with
    | none => exact runAll_coerce _ name store
    | some s =>
      dsimp only
      cases (Text.items s.toList).mapM dimension? <;> rfl
  | elementType source target required =>
    rw [apply, nameElementType_attributes, operations]
    cases (store.text? source).bind ElementType.ofName? <;> rfl
  | rename source target => rfl
  | set name value => rfl
  | flagUnusedOutput name =>
    simp only [operations, apply]
    split <;> rfl
  | perDimension name =>
    rw [apply, applyPerDimension_attributes, operations]
    cases store.int? name <;> rfl
  | fullRank source target leading =>
    simp only [operations, apply, applyFullRank]
    cases store.ints? source <;> rfl
  | pads first last target dimensions =>
    simp only [operations, apply, applyPads]
    cases store.ints? first with
    | none => rfl
    | some bs =>
      cases store.ints? last with
      | none => rfl
      | some es =>
        dsimp only
        split <;> rfl

theorem runAll_script (node : Node) (rules : List Rule) (store : Store) :
    Operation.runAll (script node rules store) store = (applyAll node rules store).attributes := by
  induction rules generalizing store with
  | nil => rfl
  | cons r rest ih =>
    rw [script, Operation.runAll_append, runAll_operations, ih, applyAll_cons]
    rfl

/-- Whether a property holds of the operation that a rule wraps, if it wraps one. -/
def Wraps (p : Operation → Prop) : Rule → Prop
  | coerce c name => p (.coerce c name)
  | set name value => p (.set name value)
  | rename source target => p (.rename source target)
  | _ => True

/-- Beyond the operations that they wrap, rules coerce to lists of integers and set what they make
themselves. -/
theorem forall_operations {p : Operation → Prop}
    (plain : Plain fun name value => p (.set name value))
    (integers : ∀ name, p (.coerce (.listOf .integers) name)) (wraps : r.Wraps p) :
    ∀ operation ∈ r.operations node store, p operation := by
  cases r with
  | coerce c name => exact List.forall_mem_singleton.mpr wraps
  | mask name =>
    simp only [operations]
    split
    · exact List.forall_mem_singleton.mpr (plain.ints name [])
    · exact List.forall_mem_singleton.mpr (integers name)
  | shape name =>
    simp only [operations]
    split
    · split
      · exact List.forall_mem_singleton.mpr (plain.ints name _)
      · exact List.forall_mem_nil _
    · exact List.forall_mem_singleton.mpr (integers name)
  | elementType source target required =>
    simp only [operations]
    split
    · exact List.forall_mem_singleton.mpr (plain.text target _)
    · exact List.forall_mem_nil _
  | rename source target => exact List.forall_mem_singleton.mpr wraps
  | set name value => exact List.forall_mem_singleton.mpr wraps
  | flagUnusedOutput name =>
    simp only [operations]
    split
    · exact List.forall_mem_singleton.mpr (plain.int name 1)
    · exact List.forall_mem_nil _
  | perDimension name =>
    simp only [operations]
    split
    · exact List.forall_mem_singleton.mpr (plain.ints name _)
    · exact List.forall_mem_nil _
  | fullRank source target leading =>
    simp only [operations]
    split
    · exact List.forall_mem_singleton.mpr (plain.ints target _)
    · exact List.forall_mem_nil _
  | pads first last target dimensions =>
    simp only [operations]
    split
    · split
      · exact List.forall_mem_cons.mpr ⟨plain.ints target _,
          List.forall_mem_singleton.mpr (plain.ints dimensions _)⟩
      · exact List.forall_mem_nil _
    · exact List.forall_mem_nil _

theorem forall_script {p : Operation → Prop} (plain : Plain fun name value => p (.set name value))
    (integers : ∀ name, p (.coerce (.listOf .integers) name)) (wraps : ∀ r ∈ rules, r.Wraps p) :
    ∀ operation ∈ script node rules store, p operation := by
  induction rules generalizing store with
  | nil => exact List.forall_mem_nil _
  | cons r rest ih =>
    intro operation member
    rcases List.mem_append.mp member with own | later
    · exact forall_operations plain integers (wraps r List.mem_cons_self) operation own
    · exact ih (fun other inside => wraps other (List.mem_cons_of_mem r inside)) operation later

end Rule

end Extender

end OperatorGraph
