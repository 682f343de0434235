import OperatorGraph.Proofs.Extender.Documented
import OperatorGraph.Proofs.Extender.Operations

/-!
Which values survive, that is, can be written as attributes and are read back from these as they
are. Main statement: all survive that a built-in extender sets, or coerces without a fault.
-/

namespace OperatorGraph

namespace Attribute

/-- Whether a value can be written under a name and is read back as it is. -/
def Value.Survives (name : String) (value : Value) : Prop :=
  ∃ a, value.toMessage name = .ok a ∧ Value.ofMessage a = .ok value

theorem Settles.survives {name : String} {a : Onnx.Attribute} {value : Value}
    (h : Settles name a value) : value.Survives name :=
  ⟨a, h.written, h.read⟩

theorem survives_int (name : String) (n : Int64) : (Value.int n).Survives name :=
  (Scalar.settles name (.int n)).survives

theorem survives_text (name s : String) : (Value.text s).Survives name :=
  (Scalar.settles name (.text s)).survives

theorem survives_list {form : ListForm} {elements : List Scalar} (h : ∀ e ∈ elements, form.Holds e)
    (name : String) : (Value.list elements).Survives name := by
  obtain ⟨kept, a, written, _⟩ := list_portable h name
  have settles := list_settles written
  rw [kept] at settles
  exact settles.survives

theorem survives_ints (name : String) (ns : List Int64) : (Value.ints ns).Survives name := by
  have integers : ∀ e ∈ ns.map Scalar.int, ListForm.integers.Holds e := by
    intro e member
    obtain ⟨n, _, rfl⟩ := List.mem_map.mp member
    trivial
  exact survives_list integers name

/-- What a coercion gives survives, whatever it was before, unless it was only put in a list. -/
theorem Coercion.apply_survives {c : Coercion} (converts : c ≠ .list) {name : String}
    {value coerced : Value} (ok : c.apply name value = .ok coerced) : coerced.Survives name := by
  cases c with
  | list => exact absurd rfl converts
  | integer =>
    obtain ⟨n, rfl⟩ := toInteger_eq_ok ok
    exact survives_int name n
  | listOf form =>
    obtain ⟨_, out, _, read, rfl⟩ := toListOf_eq_ok_iff.mp ok
    exact survives_list (fun e member => (ListForm.reads_of_readAll read e member).holds) name

/-- Whether there are values under names and all of them survive. -/
def Surviving (names : List String) (store : Store) : Prop :=
  ∀ name ∈ names, ∃ value, store.get? name = some value ∧ value.Survives name

theorem surviving_nil (store : Store) : Surviving [] store := List.forall_mem_nil _

theorem Surviving.insert {names : List String} {store : Store} (h : Surviving names store)
    {name : String} {value : Value} (survives : value.Survives name) :
    Surviving (names ++ [name]) (store.insert name value) := by
  intro other member
  rw [NameMap.get?_insert]
  split
  · rename_i same
    exact ⟨value, rfl, same ▸ survives⟩
  · rename_i apart
    rcases List.mem_append.mp member with earlier | last
    · exact h other earlier
    · exact absurd (List.mem_singleton.mp last) apart

namespace Operation

/-- The names under which an operation puts a value that it sets, or that it has coerced. -/
def gives (store : Store) : Operation → List String
  | set name _ => [name]
  | coerce c name =>
    if store.contains name ∧ ((coerce c name).run store).2 = .coerced none then [name] else []
  | remove _ | rename _ _ => []

/-- The names between which an operation moves a value, or under which it removes one. -/
def moves : Operation → List String
  | rename source target => [source, target]
  | remove name => [name]
  | set _ _ | coerce _ _ => []

/-- Whether all that an operation can give survives, and it takes nothing away. -/
def Expresses : Operation → Prop
  | set name value => value.Survives name
  | coerce c _ => c ≠ .list
  | remove _ | rename _ _ => False

/-- The names that are given values by operations, each of which finds what those before it left. -/
def givenBy : List Operation → Store → List String
  | [], _ => []
  | operation :: rest, store => operation.gives store ++ givenBy rest (operation.run store).1

variable {operation : Operation} {operations : List Operation} {store : Store} {name : String}

/-- A coercion gives nothing and changes nothing, or it gives the coerced value. -/
theorem coerce_cases (c : Coercion) (name : String) (store : Store) :
    ((coerce c name).gives store = [] ∧ ((coerce c name).run store).1 = store) ∨
      ∃ value coerced, (coerce c name).gives store = [name] ∧ c.apply name value = .ok coerced ∧
        ((coerce c name).run store).1 = store.insert name coerced := by
  rcases run_coerce_cases c name store with ⟨held, eq⟩ | ⟨value, fault, held, _, eq⟩ |
    ⟨value, coerced, held, ok, eq⟩
  · simp [gives, eq, NameMap.contains, held]
  · simp [gives, eq]
  · exact .inr ⟨value, coerced, by simp [gives, eq, NameMap.contains, held], ok, by rw [eq]⟩

/-- One operation keeps what has survived so far, and what it gives survives too. -/
theorem surviving_run (expresses : operation.Expresses) {names : List String}
    (before : Surviving names store) :
    Surviving (names ++ operation.gives store) (operation.run store).1 := by
  cases operation with
  | set name value => exact before.insert expresses
  | coerce c name =>
    rcases coerce_cases c name store with ⟨nothing, same⟩ | ⟨value, coerced, given, ok, changed⟩
    · rw [nothing, same, List.append_nil]
      exact before
    · rw [given, changed]
      exact before.insert (Coercion.apply_survives expresses ok)
  | remove name => exact expresses.elim
  | rename source target => exact expresses.elim

theorem surviving_runAll (expresses : ∀ operation ∈ operations, operation.Expresses)
    {names : List String} (before : Surviving names store) :
    Surviving (names ++ givenBy operations store) (runAll operations store) := by
  induction operations generalizing names store with
  | nil =>
    rw [givenBy, List.append_nil]
    exact before
  | cons operation rest ih =>
    have step := surviving_run (expresses operation List.mem_cons_self) before
    rw [givenBy, ← List.append_assoc]
    exact ih (fun later member => expresses later (List.mem_cons_of_mem operation member)) step

/-- An operation changes nothing but what it gives and what it moves. -/
theorem run_frame (ungiven : name ∉ operation.gives store) (unmoved : name ∉ operation.moves) :
    (operation.run store).1.get? name = store.get? name := by
  cases operation with
  | set target value =>
    have apart : name ≠ target := by simpa [gives] using ungiven
    simp only [run, NameMap.get?_insert, if_neg apart]
  | remove target =>
    have apart : name ≠ target := by simpa [moves] using unmoved
    simp only [run, NameMap.get?_erase, if_neg apart]
  | rename source target =>
    simp only [moves, List.mem_cons, List.not_mem_nil, or_false, not_or] at unmoved
    simp only [run, Store.rename]
    split
    · rfl
    · rw [NameMap.get?_insert, if_neg unmoved.2, NameMap.get?_erase, if_neg unmoved.1]
  | coerce c target =>
    rcases coerce_cases c target store with ⟨_, same⟩ | ⟨value, coerced, given, _, changed⟩
    · rw [same]
    · have apart : name ≠ target := by simpa [given] using ungiven
      rw [changed, NameMap.get?_insert, if_neg apart]

theorem runAll_frame (ungiven : name ∉ givenBy operations store)
    (unmoved : ∀ operation ∈ operations, name ∉ operation.moves) :
    (runAll operations store).get? name = store.get? name := by
  induction operations generalizing store with
  | nil => rfl
  | cons operation rest ih =>
    rw [givenBy, List.mem_append, not_or] at ungiven
    calc (runAll rest (operation.run store).1).get? name
        = (operation.run store).1.get? name :=
          ih ungiven.2 fun later member => unmoved later (List.mem_cons_of_mem operation member)
      _ = store.get? name := run_frame ungiven.1 (unmoved operation List.mem_cons_self)

end Operation

end Attribute

namespace Extender

open Attribute

namespace Rule

variable {node : Node} {store : Store} {r : Rule} {rules : List Rule} {name : String}

/-- Whether all that a rule gives survives, and it moves nothing. -/
def expresses : Rule → Bool
  | coerce .list _ | rename _ _ => false
  | r => r.setsIntegers

/-- Whether all that rules give survives, and they move values only as long as none is given. -/
def movesFirst : List Rule → Bool
  | rename _ _ :: rest => movesFirst rest
  | rules => rules.all expresses

theorem plain_survives : Plain fun name value => value.Survives name :=
  ⟨survives_int, survives_ints, survives_text⟩

theorem wraps_expresses (h : r.expresses) : r.Wraps Operation.Expresses := by
  cases r with
  | coerce c name =>
    cases c with
    | list => cases h
    | _ => exact Coercion.noConfusion
  | rename source target => cases h
  | set name value => exact plain_survives.of_setsIntegers h
  | _ => trivial

/-- All that rules give is there after them and survives. -/
theorem surviving_script (node : Node) (h : movesFirst rules) (store : Store) :
    Surviving (Operation.givenBy (script node rules store) store)
      (applyAll node rules store).attributes := by
  rw [← runAll_script]
  fun_induction movesFirst rules generalizing store with
  | case1 source target rest ih =>
    -- a rename gives nothing, and before it nothing has been given that it could move
    exact ih h (store.rename source target)
  | case2 rules =>
    refine Operation.surviving_runAll ?_ (surviving_nil store)
    exact forall_script plain_survives (fun name => Coercion.noConfusion) fun r member =>
      wraps_expresses (List.all_eq_true.mp h r member)

/-- The names between which a rule moves a value. -/
def moves : Rule → List String
  | rename source target => [source, target]
  | _ => []

/-- Rules leave all that they neither give nor move. -/
theorem applyAll_ungiven (unmoved : ∀ r ∈ rules, name ∉ r.moves)
    (ungiven : name ∉ Operation.givenBy (script node rules store) store) :
    (applyAll node rules store).attributes.get? name = store.get? name := by
  have plain : Plain fun other value => name ∉ (Operation.set other value).moves :=
    ⟨fun _ _ => List.not_mem_nil, fun _ _ => List.not_mem_nil, fun _ _ => List.not_mem_nil⟩
  rw [← runAll_script]
  refine Operation.runAll_frame ungiven ?_
  refine forall_script plain (fun _ => List.not_mem_nil) fun r member => ?_
  cases r with
  | rename source target => exact unmoved _ member
  | coerce c other => exact List.not_mem_nil
  | set other value => exact List.not_mem_nil
  | _ => trivial

end Rule

/-- The rules of the built-in extender for an operator type. -/
def rulesOf (opType : String) : List Rule :=
  ((builtinRules.find? fun s => s.opType = opType).map Ruleset.rules).getD []

/-- What a built-in extender does with the attributes of a node. -/
def operations (e : Extender) (node : Node) : List Operation :=
  Rule.script node (rulesOf e.opType) node.attributes

theorem rulesOf_opType : ∀ s ∈ builtinRules, rulesOf s.opType = s.rules := by
  decide +kernel

theorem builtinRules_moveFirst : ∀ s ∈ builtinRules, Rule.movesFirst s.rules ∧
    ∀ r ∈ s.rules, ∀ name ∈ r.moves, s.opType = "Pad" ∧ name ∈ ["pad_mode", "mode"] := by
  decide +kernel

/-- What built-in extenders do comes down to operations. Each attribute that one of these sets, or
coerces without a fault, is there in the end and can be written and read back as it is; every other
one is as before, but for the two between which paddings move their mode. -/
theorem builtins_survive {e : Extender} (member : e ∈ builtins) (node : Node) :
    let after := (e.extend node).attributes
    let given := Operation.givenBy (e.operations node) node.attributes
    after = Operation.runAll (e.operations node) node.attributes ∧
      (∀ name ∈ given, ∃ value, after.get? name = some value ∧ value.Survives name) ∧
      ∀ name, name ∉ given → after.get? name = node.attributes.get? name ∨
        e.opType = "Pad" ∧ name ∈ ["pad_mode", "mode"] := by
  intro after given
  obtain ⟨s, listed, rfl⟩ := mem_builtins_iff.mp member
  obtain ⟨first, moved⟩ := builtinRules_moveFirst s listed
  have script : s.extender.operations node = Rule.script node s.rules node.attributes :=
    congrArg (Rule.script node · node.attributes) (rulesOf_opType s listed)
  simp only [given, script]
  refine ⟨(Rule.runAll_script node s.rules _).symm, Rule.surviving_script node first _,
    fun name ungiven => ?_⟩
  by_cases moving : ∃ r ∈ s.rules, name ∈ r.moves
  · obtain ⟨r, inside, moves⟩ := moving
    exact .inr (moved r inside name moves)
  · exact .inl (Rule.applyAll_ungiven (fun r inside moves => moving ⟨r, inside, moves⟩) ungiven)

/-- Variances in double precision, as an integer and as text, and a flag that stays what it was. -/
theorem builtins_survive_priorBox :
    let node : Node :=
      { opType := "PriorBox"
        attributes := .ofList
          [("variance", .list [.float (.ofBits 0x3FB999999999999A), .int 1, .text "0.5, 2"]),
            ("min_size", .text "1,x"), ("clip", .scalar (.bool true))] }
    let after := (priorBox.extender.extend node).attributes
    priorBox.extender ∈ builtins ∧
      "variance" ∈ Operation.givenBy (priorBox.extender.operations node) node.attributes ∧
      (∃ value, after.get? "variance" = some value ∧ value.Survives "variance") ∧
      after.get? "min_size" = some (.text "1,x") ∧
      after.get? "clip" = some (.scalar (.bool true)) := by
  intro node after
  have member : priorBox.extender ∈ builtins :=
    priorBox.extender_mem_builtins (by simp [builtinRules])
  obtain ⟨_, survives, kept⟩ := builtins_survive member node
  have given : Operation.givenBy (priorBox.extender.operations node) node.attributes =
      ["variance"] := by
    decide +kernel
  have own {name : String} (apart : name ≠ "variance") :
      after.get? name = node.attributes.get? name := by
    rcases kept name (by simpa [given] using apart) with same | ⟨pads, _⟩
    · exact same
    · exact absurd pads (by decide)
  have read :
      "variance" ∈ Operation.givenBy (priorBox.extender.operations node) node.attributes := by
    rw [given]
    exact List.mem_singleton_self _
  exact ⟨member, read, survives "variance" read, own (by decide), own (by decide)⟩

end Extender

end OperatorGraph
