import OperatorGraph.Extender.Builtin
import OperatorGraph.Proofs.ElementType
import OperatorGraph.Proofs.Extender.Frame

/-!
Rules a second time. What a rule gives, it leaves as it is, and it meets the same faults again. A
list of rules inherits this if none of them writes what an earlier one has touched.
-/

namespace OperatorGraph

namespace Extender

open Attribute (Coercion Fault ListForm Store Value)

/-- Whether a step that gave an outcome leaves it as it is, with the same faults. -/
structure Outcome.SettledBy (o : Outcome) (step : Store → Outcome) : Prop where
  attributes : (step o.attributes).attributes = o.attributes
  faults : (step o.attributes).faults = o.faults

namespace Outcome

theorem settledBy_unchanged {step : Store → Outcome} {store : Store}
    (h : (step store).attributes = store) : (step store).SettledBy step :=
  ⟨by rw [h, h], by rw [h]⟩

/-- A coercion that gives the value back changes nothing. -/
theorem coerce_fixed {c : Coercion} {name : String} {store : Store} {value : Value}
    (h : store.get? name = some value) (fixed : c.apply name value = .ok value) :
    coerce c name store = { attributes := store } := by
  rw [coerce_ok h fixed, NameMap.insert_get? h]

theorem coerce_settled (c : Coercion) (name : String) (store : Store) :
    (coerce c name store).SettledBy (coerce c name) := by
  rcases coerce_cases c name store with ⟨_, eq⟩ | ⟨_, _, _, _, eq⟩ | ⟨value, coerced, _, ok, eq⟩
  · exact settledBy_unchanged (by rw [eq])
  · exact settledBy_unchanged (by rw [eq])
  · have held : (store.insert name coerced).get? name = some coerced := by
      rw [NameMap.get?_insert, if_pos rfl]
    have again := coerce_fixed held (Coercion.apply_apply ok)
    rw [eq]
    exact ⟨by rw [again], by rw [again]⟩

end Outcome

namespace Rule

variable {node : Node}

/-- Whether a rule that puts together a new list leaves the lists alone that it is made from. -/
def keepsSources : Rule → Bool
  | fullRank source target _ => source ≠ target
  | pads first last target dimensions =>
    [target, dimensions].all fun written => written ≠ first ∧ written ≠ last
  | _ => true

/-- A coercion to a list changes nothing or leaves a list. -/
theorem coerce_list_cases (form : ListForm) (name : String) (store : Store) :
    (Outcome.coerce (.listOf form) name store).attributes = store ∨
      ∃ es, (Outcome.coerce (.listOf form) name store).attributes.get? name = some (.list es) := by
  rcases Outcome.coerce_cases (.listOf form) name store with
    ⟨_, eq⟩ | ⟨_, _, _, _, eq⟩ | ⟨value, coerced, _, ok, eq⟩
  · exact .inl (by rw [eq])
  · exact .inl (by rw [eq])
  · obtain ⟨_, out, _, _, rfl⟩ := Coercion.toListOf_eq_ok_iff.mp ok
    exact .inr ⟨out, by rw [eq, NameMap.get?_insert, if_pos rfl]⟩

/-- A step that does as a coercion to a list does, on the given store and wherever there is a list,
is settled as the coercion is. -/
theorem settledBy_of_coerce {form : ListForm} {name : String} {step : Store → Outcome}
    {store : Store}
    (here : step store = .coerce (.listOf form) name store)
    (lists : ∀ {s : Store} {es}, s.get? name = some (.list es) →
      step s = .coerce (.listOf form) name s) : (step store).SettledBy step := by
  have settled := Outcome.coerce_settled (.listOf form) name store
  rcases coerce_list_cases form name store with unchanged | ⟨es, list⟩
  · exact Outcome.settledBy_unchanged (by rw [here, unchanged])
  · rw [here]
    exact ⟨by rw [lists list, settled.attributes], by rw [lists list, settled.faults]⟩

/-- A step that replaces an attribute by integers is settled if it coerces lists to integers. -/
theorem settledBy_of_ints {name : String} {step : Store → Outcome} {store : Store} (ns : List Int64)
    (here : step store = { attributes := store.insert name (.ints ns) })
    (lists : ∀ {s : Store} {es}, s.get? name = some (.list es) →
      step s = .coerce (.listOf .integers) name s) : (step store).SettledBy step := by
  have held : (store.insert name (.ints ns)).get? name = some (.list (ns.map .int)) := by
    rw [NameMap.get?_insert, if_pos rfl]
    rfl
  have again := Outcome.coerce_fixed (c := .listOf .integers) held
    (Coercion.toListOf_ints name ns)
  rw [here]
  exact ⟨by rw [lists held, again], by rw [lists held, again]⟩

theorem applyMask_settled (name : String) (store : Store) :
    (applyMask name store).SettledBy (applyMask name) := by
  have lists : ∀ {s : Store} {es}, s.get? name = some (.list es) →
      applyMask name s = .coerce (.listOf .integers) name s := fun h => by
    simp [applyMask_eq, h, isBlank]
  by_cases blank : isBlank (store.get? name) = true
  · exact settledBy_of_ints [] (by rw [applyMask_eq, if_pos blank]; rfl) lists
  · exact settledBy_of_coerce (by rw [applyMask_eq, if_neg blank]) lists

theorem applyShape_settled (name : String) (store : Store) :
    (applyShape name store).SettledBy (applyShape name) := by
  have lists : ∀ {s : Store} {es}, s.get? name = some (.list es) →
      applyShape name s = .coerce (.listOf .integers) name s := fun h => by
    simp only [applyShape, h]
  by_cases text : ∃ s, store.get? name = some (.scalar (.text s))
  · obtain ⟨s, held⟩ := text
    cases dimensions : (Text.items s.toList).mapM dimension? with
    | none =>
      exact Outcome.settledBy_unchanged
        (by simp only [applyShape, held, dimensions, Outcome.ofChange])
    | some ns =>
      exact settledBy_of_ints ns
        (by simp only [applyShape, held, dimensions, Outcome.ofChange]) lists
  · refine settledBy_of_coerce ?_ lists
    unfold applyShape
    split
    · rename_i s held
      exact absurd ⟨s, held⟩ text
    · rfl

/-- A name that was written once is written again as it stands, also where it took the place of what
it was made from. -/
theorem nameElementType_again {source target : String} {required : Bool} {store changed : Store}
    (done : store.nameElementType source target required = .ok changed) :
    changed.nameElementType source target required = .ok changed := by
  rcases nameElementType_cases done with rfl | ⟨name, t, held, named, rfl⟩
  · exact done
  · have written : (store.insert target (.text t.name)).get? target = some (.text t.name) := by
      rw [NameMap.get?_insert, if_pos rfl]
    by_cases same : source = target
    · subst same
      rw [nameElementType_ok written (ElementType.ofName?_name t), NameMap.insert_get? written]
    · have kept : (store.insert target (.text t.name)).get? source = some (.text name) := by
        rw [NameMap.get?_insert, if_neg same, held]
      rw [nameElementType_ok kept named, NameMap.insert_get? written]

theorem elementType_settled (source target : String) (required : Bool) (store : Store) :
    (apply node (.elementType source target required) store).SettledBy
      (apply node (.elementType source target required)) := by
  cases change : store.nameElementType source target required with
  | error fault =>
    exact Outcome.settledBy_unchanged (by simp only [apply, change, Outcome.ofChange])
  | ok changed =>
    have again := nameElementType_again change
    constructor
    · simp only [apply, change, Outcome.ofChange, again]
    · simp only [apply, change, Outcome.ofChange, again]

theorem rename_rename (store : Store) (source target : String) :
    (store.rename source target).rename source target = store.rename source target := by
  cases held : store.get? source with
  | none =>
    have unchanged : store.rename source target = store := by simp only [Store.rename, held]
    rw [unchanged, unchanged]
  | some value =>
    have moved : store.rename source target = (store.erase source).insert target value := by
      simp only [Store.rename, held]
    rw [moved]
    by_cases same : source = target
    · subst same
      simp only [Store.rename, NameMap.insert_erase, NameMap.insert_insert, NameMap.get?_insert,
        if_true]
    · have gone : ((store.erase source).insert target value).get? source = none := by
        rw [NameMap.get?_insert, if_neg same, NameMap.get?_erase, if_pos rfl]
      simp only [Store.rename, gone]

theorem applyPerDimension_cases (name : String) (store : Store) :
    (applyPerDimension name store).attributes = store ∨
      ∃ n, applyPerDimension name store =
        { attributes := store.insert name (.ints [1, 1, n, n]) } := by
  unfold applyPerDimension
  split
  · exact .inl rfl
  · exact .inl rfl
  · split
    · rename_i n _
      exact .inr ⟨n, rfl⟩
    · exact .inl rfl

theorem applyPerDimension_settled (name : String) (store : Store) :
    (applyPerDimension name store).SettledBy (applyPerDimension name) := by
  rcases applyPerDimension_cases name store with unchanged | ⟨n, eq⟩
  · exact Outcome.settledBy_unchanged unchanged
  · have listed : (store.insert name (.ints [1, 1, n, n])).get? name =
        some (.list ([1, 1, n, n].map .int)) := by
      rw [NameMap.get?_insert, if_pos rfl]
      rfl
    have again : applyPerDimension name (store.insert name (.ints [1, 1, n, n])) =
        { attributes := store.insert name (.ints [1, 1, n, n]) } := by
      simp only [applyPerDimension, listed]
    rw [eq]
    exact ⟨by rw [again], by rw [again]⟩

theorem ints?_insert {name other : String} (store : Store) (value : Value) (h : other ≠ name) :
    Store.ints? (store.insert name value) other = store.ints? other := by
  simp only [Store.ints?, NameMap.get?_insert, if_neg h]

theorem applyFullRank_fixed {source target : String} (apart : source ≠ target) (leading : List Int64)
    (store : Store) :
    applyFullRank source target leading (applyFullRank source target leading store) =
      applyFullRank source target leading store := by
  cases read : store.ints? source with
  | none =>
    have unchanged : applyFullRank source target leading store = store := by
      simp only [applyFullRank, read]
    rw [unchanged, unchanged]
  | some ns =>
    have written : applyFullRank source target leading store =
        store.insert target (.ints (leading ++ ns)) := by simp only [applyFullRank, read]
    have kept := (ints?_insert store (.ints (leading ++ ns)) apart).trans read
    rw [written]
    simp only [applyFullRank, kept]
    exact NameMap.insert_get? (by rw [NameMap.get?_insert, if_pos rfl])

theorem applyPads_settled {first last target dimensions : String}
    (first_apart : target ≠ first ∧ dimensions ≠ first)
    (last_apart : target ≠ last ∧ dimensions ≠ last) (store : Store) :
    (applyPads first last target dimensions store).SettledBy
      (applyPads first last target dimensions) := by
  cases begins : store.ints? first with
  | none => exact Outcome.settledBy_unchanged (by simp only [applyPads, begins])
  | some bs =>
    cases ends : store.ints? last with
    | none => exact Outcome.settledBy_unchanged (by simp only [applyPads, begins, ends])
    | some es =>
      by_cases equal : bs.length = es.length
      · generalize padding_is : Value.ints ([0, 0, 0, 0] ++ interleave bs es) = padding
        generalize spatial_is : Value.ints (spatialDimensions bs.length) = spatial
        have step : ∀ s : Store, s.ints? first = some bs → s.ints? last = some es →
            applyPads first last target dimensions s =
              { attributes := (s.insert target padding).insert dimensions spatial } := by
          intro s begins ends
          simp only [applyPads, begins, ends, if_pos equal, Outcome.ofChange, padding_is, spatial_is]
        have again := step ((store.insert target padding).insert dimensions spatial)
          (by rw [ints?_insert _ _ first_apart.2.symm, ints?_insert _ _ first_apart.1.symm, begins])
          (by rw [ints?_insert _ _ last_apart.2.symm, ints?_insert _ _ last_apart.1.symm, ends])
        have fixed : (((store.insert target padding).insert dimensions spatial).insert target
            padding).insert dimensions spatial =
              (store.insert target padding).insert dimensions spatial := by
          apply NameMap.ext_get?
          intro other
          simp only [NameMap.get?_insert]
          split
          · rfl
          · split <;> rfl
        rw [step store begins ends]
        exact ⟨by rw [again, fixed], by rw [again]⟩
      · exact Outcome.settledBy_unchanged
          (by simp only [applyPads, begins, ends, if_neg equal, Outcome.ofChange])

theorem insert_settled (name : String) (value : Value) (store : Store) :
    (store.insert name value).insert name value = store.insert name value :=
  NameMap.insert_get? (by rw [NameMap.get?_insert, if_pos rfl])

/-- What a rule gives, it leaves as it is. -/
theorem apply_settled (node : Node) (r : Rule) (keeps : r.keepsSources) (store : Store) :
    (r.apply node store).SettledBy (r.apply node) := by
  cases r with
  | coerce c name => exact Outcome.coerce_settled c name store
  | mask name => exact applyMask_settled name store
  | shape name => exact applyShape_settled name store
  | elementType source target required => exact elementType_settled source target required store
  | rename source target => exact ⟨rename_rename store source target, rfl⟩
  | set name value => exact ⟨insert_settled name value store, rfl⟩
  | flagUnusedOutput name =>
    by_cases unused : node.outputs.head? = some ""
    · have step (s : Store) : apply node (flagUnusedOutput name) s =
          { attributes := s.insert name (.int 1) } := if_pos unused
      rw [step]
      exact ⟨by rw [step, insert_settled], by rw [step]⟩
    · have step (s : Store) : apply node (flagUnusedOutput name) s = { attributes := s } :=
        if_neg unused
      rw [step]
      exact ⟨by rw [step], by rw [step]⟩
  | perDimension name => exact applyPerDimension_settled name store
  | fullRank source target leading =>
    exact ⟨applyFullRank_fixed (by simpa [keepsSources] using keeps) leading store, rfl⟩
  | pads first last target dimensions =>
    simp only [keepsSources, List.all_cons, List.all_nil, Bool.and_true, Bool.and_eq_true,
      decide_eq_true_eq] at keeps
    exact applyPads_settled ⟨keeps.1.1, keeps.2.1⟩ ⟨keeps.1.2, keeps.2.2⟩ store

theorem applyAll_cons (node : Node) (r : Rule) (rules : List Rule) (store : Store) :
    applyAll node (r :: rules) store = (r.apply node store).andThen (applyAll node rules) := by
  have from_outcome : ∀ (rules : List Rule) (o : Outcome),
      rules.foldl (fun o rule => o.andThen (rule.apply node)) o =
        o.andThen (applyAll node rules) := by
    intro rules
    induction rules with
    | nil =>
      intro o
      simp [applyAll, Outcome.andThen]
    | cons first rest ih =>
      intro o
      have rest_eq : applyAll node (first :: rest) =
          fun s => (first.apply node s).andThen (applyAll node rest) := by
        funext s
        rw [applyAll, List.foldl_cons, ih]
        simp [Outcome.andThen]
      rw [List.foldl_cons, ih, rest_eq]
      simp [Outcome.andThen]
  rw [applyAll, List.foldl_cons, from_outcome]
  simp [Outcome.andThen]

theorem applyAll_append (node : Node) (rules later : List Rule) (store : Store) :
    applyAll node (rules ++ later) store =
      (applyAll node rules store).andThen (applyAll node later) := by
  induction rules generalizing store with
  | nil => simp [applyAll, Outcome.andThen]
  | cons r rest ih =>
    have rest_eq : applyAll node (rest ++ later) =
        fun s => (applyAll node rest s).andThen (applyAll node later) := funext ih
    rw [List.cons_append, applyAll_cons, applyAll_cons, rest_eq]
    simp [Outcome.andThen]

theorem applyAll_frame {rules : List Rule} (store : Store) {name : String}
    (h : ∀ r ∈ rules, name ∉ r.writes) :
    (applyAll node rules store).attributes.get? name = store.get? name := by
  induction rules generalizing store with
  | nil => rfl
  | cons r rest ih =>
    rw [applyAll_cons]
    exact (ih _ fun later member => h later (List.mem_cons_of_mem r member)).trans
      (apply_frame r store (h r List.mem_cons_self))

/-- No rule overwrites what it is made from or what an earlier one has touched. -/
def Undisturbed (rules : List Rule) : Prop :=
  (∀ r ∈ rules, r.keepsSources) ∧
    rules.Pairwise fun r later => ∀ name ∈ later.writes, name ∉ r.names

instance (rules : List Rule) : Decidable (Undisturbed rules) :=
  inferInstanceAs (Decidable (_ ∧ _))

/-- A rule that is settled stays so where its attributes are kept. -/
theorem settled_of_agree {r : Rule} {a b : Store} {faults : List Fault}
    (settled : (r.apply node a).attributes = a ∧ (r.apply node a).faults = faults)
    (h : AgreeOn r.names a b) :
    (r.apply node b).attributes = b ∧ (r.apply node b).faults = faults := by
  have agree : OutcomesAgree r.names (r.apply node a) (r.apply node b) :=
    apply_agree r h (fun name member => List.mem_append_left _ member) Iff.rfl
  refine ⟨NameMap.ext_get? fun name => ?_, agree.faults.symm.trans settled.2⟩
  by_cases touched : name ∈ r.writes
  · have member : name ∈ r.names := List.mem_append_right _ touched
    rw [← agree.attributes name member, settled.1, h name member]
  · exact apply_frame r b touched

/-- What undisturbed rules give, they leave as it is. -/
theorem applyAll_settled (node : Node) {rules : List Rule} (h : Undisturbed rules) (store : Store) :
    (applyAll node rules store).SettledBy (applyAll node rules) := by
  induction rules generalizing store with
  | nil => exact ⟨rfl, rfl⟩
  | cons r rest ih =>
    obtain ⟨keeps, apart⟩ := h
    obtain ⟨first_apart, rest_apart⟩ := List.pairwise_cons.mp apart
    have rest_settled := ih ⟨fun later member => keeps later (List.mem_cons_of_mem r member),
      rest_apart⟩ (r.apply node store).attributes
    have first_settled := apply_settled node r (keeps r List.mem_cons_self) store
    have kept : AgreeOn r.names (r.apply node store).attributes
        (applyAll node rest (r.apply node store).attributes).attributes := by
      intro name touched
      exact (applyAll_frame _ fun later member written =>
        first_apart later member name written touched).symm
    obtain ⟨attributes, faults⟩ :=
      settled_of_agree ⟨first_settled.attributes, first_settled.faults⟩ kept
    rw [applyAll_cons]
    constructor
    · rw [applyAll_cons]
      simp only [Outcome.andThen, attributes, rest_settled.attributes]
    · rw [applyAll_cons]
      simp only [Outcome.andThen, attributes, faults, rest_settled.faults]

end Rule

/-- Whether an extender, given what it made of a node, makes the same of it again. -/
def Idempotent (e : Extender) : Prop :=
  ∀ node, (e.extend node).SettledBy fun store => e.extend { node with attributes := store }

theorem Rule.apply_attributes (node : Node) (store : Store) :
    Rule.apply { node with attributes := store } = Rule.apply node := by
  funext r s
  cases r <;> rfl

theorem Ruleset.extender_idempotent {s : Ruleset} (h : Rule.Undisturbed s.rules) :
    s.extender.Idempotent := by
  intro node
  have same_steps (store : Store) : Rule.applyAll { node with attributes := store } s.rules =
      Rule.applyAll node s.rules := by
    funext before
    simp only [Rule.applyAll, Rule.apply_attributes]
  have settled := Rule.applyAll_settled node h node.attributes
  constructor
  · simpa only [extender, same_steps] using settled.attributes
  · simpa only [extender, same_steps] using settled.faults

/-- Whether a rule that sets an attribute sets it to an integer or a list of integers. -/
def Rule.setsIntegers : Rule → Bool
  | .set _ (.scalar (.int _)) => true
  | .set _ (.list elements) => elements.all fun e => e.int?.isSome
  | .set _ _ => false
  | _ => true

/-- Built-in rules are undisturbed and set nothing but integers. -/
theorem builtinRules_undisturbed : ∀ s ∈ builtinRules,
    Rule.Undisturbed s.rules ∧ s.rules.all Rule.setsIntegers := by
  decide +kernel

theorem builtins_idempotent : ∀ e ∈ builtins, e.Idempotent := by
  intro e member
  obtain ⟨s, listed, rfl⟩ := mem_builtins_iff.mp member
  exact s.extender_idempotent (builtinRules_undisturbed s listed).1

end Extender

end OperatorGraph
