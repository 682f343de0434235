import OperatorGraph.Proofs.Extender.Idempotence

/-!
One rule among others. If no other rule writes what a rule touches or finds fault with it, a whole
list of rules does to those attributes what the one rule does on its own.
-/

namespace OperatorGraph

namespace Attribute

namespace Fault

/-- The attributes that a fault names. -/
def names : Fault → List String
  | malformed name _ _ | unparseable name _ _ | unknownElementType name _ | missing name => [name]
  | lengthMismatch first second _ _ => [first, second]

/-- Whether a fault says that an attribute is of the wrong kind or holds an element that is. -/
def unreadable (name : String) : Fault → Bool
  | malformed other _ _ | unparseable other _ _ => other = name
  | _ => false

/-- Whether a fault says that an attribute holds no name of an element type. -/
def untyped : Fault → Bool
  | malformed .. | unknownElementType .. => true
  | _ => false

theorem names_of_unreadable {name : String} {fault : Fault} (h : fault.unreadable name = true) :
    fault.names = [name] := by
  cases fault with
  | malformed => simpa [unreadable, names] using h
  | unparseable => simpa [unreadable, names] using h
  | _ => cases h

end Fault

theorem Coercion.unreadable_of_apply {c : Coercion} {name : String} {value : Value} {fault : Fault}
    (error : c.apply name value = .error fault) : fault.unreadable name = true := by
  cases c with
  | list =>
    cases value with
    | payload p =>
      cases error
      simp [Fault.unreadable]
    | _ => cases error
  | integer =>
    simp only [apply, toInteger] at error
    split at error
    · cases error
    · cases error
    · split at error
      · cases error
      · cases error
        simp [Fault.unreadable]
    · cases error
      simp [Fault.unreadable]
  | listOf form =>
    simp only [apply, toListOf] at error
    cases listed : elements name value with
    | error fault' =>
      cases value with
      | payload p =>
        cases listed
        cases error
        simp [Fault.unreadable]
      | _ => cases listed
    | ok es =>
      cases read : form.readAll es with
      | error element =>
        simp only [listed, bind, Except.bind, read] at error
        cases error
        simp [Fault.unreadable]
      | ok out =>
        simp only [listed, bind, Except.bind, read] at error
        cases error

end Attribute

namespace Extender

open Attribute

variable {node : Node} {names : List String}

theorem AgreeOn.symm {a b : Store} (h : AgreeOn names a b) : AgreeOn names b a :=
  fun name member => (h name member).symm

theorem AgreeOn.trans {a b c : Store} (h : AgreeOn names a b) (h' : AgreeOn names b c) :
    AgreeOn names a c :=
  fun name member => (h name member).trans (h' name member)

namespace Rule

/-- The attribute whose value a rule may find fault with. -/
def subject : Rule → Option String
  | coerce _ name | mask name | shape name | perDimension name => some name
  | elementType source _ _ => some source
  | rename _ _ | set _ _ | flagUnusedOutput _ | fullRank _ _ _ | pads _ _ _ _ => none

theorem coerce_faults {c : Coercion} {name : String} {store : Store} {fault : Fault}
    (met : fault ∈ (Outcome.coerce c name store).faults) : fault.unreadable name = true := by
  rcases Outcome.coerce_cases c name store with ⟨_, eq⟩ | ⟨_, _, _, error, eq⟩ | ⟨_, _, _, _, eq⟩
  · simp [eq] at met
  · rw [eq] at met
    cases List.mem_singleton.mp met
    exact Coercion.unreadable_of_apply error
  · simp [eq] at met

theorem ofChange_faults {store : Store} {change : Except Fault Store} {fault : Fault} :
    fault ∈ (Outcome.ofChange store change).faults ↔ change = .error fault := by
  cases change with
  | ok changed => simp [Outcome.ofChange]
  | error other => simp [Outcome.ofChange, eq_comm]

theorem nameElementType_faults {source target : String} {required : Bool} {store : Store}
    {fault : Fault} (error : store.nameElementType source target required = .error fault) :
    fault.names = [source] := by
  unfold Store.nameElementType at error
  split at error
  · split at error
    · cases error
      rfl
    · cases error
  · split at error
    · cases error
    · cases error
      rfl
  · cases error
    rfl

/-- A rule finds fault with its subject, or it finds that two lists have different lengths. -/
theorem apply_faults (r : Rule) {store : Store} {fault : Fault}
    (met : fault ∈ (r.apply node store).faults) :
    (∃ name, r.subject = some name ∧ fault.names = [name]) ∨
      r.subject = none ∧ (∃ first last m n, fault = .lengthMismatch first last m n) ∧
        ∀ name ∈ fault.names, name ∈ r.reads ∧ store.get? name ≠ none := by
  cases r with
  | coerce c name => exact .inl ⟨name, rfl, Fault.names_of_unreadable (coerce_faults met)⟩
  | mask name =>
    simp only [apply, applyMask_eq] at met
    split at met
    · cases met
    · exact .inl ⟨name, rfl, Fault.names_of_unreadable (coerce_faults met)⟩
  | shape name =>
    simp only [apply, applyShape_eq] at met
    split at met
    · split at met
      · cases met
      · cases List.mem_singleton.mp met
        exact .inl ⟨name, rfl, rfl⟩
    · exact .inl ⟨name, rfl, Fault.names_of_unreadable (coerce_faults met)⟩
  | elementType source target required =>
    exact .inl ⟨source, rfl, nameElementType_faults (ofChange_faults.mp met)⟩
  | rename source target => cases met
  | set name value => cases met
  | flagUnusedOutput name =>
    simp only [apply] at met
    split at met
    · cases met
    · cases met
  | perDimension name =>
    simp only [apply, applyPerDimension] at met
    split at met
    · cases met
    · cases met
    · split at met
      · cases met
      · cases List.mem_singleton.mp met
        exact .inl ⟨name, rfl, rfl⟩
  | fullRank source target leading => cases met
  | pads first last target dimensions =>
    simp only [apply, applyPads] at met
    split at met
    · rename_i bs es begins ends
      split at met
      · cases met
      · cases List.mem_singleton.mp met
        refine .inr ⟨rfl, ⟨first, last, _, _, rfl⟩, fun name named => ⟨named, fun absent => ?_⟩⟩
        rcases List.mem_pair.mp named with rfl | rfl
        · simp [Store.ints?, absent] at begins
        · simp [Store.ints?, absent] at ends
    · cases met

/-- Whether a rule leaves some attributes alone and meets none of some faults on certain stores. -/
structure Spares (node : Node) (names : List String) (p : Fault → Bool) (c : Store → Prop)
    (r : Rule) : Prop where
  writes : ∀ name ∈ names, name ∉ r.writes
  faults : ∀ store, c store → ∀ fault ∈ (r.apply node store).faults, p fault = false

variable {p : Fault → Bool} {c : Store → Prop}

theorem Spares.attributes {r : Rule} (h : r.Spares node names p c) (store : Store) :
    AgreeOn names (r.apply node store).attributes store :=
  fun name member => apply_frame r store (h.writes name member)

theorem filter_eq_nil_of_spares {r : Rule} (h : r.Spares node names p c) {store : Store}
    (holds : c store) : (r.apply node store).faults.filter p = [] := by
  refine List.filter_eq_nil_iff.mpr fun fault met => ?_
  simp [h.faults store holds fault met]

/-- Whether a rule writes an attribute that another one touches, or may find fault with it. -/
def disturbs (r o : Rule) : Bool :=
  r.names.any fun name => o.writes.contains name || decide (o.subject = some name)

/-- Whether a rule makes other attributes from an attribute. -/
def derives (name : String) (o : Rule) : Bool := o.subject.isNone && o.reads.contains name

theorem apart_of_disturbs {r o : Rule} (h : r.disturbs o = false) {name : String}
    (touched : name ∈ r.names) : name ∉ o.writes ∧ o.subject ≠ some name := by
  have apart := List.any_eq_false.mp h name touched
  simpa using apart

theorem spares_unreadable (node : Node) {r o : Rule} (h : r.disturbs o = false) {name : String}
    (touched : name ∈ r.names) : o.Spares node r.names (Fault.unreadable name) fun _ => True where
  writes _ member := (apart_of_disturbs h member).1
  faults store _ fault met := by
    rcases o.apply_faults met with ⟨other, subject, names⟩ | ⟨_, ⟨_, _, _, _, rfl⟩, _⟩
    · by_contra unreadable
      have same := Fault.names_of_unreadable (Bool.not_eq_false _ ▸ unreadable)
      cases names.symm.trans same
      exact (apart_of_disturbs h touched).2 subject
    · rfl

/-- An undisturbed attribute is named only if it is there and something is made from it. -/
theorem spares_names (node : Node) {r o : Rule} (h : r.disturbs o = false) {rules : List Rule}
    (member : o ∈ rules) {name : String} (touched : name ∈ r.names) :
    o.Spares node r.names (fun fault => fault.names.contains name)
      fun store => store.get? name = none ∨ ∀ o ∈ rules, o.derives name = false where
  writes _ member := (apart_of_disturbs h member).1
  faults store holds fault met := by
    rcases o.apply_faults met with ⟨other, subject, names⟩ | ⟨subject, _, present⟩
    · have different : name ≠ other := fun same =>
        (apart_of_disturbs h touched).2 (same ▸ subject)
      simpa [names] using different
    · by_contra named
      obtain ⟨reads, held⟩ := present name (by simpa using named)
      rcases holds with absent | none
      · exact held absent
      · simpa [derives, subject, reads] using none o member

variable (stable : ∀ a b, AgreeOn names a b → c a → c b)

include stable

theorem applyAll_spares {rules : List Rule} (h : ∀ r ∈ rules, r.Spares node names p c)
    {store : Store} (holds : c store) :
    AgreeOn names (applyAll node rules store).attributes store ∧
      (applyAll node rules store).faults.filter p = [] := by
  induction rules generalizing store with
  | nil => exact ⟨fun _ _ => rfl, rfl⟩
  | cons r rest ih =>
    have first := h r List.mem_cons_self
    have kept := first.attributes store
    obtain ⟨attributes, faults⟩ := ih (fun later member => h later (List.mem_cons_of_mem r member))
      (stable _ _ kept.symm holds)
    simp only [applyAll_cons, Outcome.andThen, List.filter_append, faults,
      filter_eq_nil_of_spares first holds, List.append_nil, and_true]
    exact attributes.trans kept

/-- Of rules that spare what one of them touches, all but that one may be left out. -/
theorem applyAll_alone {rules : List Rule} {r : Rule} {concerns : Rule → Bool}
    (alone : rules.filter concerns = [r])
    (others : ∀ o ∈ rules, concerns o = false → o.Spares node names p c)
    (touched : ∀ name ∈ r.reads, name ∈ names) (store : Store) (before : c store)
    (after : c (r.apply node store).attributes) :
    AgreeOn names (applyAll node rules store).attributes (r.apply node store).attributes ∧
      (applyAll node rules store).faults.filter p = (r.apply node store).faults.filter p := by
  induction rules generalizing store with
  | nil => cases alone
  | cons first rest ih =>
    have later : ∀ o ∈ rest, concerns o = false → o.Spares node names p c := fun o member =>
      others o (List.mem_cons_of_mem first member)
    by_cases here : concerns first = true
    · rw [List.filter_cons_of_pos here] at alone
      obtain ⟨rfl, none⟩ := List.cons.inj alone
      have spared : ∀ o ∈ rest, o.Spares node names p c := fun o member =>
        later o member (by simpa using List.filter_eq_nil_iff.mp none o member)
      obtain ⟨attributes, faults⟩ := applyAll_spares stable spared after
      simp only [applyAll_cons, Outcome.andThen, List.filter_append, faults, List.append_nil]
      exact ⟨attributes, trivial⟩
    · rw [List.filter_cons_of_neg here] at alone
      have spared := others first List.mem_cons_self (by simpa using here)
      have kept := spared.attributes store
      -- what comes before the rule does not change what the rule sees
      have same : OutcomesAgree names (r.apply node (first.apply node store).attributes)
          (r.apply node store) := apply_agree r kept touched Iff.rfl
      obtain ⟨attributes, faults⟩ := ih alone later _ (stable _ _ kept.symm before)
        (stable _ _ same.attributes.symm after)
      simp only [applyAll_cons, Outcome.andThen, List.filter_append, faults, same.faults,
        filter_eq_nil_of_spares spared before, List.nil_append, and_true]
      exact attributes.trans same.attributes

omit stable in
/-- The same for the faults that name an attribute from which no rule makes others. -/
theorem applyAll_alone_names (node : Node) {rules : List Rule} {r : Rule}
    (alone : rules.filter r.disturbs = [r]) {name : String} (touched : name ∈ r.names)
    (kept : ∀ o ∈ rules, o.derives name = false) (store : Store) :
    AgreeOn r.names (applyAll node rules store).attributes (r.apply node store).attributes ∧
      (applyAll node rules store).faults.filter (fun fault => fault.names.contains name) =
        (r.apply node store).faults.filter fun fault => fault.names.contains name :=
  applyAll_alone (fun _ _ same => Or.imp_left fun none => (same name touched).symm.trans none) alone
    (fun _ member apart => spares_names node apart member touched)
    (fun _ => List.mem_append_left _) store (.inr kept) (.inr kept)

end Rule

end Extender

end OperatorGraph
