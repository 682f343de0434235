import OperatorGraph.Extender.Registry
import OperatorGraph.Proofs.Extender.Alone
import OperatorGraph.Proofs.Extender.Portable
import OperatorGraph.Proofs.Extender.TypeName

/-!
How the attributes end that the built-in extenders normalize. An attribute that is not there stays
away, one that can be read gets the form that is documented for it, and any other is left as it is
with one fault that says so.
-/

namespace OperatorGraph

namespace Extender

open Attribute

inductive NormalForm where
  | integer
  | listOf (form : ListForm)
deriving DecidableEq

/-- Whether a value has a form. Floats in a list of floats have single precision. -/
def NormalForm.Holds : NormalForm → Value → Prop
  | integer, value => ∃ n, value = .int n
  | listOf form, value => ∃ elements, value = .list elements ∧ ∀ e ∈ elements, form.Holds e

/-- What the attributes with some names are normalized to in operators of some types. -/
structure Documented where
  opTypes : List String
  names : List String
  form : NormalForm
  /-- What an absent attribute becomes. -/
  absent : Option Value := none

/-- What names of element types become: their canonical spelling, under a name of its own. -/
structure DocumentedType where
  opTypes : List String
  source : String
  target : String
  required : Bool := false

def convolutionTypes : List String :=
  ["Convolution", "GroupConvolution", "BinaryConvolution", "DeformableConvolution",
    "ConvolutionBackpropData", "GroupConvolutionBackpropData"]

def cellTypes : List String := ["LSTMCell", "GRUCell", "RNNCell"]

def documented : List Documented :=
  [{ opTypes := ["Interpolate"], names := ["axes"], form := .listOf .integers },
    { opTypes := convolutionTypes
      names := ["strides", "dilations", "pads_begin", "pads_end", "output_padding"]
      form := .listOf .integers },
    { opTypes := ["StridedSlice"]
      names := ["begin_mask", "end_mask", "new_axis_mask", "shrink_axis_mask", "ellipsis_mask"]
      form := .listOf .integers
      absent := some (.list []) },
    { opTypes := ["Pad"], names := ["pads_begin", "pads_end"], form := .listOf .integers },
    { opTypes := ["ExtractImagePatches"]
      names := ["sizes", "strides", "rates"]
      form := .listOf .integers },
    { opTypes := ["Parameter"], names := ["shape"], form := .listOf .integers },
    { opTypes := ["TopK"], names := ["axis"], form := .integer },
    { opTypes := ["PriorBox"]
      names :=
        ["min_size", "max_size", "aspect_ratio", "density", "fixed_ratio", "fixed_size", "variance"]
      form := .listOf .floats },
    { opTypes := ["PriorBoxClustered"]
      names := ["width", "height", "variance"]
      form := .listOf .floats },
    { opTypes := cellTypes
      names := ["activations_alpha", "activations_beta"]
      form := .listOf .floats },
    { opTypes := cellTypes, names := ["activations"], form := .listOf .texts }]

def documentedTypes : List DocumentedType :=
  [{ opTypes := ["Convert"], source := "destination_type", target := "dst_type" },
    { opTypes := ["NonZero", "ShapeOf", "Bucketize"]
      source := "output_type"
      target := "output_type" },
    { opTypes := ["TopK"], source := "index_element_type", target := "index_element_type" },
    { opTypes := ["Parameter"]
      source := "element_type"
      target := "data_type"
      required := true }]

inductive Ending where
  | absent
  | normalized
  | rejected

/-- What an ending says of the attribute with a name, of which a form is documented. -/
def Ending.Describes (form : NormalForm) (filling : Option Value) (name : String) (before : Store)
    (after : Outcome) : Ending → Prop
  | absent =>
    before.get? name = none ∧ after.attributes.get? name = filling ∧
      ∀ fault ∈ after.faults, name ∉ fault.names
  | normalized =>
    before.get? name ≠ none ∧
      (∃ value, after.attributes.get? name = some value ∧ form.Holds value) ∧
      after.faults.countP (Fault.unreadable name) = 0
  | rejected =>
    before.get? name ≠ none ∧ after.attributes.get? name = before.get? name ∧
      after.faults.countP (Fault.unreadable name) = 1

/-- What an ending says of the name of an element type. -/
def Ending.DescribesType (t : DocumentedType) (before : Store) (after : Outcome) : Ending → Prop
  | absent =>
    before.get? t.source = none ∧ after.attributes.get? t.source = none ∧
      after.attributes.get? t.target = before.get? t.target ∧
      after.faults.filter (fun fault => fault.names.contains t.source) =
        if t.required then [.missing t.source] else []
  | normalized =>
    (∃ name type, before.get? t.source = some (.text name) ∧
      ElementType.ofName? name = some type ∧
      after.attributes.get? t.target = some (.text type.name)) ∧
      (t.source ≠ t.target → after.attributes.get? t.source = before.get? t.source) ∧
      after.faults.filter (fun fault => fault.names.contains t.source) = []
  | rejected =>
    before.get? t.source ≠ none ∧ after.attributes.get? t.source = before.get? t.source ∧
      after.attributes.get? t.target = before.get? t.target ∧
      ∃ fault, fault.untyped = true ∧
        after.faults.filter (fun fault => fault.names.contains t.source) = [fault]

namespace Ending

variable {form : NormalForm} {filling : Option Value} {name : String} {store : Store} {o : Outcome}

theorem Describes.unique {a b : Ending} (h : a.Describes form filling name store o)
    (h' : b.Describes form filling name store o) : a = b := by
  cases a with
  | absent =>
    cases b with
    | absent => rfl
    | normalized => exact absurd h.1 h'.1
    | rejected => exact absurd h.1 h'.1
  | normalized =>
    cases b with
    | absent => exact absurd h'.1 h.1
    | normalized => rfl
    | rejected => exact absurd (h.2.2.symm.trans h'.2.2) (by decide)
  | rejected =>
    cases b with
    | absent => exact absurd h'.1 h.1
    | normalized => exact absurd (h'.2.2.symm.trans h.2.2) (by decide)
    | rejected => rfl

theorem DescribesType.unique {t : DocumentedType} {a b : Ending} (h : a.DescribesType t store o)
    (h' : b.DescribesType t store o) : a = b := by
  cases a with
  | absent =>
    cases b with
    | absent => rfl
    | normalized =>
      obtain ⟨_, _, held, _⟩ := h'.1
      cases h.1.symm.trans held
    | rejected => exact absurd h.1 h'.1
  | normalized =>
    obtain ⟨⟨_, _, held, _⟩, _, none⟩ := h
    cases b with
    | absent => cases h'.1.symm.trans held
    | normalized => rfl
    | rejected =>
      obtain ⟨_, _, _, _, _, one⟩ := h'
      cases none.symm.trans one
  | rejected =>
    cases b with
    | absent => exact absurd h'.1 h.1
    | normalized =>
      obtain ⟨_, _, _, _, _, one⟩ := h
      cases h'.2.2.symm.trans one
    | rejected => rfl

end Ending

def NormalForm.coercion : NormalForm → Coercion
  | integer => .integer
  | listOf form => .listOf form

theorem NormalForm.holds_of_apply {form : NormalForm} {name : String} {value coerced : Value}
    (ok : form.coercion.apply name value = .ok coerced) : form.Holds coerced := by
  cases form with
  | integer => exact Coercion.toInteger_eq_ok ok
  | listOf form =>
    obtain ⟨_, out, _, read, rfl⟩ := Coercion.toListOf_eq_ok_iff.mp ok
    exact ⟨out, rfl, fun e member => (ListForm.reads_of_readAll read e member).holds⟩

namespace Rule

variable {form : NormalForm} {filling : Option Value} {name : String}

/-- The attribute that a rule normalizes, to which form, and what it puts for an absent one. -/
def normalizes : Rule → Option (String × NormalForm × Option Value)
  | coerce .integer name => some (name, .integer, none)
  | coerce (.listOf form) name => some (name, .listOf form, none)
  | mask name => some (name, .listOf .integers, some (.list []))
  | shape name => some (name, .listOf .integers, none)
  | _ => none

theorem coerce_ending (form : NormalForm) (name : String) (store : Store) :
    ∃ ending : Ending,
      ending.Describes form none name store (Outcome.coerce form.coercion name store) := by
  rcases Outcome.coerce_cases form.coercion name store with ⟨held, eq⟩ |
    ⟨value, fault, held, error, eq⟩ | ⟨value, coerced, held, ok, eq⟩
  · exact ⟨.absent, held, by rw [eq, held], by simp [eq]⟩
  · refine ⟨.rejected, by simp [held], by rw [eq], ?_⟩
    simp [eq, Coercion.unreadable_of_apply error]
  · refine ⟨.normalized, by simp [held], ⟨coerced, ?_, NormalForm.holds_of_apply ok⟩, by simp [eq]⟩
    simp [eq, NameMap.get?_insert]

/-- A rule ends its attribute in one of the three ways. -/
theorem apply_ending (node : Node) {r : Rule} (h : r.normalizes = some (name, form, filling))
    (store : Store) :
    ∃ ending : Ending, ending.Describes form filling name store (r.apply node store) := by
  cases r with
  | coerce c other =>
    cases c with
    | list => cases h
    | integer =>
      cases h
      exact coerce_ending .integer name store
    | listOf elements =>
      cases h
      exact coerce_ending (.listOf elements) name store
  | mask other =>
    cases h
    simp only [apply, applyMask_eq]
    split
    · have written : (store.insert name (.list [])).get? name = some (.list []) := by
        simp [NameMap.get?_insert]
      by_cases held : store.get? name = none
      · exact ⟨.absent, held, written, by simp⟩
      · exact ⟨.normalized, held, ⟨_, written, [], rfl, by simp⟩, rfl⟩
    · rename_i filled
      obtain ⟨ending, described⟩ := coerce_ending (.listOf .integers) name store
      cases ending with
      | absent => simp [isBlank, described.1] at filled
      | normalized => exact ⟨.normalized, described⟩
      | rejected => exact ⟨.rejected, described⟩
  | shape other =>
    cases h
    simp only [apply, applyShape]
    split
    · rename_i s held
      split
      · rename_i dimensions read
        have written : (store.insert name (.ints dimensions)).get? name =
            some (.ints dimensions) := by simp [NameMap.get?_insert]
        refine ⟨.normalized, by simp [held], ⟨_, written, _, rfl, ?_⟩, rfl⟩
        simp [ListForm.Holds]
      · exact ⟨.rejected, by simp [held], rfl, by simp [Outcome.ofChange, Fault.unreadable]⟩
    · exact coerce_ending (.listOf .integers) name store
  | _ => cases h

theorem elementType_ending (node : Node) (source target : String) (required : Bool)
    (opTypes : List String) (store : Store) :
    ∃ ending : Ending, ending.DescribesType ⟨opTypes, source, target, required⟩ store
      ((elementType source target required).apply node store) := by
  have outcome := naming store source target required
  rw [apply]
  generalize Outcome.ofChange store _ = after at outcome
  cases outcome with
  | absent none optional => exact ⟨.absent, none, none, rfl, by simp [optional]⟩
  | missing none needed => exact ⟨.absent, none, none, rfl, by simp [needed, Fault.names]⟩
  | @malformed value held _ =>
    let fault : Fault := .malformed source .elementTypeName value.kind
    exact ⟨.rejected, by simp [held], rfl, rfl, fault, rfl, by simp [fault, Fault.names]⟩
  | @unknown name held _ =>
    let fault : Fault := .unknownElementType source name
    exact ⟨.rejected, by simp [held], rfl, rfl, fault, rfl, by simp [fault, Fault.names]⟩
  | named held known written =>
    exact ⟨.normalized, ⟨_, _, held, known, written.name⟩, written.others source, rfl⟩

theorem mem_names_of_normalizes {r : Rule} (h : r.normalizes = some (name, form, filling)) :
    name ∈ r.names := by
  cases r with
  | coerce c other =>
    cases c with
    | list => cases h
    | _ =>
      cases h
      simp [names, reads]
  | mask other =>
    cases h
    simp [names, reads]
  | shape other =>
    cases h
    simp [names, reads]
  | _ => cases h

/-- Rules end an attribute as the one of them does that normalizes it, if the others do not disturb
that one. -/
theorem applyAll_ending (node : Node) {rules : List Rule} {r : Rule}
    (h : r.normalizes = some (name, form, filling)) (alone : rules.filter r.disturbs = [r])
    (kept : filling = none ∨ ∀ o ∈ rules, o.derives name = false) (store : Store) :
    ∃ ending : Ending, ending.Describes form filling name store (applyAll node rules store) := by
  have touched := mem_names_of_normalizes h
  have reads : ∀ name ∈ r.reads, name ∈ r.names := fun _ => List.mem_append_left _
  obtain ⟨attributes, unreadable⟩ := applyAll_alone (fun _ _ _ _ => trivial) alone
    (fun o _ apart => spares_unreadable node apart touched) reads store trivial trivial
  have value := attributes name touched
  have counted : (applyAll node rules store).faults.countP (Fault.unreadable name) =
      (r.apply node store).faults.countP (Fault.unreadable name) := by
    simp only [List.countP_eq_length_filter, unreadable]
  obtain ⟨ending, described⟩ := apply_ending node h store
  cases ending with
  | absent =>
    obtain ⟨absent, filled, silent⟩ := described
    have own : (r.apply node store).faults.filter (fun fault => fault.names.contains name) = [] :=
      List.filter_eq_nil_iff.mpr fun fault met => by simpa using silent fault met
    have after : (r.apply node store).attributes.get? name = none ∨
        ∀ o ∈ rules, o.derives name = false :=
      kept.imp_left fun nothing => filled.trans nothing
    obtain ⟨_, named⟩ := applyAll_alone
      (fun a b same => Or.imp_left fun none => (same name touched).symm.trans none) alone
      (fun o member apart => spares_names node apart member touched) reads store (.inl absent) after
    refine ⟨.absent, absent, value.trans filled, fun fault met => ?_⟩
    simpa using List.filter_eq_nil_iff.mp (named.trans own) fault met
  | normalized =>
    obtain ⟨present, held, none⟩ := described
    exact ⟨.normalized, present, by rwa [value], counted.trans none⟩
  | rejected =>
    obtain ⟨present, same, one⟩ := described
    exact ⟨.rejected, present, value.trans same, counted.trans one⟩

theorem applyAll_typeEnding (node : Node) {rules : List Rule} {source target : String}
    {required : Bool}
    (alone : rules.filter (elementType source target required).disturbs =
      [elementType source target required])
    (kept : ∀ o ∈ rules, o.derives source = false) (opTypes : List String) (store : Store) :
    ∃ ending : Ending, ending.DescribesType ⟨opTypes, source, target, required⟩ store
      (applyAll node rules store) := by
  have touched : source ∈ (elementType source target required).names := List.mem_cons_self
  have written : target ∈ (elementType source target required).names := by simp [names, writes]
  obtain ⟨attributes, named⟩ := applyAll_alone_names node alone touched kept store
  obtain ⟨ending, described⟩ := elementType_ending node source target required opTypes store
  refine ⟨ending, ?_⟩
  cases ending with
  | _ => simpa only [Ending.DescribesType, attributes source touched, attributes target written,
      named] using described

end Rule

theorem exists_ruleset_of_documented :
    (∀ d ∈ documented, ∀ opType ∈ d.opTypes, ∃ s ∈ builtinRules, s.opType = opType) ∧
    ∀ t ∈ documentedTypes, ∀ opType ∈ t.opTypes, ∃ s ∈ builtinRules, s.opType = opType := by
  decide +kernel

/-- Each documented attribute is normalized by one rule, which the others do not disturb. -/
theorem builtinRules_documented : ∀ s ∈ builtinRules,
    ∀ d ∈ documented, s.opType ∈ d.opTypes → ∀ name ∈ d.names, ∃ r ∈ s.rules,
      r.normalizes = some (name, d.form, d.absent) ∧ s.rules.filter r.disturbs = [r] ∧
        (d.absent = none ∨ ∀ o ∈ s.rules, o.derives name = false) := by
  decide +kernel

theorem builtinRules_documentedTypes : ∀ s ∈ builtinRules,
    ∀ t ∈ documentedTypes, s.opType ∈ t.opTypes →
      s.rules.filter (Rule.elementType t.source t.target t.required).disturbs =
        [.elementType t.source t.target t.required] ∧
      ∀ o ∈ s.rules, o.derives t.source = false := by
  decide +kernel

end Extender

/-- Operator types differ, so each ruleset is found under its own. -/
theorem Registry.lookup_builtin {s : Extender.Ruleset} (listed : s ∈ Extender.builtinRules) :
    builtin.lookup s.opType = some s.extender := by
  let entries := Extender.builtins.map fun e => (e.opType, e)
  have distinct : (entries.map Prod.fst).Nodup := by
    simp only [entries, List.map_map]
    decide
  have perm := NameMap.ofList_perm distinct
  have member := s.extender_mem_builtins listed
  exact NameMap.mem_entries_iff.mp (perm.mem_iff.mpr (List.mem_map_of_mem member))

/-- Every attribute that the built-in extenders normalize ends in exactly one of three ways. -/
theorem Registry.exists_unique_ending (node : Node) :
    (∀ d ∈ Extender.documented, node.opType ∈ d.opTypes → ∀ name ∈ d.names,
      ∃ e, builtin.lookup node.opType = some e ∧
        ∃! ending : Extender.Ending,
          ending.Describes d.form d.absent name node.attributes (e.extend node)) ∧
    ∀ t ∈ Extender.documentedTypes, node.opType ∈ t.opTypes →
      ∃ e, builtin.lookup node.opType = some e ∧
        ∃! ending : Extender.Ending, ending.DescribesType t node.attributes (e.extend node) := by
  constructor
  · intro d documented operates name named
    obtain ⟨s, listed, same⟩ :=
      Extender.exists_ruleset_of_documented.1 d documented node.opType operates
    obtain ⟨r, _, normalizes, alone, kept⟩ :=
      Extender.builtinRules_documented s listed d documented (same ▸ operates) name named
    refine ⟨s.extender, same ▸ lookup_builtin listed, ?_⟩
    obtain ⟨ending, described⟩ :=
      Extender.Rule.applyAll_ending node normalizes alone kept node.attributes
    exact ⟨ending, described, fun other described' => described'.unique described⟩
  · intro t documented operates
    obtain ⟨s, listed, same⟩ :=
      Extender.exists_ruleset_of_documented.2 t documented node.opType operates
    obtain ⟨alone, kept⟩ :=
      Extender.builtinRules_documentedTypes s listed t documented (same ▸ operates)
    refine ⟨s.extender, same ▸ lookup_builtin listed, ?_⟩
    obtain ⟨ending, described⟩ :=
      Extender.Rule.applyAll_typeEnding node alone kept t.opTypes node.attributes
    exact ⟨ending, described, fun other described' => described'.unique described⟩

end OperatorGraph
