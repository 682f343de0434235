import OperatorGraph.Proofs.Attribute.Reading
import OperatorGraph.Proofs.Extender.Documented

/-!
What convolutions derive from their spatial attributes: lists for the dimensions of a tensor, batch
and channel included, and the pads of all of them in one list. Each is derived from what can be read,
whatever becomes of the others, and is left alone otherwise.
-/

namespace OperatorGraph

namespace Attribute

/-- Whether an attribute is there and is coerced to a list of integers. -/
def Store.CoercesTo (store : Store) (name : String) (ns : List Int64) : Prop :=
  ∃ changed, store.coerce (.listOf .integers) name = .ok changed ∧
    changed.get? name = some (.ints ns)

end Attribute

namespace Extender

open Attribute (Coercion Fault Store Value)

/-- Coercion leaves a list of integers where it can read one, and none where it cannot. -/
theorem Outcome.ints?_coerce_iff {store : Store} {name : String} {ns : List Int64} :
    Store.ints? (coerce (.listOf .integers) name store).attributes name = some ns ↔
      store.CoercesTo name ns := by
  rw [Store.ints?_eq_some_iff, Store.CoercesTo, Store.coerce]
  rcases coerce_cases (.listOf .integers) name store with ⟨held, eq⟩ |
    ⟨value, fault, held, error, eq⟩ | ⟨value, coerced, held, ok, eq⟩
  · simp [eq, held]
  · simp only [eq, held, error, Except.map, reduceCtorEq, false_and, exists_false, iff_false]
    rintro ⟨⟩
    cases (Coercion.toListOf_ints name ns).symm.trans error
  · simp [eq, held, ok, Except.map]

/-- Every second entry of a list, from the first one on. -/
def everySecond : List Int64 → List Int64
  | a :: _ :: rest => a :: everySecond rest
  | rest => rest

theorem everySecond_cons (a : Int64) (rest : List Int64) :
    everySecond (a :: rest) = a :: everySecond rest.tail := by
  cases rest <;> rfl

/-- Lists of one length are the two sides of a list of pairs. -/
theorem exists_pairs {bs es : List Int64} (same : bs.length = es.length) :
    ∃ pairs : List (Int64 × Int64), bs = pairs.map Prod.fst ∧ es = pairs.map Prod.snd :=
  ⟨bs.zip es, (List.map_fst_zip same.le).symm, (List.map_snd_zip same.ge).symm⟩

section Interleave

variable (pairs : List (Int64 × Int64))

theorem length_interleave :
    (interleave (pairs.map Prod.fst) (pairs.map Prod.snd)).length = 2 * pairs.length := by
  induction pairs with
  | nil => rfl
  | cons p rest ih =>
    simp only [List.map_cons, interleave, List.length_cons, ih]
    omega

theorem getElem?_interleave (i : Nat) :
    let both := interleave (pairs.map Prod.fst) (pairs.map Prod.snd)
    both[2 * i]? = (pairs.map Prod.fst)[i]? ∧ both[2 * i + 1]? = (pairs.map Prod.snd)[i]? := by
  induction pairs generalizing i with
  | nil => exact ⟨rfl, rfl⟩
  | cons p rest ih =>
    cases i with
    | zero => exact ⟨rfl, rfl⟩
    | succ i => exact ih i

theorem everySecond_interleave :
    let both := interleave (pairs.map Prod.fst) (pairs.map Prod.snd)
    everySecond both = pairs.map Prod.fst ∧ everySecond both.tail = pairs.map Prod.snd := by
  induction pairs with
  | nil => exact ⟨rfl, rfl⟩
  | cons p rest ih =>
    simp only [List.map_cons, interleave, List.tail_cons, everySecond_cons]
    exact ⟨congrArg _ ih.1, congrArg _ ih.2⟩

end Interleave

/-- The begins and ends of the spatial dimensions in one list, one pair after the other and after
the pads of batch and channel, which are none. -/
structure IsPadding (bs es pad : List Int64) : Prop where
  length : pad.length = 2 * (bs.length + 2)
  leading : pad.take 4 = [0, 0, 0, 0]
  entries : ∀ i < bs.length, pad[4 + 2 * i]? = bs[i]? ∧ pad[5 + 2 * i]? = es[i]?
  begins : everySecond (pad.drop 4) = bs
  ends : everySecond (pad.drop 5) = es

theorem isPadding_interleave {bs es : List Int64} (same : bs.length = es.length) :
    IsPadding bs es ([0, 0, 0, 0] ++ interleave bs es) := by
  obtain ⟨pairs, rfl, rfl⟩ := exists_pairs same
  obtain ⟨begins, ends⟩ := everySecond_interleave pairs
  constructor
  case length =>
    simp only [List.length_append, length_interleave, List.length_map, List.length_cons,
      List.length_nil]
    omega
  case leading => rfl
  case entries =>
    intro i _
    obtain ⟨first, second⟩ := getElem?_interleave pairs i
    rw [show 4 + 2 * i = 2 * i + 4 by omega, show 5 + 2 * i = 2 * i + 1 + 4 by omega]
    exact ⟨first, second⟩
  case begins => exact begins
  case ends =>
    rw [← List.drop_one] at ends
    exact ends

/-- Whether a fault says that two lists have different lengths. -/
def mismatch : Fault → Bool
  | .lengthMismatch .. => true
  | _ => false

namespace Rule

variable {node : Node}

theorem listsOf_cons (form : Attribute.ListForm) (name : String) (names : List String) :
    listsOf form (name :: names) = .coerce (.listOf form) name :: listsOf form names := rfl

/-- Coercions under different names do what each of them does on its own. -/
theorem get?_applyAll_listsOf (form : Attribute.ListForm) {names : List String}
    (distinct : names.Nodup) {name : String} (member : name ∈ names) (store : Store) :
    (applyAll node (listsOf form names) store).attributes.get? name =
      (Outcome.coerce (.listOf form) name store).attributes.get? name := by
  induction names generalizing store with
  | nil => cases member
  | cons first rest ih =>
    obtain ⟨apart, distinct⟩ := List.nodup_cons.mp distinct
    rw [listsOf_cons, applyAll_cons]
    rcases List.mem_cons.mp member with rfl | later
    · refine applyAll_frame _ fun r made written => apart ?_
      obtain ⟨other, inside, rfl⟩ := List.mem_map.mp made
      cases List.mem_singleton.mp written
      exact inside
    · have other : name ≠ first := fun same => apart (same ▸ later)
      have kept : AgreeOn [name] (Outcome.coerce (.listOf form) first store).attributes store :=
        fun _ only => by
          cases List.mem_singleton.mp only
          exact Outcome.coerce_frame _ store other
      refine (ih distinct later _).trans ?_
      exact (Outcome.coerce_agree (.listOf form) kept List.mem_cons_self).attributes name
        List.mem_cons_self

theorem mismatch_listsOf (form : Attribute.ListForm) (names : List String) (store : Store) :
    (applyAll node (listsOf form names) store).faults.filter mismatch = [] := by
  induction names generalizing store with
  | nil => rfl
  | cons first rest ih =>
    rw [listsOf_cons, applyAll_cons]
    simp only [Outcome.andThen, List.filter_append, ih, List.append_nil]
    refine List.filter_eq_nil_iff.mpr fun fault met => ?_
    have unreadable := coerce_faults met
    cases fault with
    | lengthMismatch => cases unreadable
    | _ => exact Bool.false_ne_true

/-- Whether a rule writes an attribute that another one touches. -/
def overwrites (r o : Rule) : Bool := o.writes.any r.names.contains

/-- Of rules that write over nothing that one of them touches, that one alone decides what it
writes. If the others meet none of some faults, it also decides which of these are met. -/
theorem applyAll_derives {rules : List Rule} {r : Rule} {p : Fault → Bool}
    (alone : rules.filter r.overwrites = [r])
    (quiet : ∀ o ∈ rules, o ≠ r → ∀ store, ∀ fault ∈ (o.apply node store).faults, p fault = false)
    (store : Store) :
    AgreeOn r.names (applyAll node rules store).attributes (r.apply node store).attributes ∧
      (applyAll node rules store).faults.filter p = (r.apply node store).faults.filter p := by
  have own : r.overwrites r = true :=
    (List.mem_filter.mp (alone ▸ List.mem_singleton_self r : r ∈ rules.filter r.overwrites)).2
  refine applyAll_alone (c := fun _ => True) (fun _ _ _ _ => trivial) alone
    (fun o member apart => ⟨fun name touched written => ?_, fun store _ => ?_⟩)
    (fun _ => List.mem_append_left _) store trivial trivial
  · have hit : r.overwrites o = true :=
      List.any_eq_true.mpr ⟨name, written, List.contains_iff_mem.mpr touched⟩
    exact Bool.false_ne_true (apart.symm.trans hit)
  · refine quiet o member ?_ store
    rintro rfl
    exact Bool.false_ne_true (apart.symm.trans own)

variable {first last target dimensions : String} {store : Store}

theorem applyPads_derived {bs es : List Int64} (begins : store.ints? first = some bs)
    (ends : store.ints? last = some es) (same : bs.length = es.length) :
    applyPads first last target dimensions store =
      { attributes := (store.insert target (.ints ([0, 0, 0, 0] ++ interleave bs es))).insert
          dimensions (.ints (spatialDimensions bs.length)) } := by
  simp only [applyPads, begins, ends, if_pos same, Outcome.ofChange]

theorem applyPads_mismatched {bs es : List Int64} (begins : store.ints? first = some bs)
    (ends : store.ints? last = some es) (differ : bs.length ≠ es.length) :
    applyPads first last target dimensions store =
      { attributes := store
        faults := [.lengthMismatch first last bs.length es.length] } := by
  simp only [applyPads, begins, ends, if_neg differ, Outcome.ofChange]

theorem applyPads_unread
    (unread : ¬∃ bs es, store.ints? first = some bs ∧ store.ints? last = some es) :
    applyPads first last target dimensions store = { attributes := store } := by
  unfold applyPads
  split
  · rename_i bs es begins ends
    exact absurd ⟨bs, es, begins, ends⟩ unread
  · rfl

end Rule

/-- The lists that a convolution may have for its spatial dimensions. -/
def spatialLists : List String :=
  ["strides", "dilations", "pads_begin", "pads_end", "output_padding"]

/-- The rule for pads. -/
def padding : Rule := .pads "pads_begin" "pads_end" "pad" "spatial_dims"

/-- The rules by which a convolution derives attributes when the lists have been read. -/
def derivations (opType : String) : List Rule :=
  [.fullRank "strides" "stride" [1, 1],
    .fullRank "dilations" "dilation" [1, 1],
    .fullRank "output_padding" "output_pad" [0, 0],
    padding,
    .set "batch_dims" (.ints [0]),
    .set "channel_dims" (.ints [1]),
    .set "input_feature_channel" (.int (if isTransposed opType then 0 else 1)),
    .set "output_feature_channel" (.int (if isTransposed opType then 1 else 0))]

theorem convolutionRules_eq (opType : String) :
    convolutionRules opType = listsOf .integers spatialLists ++ derivations opType := rfl

/-- What is derived from a list: the list with entries for batch and channel before it, or nothing
new where no list can be read. -/
structure FullRank (leading : List Int64) (source target : String) (before after : Store) :
    Prop where
  derived : ∀ ns, before.CoercesTo source ns → after.get? target = some (.ints (leading ++ ns))
  kept : (¬∃ ns, before.CoercesTo source ns) → after.get? target = before.get? target

/-- What is derived from begins and ends: pads for all dimensions and the numbers of the spatial
ones if there are as many begins as ends, else nothing new. It is a fault if the numbers differ. -/
structure Padded (before : Store) (after : Outcome) : Prop where
  derived : ∀ bs es, before.CoercesTo "pads_begin" bs → before.CoercesTo "pads_end" es →
    bs.length = es.length →
      (∃ pad, after.attributes.get? "pad" = some (.ints pad) ∧ IsPadding bs es pad) ∧
      after.attributes.get? "spatial_dims" =
        some (.ints ((List.range' 2 bs.length).map Int64.ofNat)) ∧
      after.faults.filter mismatch = []
  mismatched : ∀ bs es, before.CoercesTo "pads_begin" bs → before.CoercesTo "pads_end" es →
    bs.length ≠ es.length →
      AgreeOn ["pad", "spatial_dims"] after.attributes before ∧
      after.faults.filter mismatch =
        [.lengthMismatch "pads_begin" "pads_end" bs.length es.length]
  kept : (¬∃ bs es, before.CoercesTo "pads_begin" bs ∧ before.CoercesTo "pads_end" es) →
    AgreeOn ["pad", "spatial_dims"] after.attributes before ∧ after.faults.filter mismatch = []

def transposedTypes : List String := ["ConvolutionBackpropData", "GroupConvolutionBackpropData"]

/-- What a convolution derives. -/
structure Convolved (opType : String) (before : Store) (after : Outcome) : Prop where
  stride : FullRank [1, 1] "strides" "stride" before after.attributes
  dilation : FullRank [1, 1] "dilations" "dilation" before after.attributes
  outputPad : FullRank [0, 0] "output_padding" "output_pad" before after.attributes
  pads : Padded before after
  batch : after.attributes.get? "batch_dims" = some (.ints [0])
  channel : after.attributes.get? "channel_dims" = some (.ints [1])
  inputChannel : after.attributes.get? "input_feature_channel" =
    some (.int (if opType ∈ transposedTypes then 0 else 1))
  outputChannel : after.attributes.get? "output_feature_channel" =
    some (.int (if opType ∈ transposedTypes then 1 else 0))

theorem isTransposed_iff {opType : String} (h : opType ∈ convolutionTypes) :
    isTransposed opType = true ↔ opType ∈ transposedTypes := by
  revert opType
  decide

/-- No two of these rules write over what the other touches. -/
theorem derivations_alone {opType : String} {r : Rule} (member : r ∈ derivations opType) :
    (derivations opType).filter r.overwrites = [r] := by
  simp only [derivations, List.mem_cons, List.not_mem_nil, or_false] at member
  rcases member with rfl | rfl | rfl | rfl | rfl | rfl | rfl | rfl
  all_goals rfl

/-- The one rule that compares the lengths of lists is that for pads. -/
theorem derivations_quiet {node : Node} {opType : String} {r : Rule}
    (member : r ∈ derivations opType) (other : r ≠ padding) (store : Store) :
    (r.apply node store).faults = [] := by
  simp only [derivations, List.mem_cons, List.not_mem_nil, or_false] at member
  rcases member with rfl | rfl | rfl | rfl | rfl | rfl | rfl | rfl
  case inr.inr.inr.inl => exact absurd rfl other
  all_goals rfl

section Derive

variable (node : Node) (opType : String) (before : Store)

/-- The attributes of a convolution when its lists have been read, from which it derives others. -/
def listed : Store := (Rule.applyAll node (listsOf .integers spatialLists) before).attributes

theorem ints?_listed_iff {name : String} (member : name ∈ spatialLists) {ns : List Int64} :
    Store.ints? (listed node before) name = some ns ↔ before.CoercesTo name ns := by
  rw [← Outcome.ints?_coerce_iff, Store.ints?_eq_some_iff, Store.ints?_eq_some_iff, listed,
    Rule.get?_applyAll_listsOf .integers (by decide) member]

theorem ints?_listed_eq_none {name : String} (member : name ∈ spatialLists)
    (unread : ¬∃ ns, before.CoercesTo name ns) : Store.ints? (listed node before) name = none :=
  Option.eq_none_iff_forall_ne_some.mpr fun ns read =>
    unread ⟨ns, (ints?_listed_iff node before member).mp read⟩

theorem get?_listed {name : String} (other : name ∉ spatialLists) :
    (listed node before).get? name = before.get? name := by
  refine Rule.applyAll_frame before fun r member written => other ?_
  obtain ⟨name', inside, rfl⟩ := List.mem_map.mp member
  cases List.mem_singleton.mp written
  exact inside

theorem applyAll_convolutionRules :
    let after := Rule.applyAll node (convolutionRules opType) before
    after.attributes = (Rule.applyAll node (derivations opType) (listed node before)).attributes ∧
      after.faults.filter mismatch =
        (Rule.applyAll node (derivations opType) (listed node before)).faults.filter mismatch := by
  intro after
  simp only [after, convolutionRules_eq, Rule.applyAll_append, Outcome.andThen, List.filter_append,
    Rule.mismatch_listsOf, List.nil_append]
  exact ⟨rfl, rfl⟩

/-- What a rule writes that derives attributes is what a convolution ends with. -/
theorem get?_derived {r : Rule} (member : r ∈ derivations opType) {name : String}
    (touched : name ∈ r.names) :
    (Rule.applyAll node (convolutionRules opType) before).attributes.get? name =
      (r.apply node (listed node before)).attributes.get? name := by
  rw [(applyAll_convolutionRules node opType before).1]
  exact (Rule.applyAll_derives (p := fun _ => false) (derivations_alone member)
    (fun _ _ _ _ _ _ => rfl) _).1 name touched

theorem fullRank_derived {leading : List Int64} {source target : String}
    (member : Rule.fullRank source target leading ∈ derivations opType)
    (read : source ∈ spatialLists) (other : target ∉ spatialLists) :
    FullRank leading source target before
      (Rule.applyAll node (convolutionRules opType) before).attributes := by
  have written : target ∈ (Rule.fullRank source target leading).names := by
    simp [Rule.names, Rule.writes]
  have last := get?_derived node opType before member written
  simp only [Rule.apply, Rule.applyFullRank] at last
  constructor
  case derived =>
    intro ns coerces
    rw [last, (ints?_listed_iff node before read).mpr coerces]
    simp [NameMap.get?_insert]
  case kept =>
    intro unread
    rw [last, ints?_listed_eq_none node before read unread]
    exact get?_listed node before other

theorem padding_derived :
    let after := Rule.applyAll node (convolutionRules opType) before
    let own := Rule.apply node padding (listed node before)
    AgreeOn ["pad", "spatial_dims"] after.attributes own.attributes ∧
      after.faults.filter mismatch = own.faults.filter mismatch := by
  have member : padding ∈ derivations opType := by simp [derivations]
  constructor
  · intro name inside
    refine get?_derived node opType before member ?_
    exact List.mem_append_right _ inside
  · refine (applyAll_convolutionRules node opType before).2.trans ?_
    refine (Rule.applyAll_derives (derivations_alone member) (fun o inside other store => ?_) _).2
    simp [derivations_quiet inside other]

theorem padded_derived :
    Padded before (Rule.applyAll node (convolutionRules opType) before) := by
  obtain ⟨attributes, faults⟩ := padding_derived node opType before
  have begins {bs : List Int64} : Store.ints? (listed node before) "pads_begin" = some bs ↔
      before.CoercesTo "pads_begin" bs := ints?_listed_iff node before (by decide)
  have ends {es : List Int64} : Store.ints? (listed node before) "pads_end" = some es ↔
      before.CoercesTo "pads_end" es := ints?_listed_iff node before (by decide)
  have old : AgreeOn ["pad", "spatial_dims"] (listed node before) before := fun name inside => by
    refine get?_listed node before ?_
    rcases List.mem_pair.mp inside with rfl | rfl
    all_goals decide
  constructor
  case derived =>
    intro bs es begin last same
    rw [padding, Rule.apply, Rule.applyPads_derived (begins.mpr begin) (ends.mpr last) same]
      at attributes faults
    refine ⟨⟨_, (attributes "pad" (by decide)).trans ?_, isPadding_interleave same⟩,
      (attributes "spatial_dims" (by decide)).trans ?_, faults⟩
    · simp [NameMap.get?_insert]
    · rw [NameMap.get?_insert, if_pos rfl, List.range'_eq_map_range]
      simp [spatialDimensions, Nat.add_comm, Function.comp_def]
  case mismatched =>
    intro bs es begin last differ
    rw [padding, Rule.apply, Rule.applyPads_mismatched (begins.mpr begin) (ends.mpr last) differ]
      at attributes faults
    exact ⟨attributes.trans old, faults⟩
  case kept =>
    intro unread
    have nothing : ¬∃ bs es, Store.ints? (listed node before) "pads_begin" = some bs ∧
        Store.ints? (listed node before) "pads_end" = some es := by
      rintro ⟨bs, es, begin, last⟩
      exact unread ⟨bs, es, begins.mp begin, ends.mp last⟩
    rw [padding, Rule.apply, Rule.applyPads_unread nothing] at attributes faults
    exact ⟨attributes.trans old, faults⟩

theorem set_derived {name : String} {value : Value}
    (member : .set name value ∈ derivations opType) :
    (Rule.applyAll node (convolutionRules opType) before).attributes.get? name = some value := by
  rw [get?_derived node opType before member (by simp [Rule.names, Rule.writes]), Rule.apply,
    NameMap.get?_insert, if_pos rfl]

end Derive

/-- What the rules of convolutions derive from any attributes. -/
theorem convolved {opType : String} (h : opType ∈ convolutionTypes) (node : Node) (before : Store) :
    Convolved opType before (Rule.applyAll node (convolutionRules opType) before) := by
  have channels := isTransposed_iff h
  constructor
  case stride =>
    exact fullRank_derived node opType before (by simp [derivations]) (by decide) (by decide)
  case dilation =>
    exact fullRank_derived node opType before (by simp [derivations]) (by decide) (by decide)
  case outputPad =>
    exact fullRank_derived node opType before (by simp [derivations]) (by decide) (by decide)
  case pads => exact padded_derived node opType before
  case batch => exact set_derived node opType before (by simp [derivations])
  case channel => exact set_derived node opType before (by simp [derivations])
  case inputChannel =>
    refine set_derived node opType before ?_
    simp [derivations, channels]
  case outputChannel =>
    refine set_derived node opType before ?_
    simp [derivations, channels]

theorem convolution_mem_builtinRules : ∀ opType ∈ convolutionTypes,
    convolution opType ∈ builtinRules := by
  decide +kernel

end Extender

open Extender

/-- Convolutions derive attributes for all dimensions from those lists that can be read, one by one,
and from begins and ends together. Those of batch, channel and features are written in any case. -/
theorem Registry.exists_convolved {opType : String} (h : opType ∈ convolutionTypes) (node : Node) :
    ∃ e, builtin.lookup opType = some e ∧ Convolved opType node.attributes (e.extend node) :=
  ⟨_, lookup_builtin (convolution_mem_builtinRules opType h), convolved h node node.attributes⟩

/-- Strides and pads that can be read, dilations that cannot, and no padding of the output. -/
theorem Registry.exists_convolved_transposed :
    let node : Node :=
      { opType := "ConvolutionBackpropData"
        attributes := .ofList
          [("strides", .text " 2, 3"), ("dilations", .text "1,x"), ("dilation", .text "as it was"),
            ("pads_begin", .list [.bool true, .text "2"]), ("pads_end", .text "3,4")] }
    "ConvolutionBackpropData" ∈ convolutionTypes ∧
      node.attributes.CoercesTo "strides" [2, 3] ∧
      node.attributes.CoercesTo "pads_begin" [1, 2] ∧ node.attributes.CoercesTo "pads_end" [3, 4] ∧
      (¬∃ ns, node.attributes.CoercesTo "dilations" ns) ∧
      ∃ e, builtin.lookup "ConvolutionBackpropData" = some e ∧
        (e.extend node).attributes.get? "stride" = some (.ints [1, 1, 2, 3]) ∧
        (e.extend node).attributes.get? "dilation" = some (.text "as it was") ∧
        (∃ pad, (e.extend node).attributes.get? "pad" = some (.ints pad) ∧
          IsPadding [1, 2] [3, 4] pad) ∧
        (e.extend node).attributes.get? "input_feature_channel" = some (.int 0) := by
  intro node
  have member : "ConvolutionBackpropData" ∈ convolutionTypes := by decide
  have strides : node.attributes.CoercesTo "strides" [2, 3] := ⟨_, rfl, by decide +kernel⟩
  have begins : node.attributes.CoercesTo "pads_begin" [1, 2] := ⟨_, rfl, by decide +kernel⟩
  have ends : node.attributes.CoercesTo "pads_end" [3, 4] := ⟨_, rfl, by decide +kernel⟩
  have unread : ¬∃ ns, node.attributes.CoercesTo "dilations" ns := by
    rintro ⟨ns, changed, coerced, _⟩
    have refused : node.attributes.coerce (.listOf .integers) "dilations" =
      .error (.unparseable "dilations" "1,x" .integer) := by decide +kernel
    cases refused.symm.trans coerced
  obtain ⟨e, found, stride, dilation, _, pads, _, _, channel, _⟩ :=
    exists_convolved member node
  have kept := dilation.kept unread
  exact ⟨member, strides, begins, ends, unread, e, found, stride.derived _ strides,
    kept.trans (by decide +kernel), (pads.derived _ _ begins ends rfl).1, channel⟩

end OperatorGraph
