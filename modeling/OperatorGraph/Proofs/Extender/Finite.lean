import OperatorGraph.Proofs.Extender.Documented
import OperatorGraph.Proofs.Extender.Values
import OperatorGraph.Proofs.Idempotence
import OperatorGraph.Proofs.Json.Finite

/-!
Which extenders make floats that are not finite. Only lists of floats are made from floats or text,
and they have single precision, whose range a number in a node can exceed.
-/

namespace OperatorGraph

/-- Whether a numeral stands for no finite number of single precision. -/
def Text.Numeral.Overflows : Numeral → Prop
  | finite _ value => Binary.single.overflow ≤ value.value
  | infinite _ | nan _ => True

theorem Text.Numeral.isFinite_toNumber_iff (n : Numeral) :
    (n.toNumber : Binary32).isFinite = true ↔ ¬n.Overflows := by
  cases n with
  | finite negative value => exact (value.isFinite_ofDecimal_iff negative).trans not_le.symm
  | infinite negative => simp [toNumber, Overflows]
  | nan negative => simp [toNumber, Overflows, Binary.Number.isFinite_nan (f := Binary.single) (by decide)]

namespace Attribute

open Binary (single double)

/-- Whether a scalar can be read as floats. -/
def Scalar.IsNumeric : Scalar → Prop
  | .int _ | .float _ => True
  | .bool _ => False
  | .text s => ∀ item ∈ Text.items s.toList, ∃ n, Text.numeral? item = some n

/-- Whether a number in a scalar goes beyond single precision. Integers never do. -/
def Scalar.Overflows : Scalar → Prop
  | .float x => single.overflow ≤ double.value x.magnitude
  | .text s => ∃ item ∈ Text.items s.toList, ∃ n, Text.numeral? item = some n ∧ n.Overflows
  | _ => False

/-- A scalar, or the elements of a list. -/
def Value.scalars : Value → List Scalar
  | .scalar s => [s]
  | .list elements => elements
  | .payload _ => []

/-- Whether a value can be read as floats, but not as finite ones. -/
def Value.Overflows (v : Value) : Prop :=
  (∀ s ∈ v.scalars, s.IsNumeric) ∧ ∃ s ∈ v.scalars, s.Overflows

namespace ListForm

theorem isFinite_float (x : Binary32) : (float x).isFinite = x.isFinite := x.isFinite_widen

theorem exists_readFloat_iff (s : Scalar) :
    (∃ es, floats.read s = some es) ↔ s.IsNumeric := by
  cases s with
  | int n => simp [read, readFloat, Scalar.IsNumeric]
  | float x => simp [read, readFloat, Scalar.IsNumeric]
  | bool b => simp [read, readFloat, Scalar.IsNumeric]
  | text s =>
    simp only [read, readFloat, mapM_eq_some_iff, Option.map_eq_some_iff, Scalar.IsNumeric]
    constructor
    · rintro ⟨es, reads⟩ item member
      obtain ⟨_, _, n, numeral, _⟩ := exists_of_mem_left reads member
      exact ⟨n, numeral⟩
    · intro numeric
      refine exists_forall₂ fun item member => ?_
      obtain ⟨n, numeral⟩ := numeric item member
      exact ⟨_, n, numeral, rfl⟩

theorem isFinite_of_readFloat {s : Scalar} {es : List Scalar} (finite : s.isFinite = true)
    (read : floats.read s = some es) : (∀ e ∈ es, e.isFinite = true) ↔ ¬s.Overflows := by
  cases s with
  | int n =>
    cases read
    have small : (n.toInt.natAbs : ℚ) < single.overflow := by
      have low := n.minValue_le_toInt
      have high := n.toInt_le
      have least : Int64.minValue.toInt = -2 ^ 63 := rfl
      have greatest : Int64.maxValue.toInt = 2 ^ 63 - 1 := rfl
      have bound : (n.toInt.natAbs : ℚ) ≤ 2 ^ 63 := by exact_mod_cast (by omega)
      rw [Binary.Format.single_overflow]
      refine bound.trans_lt (by norm_num)
    simpa [Scalar.Overflows, isFinite_float] using
      (Binary.Number.isFinite_ofInt_iff (by decide) n.toInt).mpr small
  | float x =>
    cases read
    rw [List.forall_mem_singleton, isFinite_float, Binary64.narrow,
      Binary.Number.isFinite_convert_iff (by decide) finite, Scalar.Overflows, not_le]
  | bool b => cases read
  | text s =>
    have reads := mapM_eq_some_iff.mp read
    simp only [Scalar.Overflows, not_exists, not_and]
    constructor
    · rintro all item member n numeral
      obtain ⟨e, inside, made⟩ := exists_of_mem_left reads member
      have whole := all e inside
      rw [numeral] at made
      cases made
      rw [isFinite_float] at whole
      exact n.isFinite_toNumber_iff.mp whole
    · intro none e member
      obtain ⟨item, listed, made⟩ := exists_of_mem_right reads member
      obtain ⟨n, numeral, rfl⟩ := Option.map_eq_some_iff.mp made
      rw [isFinite_float]
      exact n.isFinite_toNumber_iff.mpr (none item listed n numeral)

end ListForm

namespace Coercion

theorem elements_eq_ok {name : String} {v : Value} {es : List Scalar}
    (h : elements name v = .ok es) : es = v.scalars := by
  cases v with
  | payload p => cases h
  | _ =>
    cases h
    rfl

/-- A list of floats is finite unless a number in what it is made from overflows. -/
theorem isFinite_of_toFloats {name : String} {v coerced : Value} (finite : v.isFinite = true)
    (ok : toListOf .floats name v = .ok coerced) :
    coerced.isFinite = true ↔ ¬v.Overflows := by
  obtain ⟨_, _, elements, read, rfl⟩ := toListOf_eq_ok_iff.mp ok
  cases elements_eq_ok elements
  obtain ⟨ess, reads, rfl⟩ := ListForm.readAll_eq_ok_iff.mp read
  have finite : ∀ s ∈ v.scalars, s.isFinite = true := by
    cases v with
    | scalar s => exact List.forall_mem_singleton.mpr finite
    | list elements => exact List.all_eq_true.mp finite
    | payload p => simp [Value.scalars]
  have overflows : v.Overflows ↔ ∃ s ∈ v.scalars, s.Overflows := by
    refine and_iff_right fun s member => ?_
    obtain ⟨es, _, read⟩ := exists_of_mem_left reads member
    exact (ListForm.exists_readFloat_iff s).mp ⟨es, read⟩
  simp only [overflows, Value.isFinite, List.all_eq_true, List.mem_flatten, not_exists, not_and]
  constructor
  · intro all s member
    obtain ⟨es, inside, read⟩ := exists_of_mem_left reads member
    exact (ListForm.isFinite_of_readFloat (finite s member) read).mp fun e here =>
      all e ⟨es, inside, here⟩
  · rintro none e ⟨es, inside, here⟩
    obtain ⟨s, member, read⟩ := exists_of_mem_right reads inside
    exact (ListForm.isFinite_of_readFloat (finite s member) read).mpr (none s member) e here

theorem not_overflows_of_toFloats {name : String} {v : Value} {fault : Fault}
    (error : toListOf .floats name v = .error fault) : ¬v.Overflows := by
  rintro ⟨numeric, s, member, _⟩
  obtain ⟨ess, reads⟩ := exists_forall₂ fun s member =>
    (ListForm.exists_readFloat_iff s).mpr (numeric s member)
  have read := ListForm.readAll_eq_ok_iff.mpr ⟨ess, reads, rfl⟩
  have elements : elements name v = .ok v.scalars := by
    cases v with
    | payload p => cases member
    | _ => rfl
  have ok := toListOf_eq_ok_iff.mpr ⟨_, _, elements, read, rfl⟩
  cases error.symm.trans ok

end Coercion

end Attribute

namespace Extender

open Attribute

variable {node : Node} {store : Store}

/-- What a coercion to a list of floats leaves under its name is finite unless it overflows. -/
theorem Outcome.isFinite_coerce_floats {name : String}
    (finite : ∀ v, store.get? name = some v → v.isFinite = true) :
    (∀ v, (coerce (.listOf .floats) name store).attributes.get? name = some v →
        v.isFinite = true) ↔
      ∀ v, store.get? name = some v → ¬v.Overflows := by
  rcases coerce_cases (.listOf .floats) name store with ⟨held, eq⟩ | ⟨value, fault, held, error, eq⟩ |
    ⟨value, coerced, held, ok, eq⟩
  · simp [eq, held]
  · have spared := Coercion.not_overflows_of_toFloats error
    simpa [eq, held, spared] using finite value held
  · have bounded := Coercion.isFinite_of_toFloats (finite value held) ok
    simpa [eq, held, NameMap.get?_insert] using bounded

/-- The attributes that become lists of floats in operators of a type. -/
def floatLists (opType : String) : List String :=
  documented.flatMap fun d =>
    if d.form = .listOf .floats ∧ opType ∈ d.opTypes then d.names else []

theorem mem_floatLists_iff {name opType : String} :
    name ∈ floatLists opType ↔
      ∃ d ∈ documented, d.form = .listOf .floats ∧ opType ∈ d.opTypes ∧ name ∈ d.names := by
  simp only [floatLists, List.mem_flatMap]
  refine exists_congr fun d => and_congr_right fun _ => ?_
  split <;> simp_all

namespace Rule

/-- Whether a rule makes floats only under some names, and takes none away from these. -/
def floatsWithin (names : List String) : Rule → Bool
  | coerce (.listOf .floats) name => names.contains name
  | rename source _ => !names.contains source
  | _ => true

variable {names : List String}

theorem plain_finite (names : List String) :
    Plain fun name value => name ∈ names ∨ value.isFinite = true where
  int _ _ := .inr rfl
  ints _ ns := .inr (by simp [Value.ints, Value.isFinite, Scalar.isFinite])
  text _ _ := .inr rfl

theorem keeps_finite {r : Rule} (sets : r.setsIntegers) (within : r.floatsWithin names) :
    r.Keeps fun name value => name ∈ names ∨ value.isFinite = true := by
  cases r with
  | coerce c name =>
    intro value coerced finite ok
    cases c with
    | list =>
      refine finite.imp_right fun finite => ?_
      cases value with
      | scalar s =>
        cases ok
        exact List.all_eq_true.mpr (List.forall_mem_singleton.mpr finite)
      | list elements =>
        cases ok
        exact finite
      | payload p => cases ok
    | integer =>
      obtain ⟨n, rfl⟩ := Coercion.toInteger_eq_ok ok
      exact .inr rfl
    | listOf form =>
      cases form with
      | floats => exact .inl (List.contains_iff_mem.mp within)
      | integers =>
        obtain ⟨ns, rfl⟩ := Coercion.toListOf_integers ok
        exact (plain_finite names).ints name ns
      | texts =>
        obtain ⟨_, out, _, read, rfl⟩ := Coercion.toListOf_eq_ok_iff.mp ok
        refine .inr (List.all_eq_true.mpr fun e member => ?_)
        have text := (ListForm.reads_of_readAll read e member).holds
        cases e with
        | float x => cases text
        | _ => rfl
  | set name value => exact (plain_finite names).of_setsIntegers sets
  | rename source target =>
    have apart : source ∉ names := by simpa [floatsWithin] using within
    exact fun value finite => .inr (finite.resolve_left apart)
  | _ => trivial

/-- Rules leave all values finite except for what overflows on its way to a list of floats. -/
theorem isFinite_applyAll {rules : List Rule} (sets : ∀ r ∈ rules, r.setsIntegers)
    (within : ∀ r ∈ rules, r.floatsWithin names)
    (alone : ∀ name ∈ names, rules.filter (coerce (.listOf .floats) name).disturbs =
      [coerce (.listOf .floats) name])
    (finite : store.isFinite = true) :
    (applyAll node rules store).attributes.isFinite = true ↔
      ∀ name ∈ names, ∀ v, store.get? name = some v → ¬v.Overflows := by
  have values := store.isFinite_iff.mp finite
  have own {name : String} (member : name ∈ names) :
      (∀ v, (applyAll node rules store).attributes.get? name = some v → v.isFinite = true) ↔
        ∀ v, store.get? name = some v → ¬v.Overflows := by
    have touched : name ∈ (coerce (.listOf .floats) name).names := by
      simp [Rule.names, Rule.reads]
    obtain ⟨same, _⟩ := applyAll_alone (fun _ _ _ _ => trivial) (alone name member)
      (fun o _ apart => spares_unreadable node apart touched)
      (fun _ => List.mem_append_left _) store trivial trivial
    rw [same name touched]
    exact Outcome.isFinite_coerce_floats (values name)
  rw [Store.isFinite_iff]
  constructor
  · intro all name member
    exact (own member).mp (all name)
  · intro none name v held
    have kept := applyAll_all (plain_finite names)
      (fun r member => keeps_finite (sets r member) (within r member))
      (fun name v held => .inr (values name v held)) name v held
    exact kept.elim (fun member => (own member).mpr (none name member) v held) id

end Rule

theorem builtinRules_floats : ∀ s ∈ builtinRules,
    (∀ r ∈ s.rules, r.setsIntegers) ∧ (∀ r ∈ s.rules, r.floatsWithin (floatLists s.opType)) ∧
    ∀ name ∈ floatLists s.opType, s.rules.filter (Rule.coerce (.listOf .floats) name).disturbs =
      [.coerce (.listOf .floats) name] := by
  decide +kernel

end Extender

/-- The built-in extenders keep a node finite unless a number in one of its lists of floats goes
beyond single precision. -/
theorem Registry.isFinite_extendNode {node : Node} (finite : node.isFinite = true) :
    (builtin.extendNode node).isFinite = true ↔
      ∀ name ∈ Extender.floatLists node.opType, ∀ v, node.attributes.get? name = some v →
        ¬v.Overflows := by
  unfold extendNode
  cases found : builtin.lookup node.opType with
  | none =>
    refine iff_of_true finite fun name member => ?_
    obtain ⟨d, documented, _, operates, _⟩ := Extender.mem_floatLists_iff.mp member
    obtain ⟨s, listed, same⟩ :=
      Extender.exists_ruleset_of_documented.1 d documented node.opType operates
    cases found.symm.trans (same ▸ lookup_builtin listed)
  | some e =>
    obtain ⟨member, same⟩ := mem_of_lookup_builtin found
    obtain ⟨⟨opType, rules⟩, listed, rfl⟩ := Extender.mem_builtins_iff.mp member
    obtain ⟨sets, within, alone⟩ := Extender.builtinRules_floats _ listed
    obtain rfl : opType = node.opType := same
    exact Extender.Rule.isFinite_applyAll sets within alone finite

end OperatorGraph
