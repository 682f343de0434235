import OperatorGraph.Proofs.Extender.Idempotence
import OperatorGraph.Proofs.Graph.Sameness

/-!
Rules do the same to attributes that are the same: they read nothing that tells one zero or one NaN
from another. Only the text of a fault may differ.
-/

namespace OperatorGraph

theorem Binary.Number.Same.convert {f g : Format} {x y : Number f} (h : x.Same y)
    (quiet : 0 < g.fractionBits) (ordinary : 0 < f.infinity) :
    (x.convert g).Same (y.convert g) := by
  rcases h with agree | ⟨nan, nan'⟩
  · obtain ⟨number, number', same⟩ := agrees_iff.mp agree
    refine .inl (agrees_iff.mpr ⟨?_, ?_, ?_⟩)
    · rw [isNaN_convert quiet, number]
    · rw [isNaN_convert quiet, number']
    · rcases same with rfl | ⟨zero, zero'⟩
      · exact .inl rfl
      · exact .inr ⟨isZero_convert ordinary zero, isZero_convert ordinary zero'⟩
  · refine .inr ⟨?_, ?_⟩
    · rw [isNaN_convert quiet, nan]
    · rw [isNaN_convert quiet, nan']

namespace Attribute

/-- Two results that are related, or two failures for whatever reasons. -/
inductive BothGive {ε α : Type} (r : α → α → Prop) : Except ε α → Except ε α → Prop
  | error (e e' : ε) : BothGive r (.error e) (.error e')
  | ok {a b : α} (related : r a b) : BothGive r (.ok a) (.ok b)

theorem BothGive.refl {ε α : Type} {r : α → α → Prop} (h : ∀ a, r a a) (x : Except ε α) :
    BothGive r x x := by
  cases x with
  | error e => exact .error e e
  | ok a => exact .ok (h a)

theorem BothGive.map {ε α β : Type} {r : α → α → Prop} {s : β → β → Prop} {f f' : α → β}
    {x y : Except ε α} (h : BothGive r x y) (step : ∀ a b, r a b → s (f a) (f' b)) :
    BothGive s (x.map f) (y.map f') := by
  cases h with
  | error e e' => exact .error e e'
  | ok related => exact .ok (step _ _ related)

namespace ListForm

theorem read_same (form : ListForm) {s t : Scalar} (h : s.Same t) :
    Option.Rel (List.Forall₂ Scalar.Same) (form.read s) (form.read t) := by
  rcases Scalar.same_cases h with rfl | ⟨x, y, rfl, rfl, same⟩
  · cases form.read s with
    | none => exact .none
    | some es => exact .some (List.forall₂_same.mpr fun e _ => .refl e)
  · cases form with
    | integers => exact .none
    | floats =>
      have single : Binary.Number.Same (Binary64.narrow x) (Binary64.narrow y) :=
        same.convert (by decide) (by decide)
      have double : Scalar.Same (float x.narrow) (float y.narrow) :=
        single.convert (by decide) (by decide)
      exact .some (.cons double .nil)
    | texts => exact .none

theorem readAll_same (form : ListForm) {es es' : List Scalar}
    (h : List.Forall₂ Scalar.Same es es') :
    BothGive (List.Forall₂ Scalar.Same) (form.readAll es) (form.readAll es') := by
  induction h with
  | nil => exact .ok .nil
  | @cons e e' rest rest' first _ ih =>
    have firsts := read_same form first
    rw [readAll, readAll]
    generalize form.read e = read at firsts
    generalize form.read e' = read' at firsts
    cases firsts with
    | none => exact .error e e'
    | some related =>
      apply ih.map
      intro _ _ others
      exact List.rel_append related others

end ListForm

namespace Coercion

theorem toListOf_same {form : ListForm} {name : String} {v w : Value}
    (h : BothGive (List.Forall₂ Scalar.Same) (elements name v) (elements name w)) :
    BothGive Value.Same (toListOf form name v) (toListOf form name w) := by
  unfold toListOf
  generalize elements name v = es at h
  generalize elements name w = es' at h
  cases h with
  | error fault fault' => exact .error fault fault'
  | ok related =>
    have reads := ListForm.readAll_same form related
    simp only [bind, Except.bind]
    generalize form.readAll _ = read at reads
    generalize form.readAll _ = read' at reads
    cases reads with
    | error e e' => exact .error _ _
    | ok related => exact .ok related

theorem elements_same {v w : Value} (h : v.Same w) (name : String) :
    BothGive (List.Forall₂ Scalar.Same) (elements name v) (elements name w) := by
  rcases Value.same_cases h with rfl | ⟨s, t, rfl, rfl, same⟩ | ⟨ss, ts, rfl, rfl, same⟩
  · exact .refl (fun es => List.forall₂_same.mpr fun s _ => .refl s) _
  · exact .ok (.cons same .nil)
  · exact .ok same

theorem apply_same {c : Coercion} {v w : Value} (h : v.Same w) (name : String) :
    BothGive Value.Same (c.apply name v) (c.apply name w) := by
  have listed := elements_same h name
  cases c with
  | list => exact listed.map fun _ _ same => same
  | integer =>
    rcases Value.same_cases h with rfl | ⟨s, t, rfl, rfl, same⟩ | ⟨ss, ts, rfl, rfl, _⟩
    · exact .refl Value.Same.refl _
    · rcases Scalar.same_cases same with rfl | ⟨x, y, rfl, rfl, _⟩
      · exact .refl Value.Same.refl _
      · exact .error _ _
    · exact .error _ _
  | listOf form => exact toListOf_same listed

end Coercion

theorem mapM_int?_same {ss ts : List Scalar} (h : List.Forall₂ Scalar.Same ss ts) :
    ss.mapM Scalar.int? = ts.mapM Scalar.int? := by
  induction h with
  | nil => rfl
  | @cons s t _ _ first _ ih =>
    have same : s.int? = t.int? := by
      rcases Scalar.same_cases first with rfl | ⟨x, y, rfl, rfl, _⟩ <;> rfl
    rw [List.mapM_cons, List.mapM_cons, same, ih]

namespace Store.Same

variable {a b : Store} (h : a.Same b)
include h

theorem insert {v w : Value} (same : v.Same w) (name : String) :
    Store.Same (a.insert name v) (b.insert name w) := by
  apply Store.same_iff.mpr
  intro other
  rw [NameMap.get?_insert, NameMap.get?_insert]
  split
  · exact .some same
  · exact Store.same_iff.mp h other

theorem rename (source target : String) :
    Store.Same (a.rename source target) (b.rename source target) := by
  have held := Store.same_iff.mp h source
  unfold Store.rename
  generalize a.get? source = v at held
  generalize b.get? source = w at held
  cases held with
  | none => exact h
  | some same =>
    refine insert (Store.same_iff.mpr fun other => ?_) same target
    rw [NameMap.get?_erase, NameMap.get?_erase]
    split
    · exact .none
    · exact Store.same_iff.mp h other

/-- Where two stores with the same values differ, they hold floats, alone or in lists. -/
theorem get?_cases (name : String) :
    a.get? name = b.get? name ∨
      (∃ x y : Binary64, a.get? name = some (.scalar (.float x)) ∧
        b.get? name = some (.scalar (.float y))) ∨
      ∃ ss ts, a.get? name = some (.list ss) ∧ b.get? name = some (.list ts) ∧
        List.Forall₂ Scalar.Same ss ts := by
  have held := Store.same_iff.mp h name
  generalize a.get? name = v at held
  generalize b.get? name = w at held
  cases held with
  | none => exact .inl rfl
  | some same =>
    rcases Value.same_cases same with rfl | ⟨s, t, rfl, rfl, same⟩ | ⟨ss, ts, rfl, rfl, same⟩
    · exact .inl rfl
    · rcases Scalar.same_cases same with rfl | ⟨x, y, rfl, rfl, _⟩
      · exact .inl rfl
      · exact .inr (.inl ⟨x, y, rfl, rfl⟩)
    · exact .inr (.inr ⟨ss, ts, rfl, rfl, same⟩)

theorem isBlank_eq (name : String) :
    Extender.Rule.isBlank (a.get? name) = Extender.Rule.isBlank (b.get? name) := by
  rcases h.get?_cases name with same | ⟨x, y, left, right⟩ | ⟨ss, ts, left, right, _⟩
  · rw [same]
  · rw [left, right]
    rfl
  · rw [left, right]
    rfl

theorem text?_eq (name : String) : a.text? name = b.text? name := by
  rcases h.get?_cases name with same | ⟨x, y, left, right⟩ | ⟨ss, ts, left, right, _⟩
  · rw [text?, text?, same]
  · rw [text?, text?, left, right]
  · rw [text?, text?, left, right]

theorem int?_eq (name : String) : a.int? name = b.int? name := by
  rcases h.get?_cases name with same | ⟨x, y, left, right⟩ | ⟨ss, ts, left, right, _⟩
  · rw [int?, int?, same]
  · rw [int?, int?, left, right]
  · rw [int?, int?, left, right]

theorem ints?_eq (name : String) : a.ints? name = b.ints? name := by
  rcases h.get?_cases name with same | ⟨x, y, left, right⟩ | ⟨ss, ts, left, right, same⟩
  · rw [ints?, ints?, same]
  · rw [ints?, ints?, left, right]
  · simp only [ints?, left, right, mapM_int?_same same]

end Store.Same

end Attribute

namespace Extender

open Attribute

theorem Outcome.coerce_same (c : Coercion) (name : String) {a b : Store} (h : a.Same b) :
    (coerce c name a).attributes.Same (coerce c name b).attributes := by
  have held := Store.same_iff.mp h name
  rw [coerce_attributes, coerce_attributes]
  generalize a.get? name = v at held
  generalize b.get? name = w at held
  cases held with
  | none => exact h
  | @some v w same =>
    have applied := Coercion.apply_same (c := c) same name
    dsimp only
    generalize c.apply name v = x at applied
    generalize c.apply name w = y at applied
    cases applied with
    | error fault fault' => exact h
    | ok same => exact h.insert same name

namespace Rule

variable {node node' : Node}

/-- What a rule gives is the same for attributes that are the same. -/
theorem apply_same (r : Rule) (outputs : node.outputs = node'.outputs) {a b : Store}
    (h : a.Same b) : (r.apply node a).attributes.Same (r.apply node' b).attributes := by
  cases r with
  | coerce c name => exact Outcome.coerce_same c name h
  | mask name =>
    simp only [apply, applyMask_eq, h.isBlank_eq]
    split
    · exact h.insert (.refl _) name
    · exact Outcome.coerce_same _ name h
  | shape name =>
    simp only [apply, applyShape_eq, h.text?_eq]
    split
    · split
      · exact h.insert (.refl _) name
      · exact h
    · exact Outcome.coerce_same _ name h
  | elementType source target required =>
    rw [apply, apply, nameElementType_attributes, nameElementType_attributes, h.text?_eq]
    cases (b.text? source).bind ElementType.ofName? with
    | none => exact h
    | some t => exact h.insert (.refl _) target
  | rename source target => exact h.rename source target
  | set name value => exact h.insert (.refl value) name
  | flagUnusedOutput name =>
    simp only [apply, outputs]
    split
    · exact h.insert (.refl _) name
    · exact h
  | perDimension name =>
    rw [apply, apply, applyPerDimension_attributes, applyPerDimension_attributes, h.int?_eq]
    cases b.int? name with
    | none => exact h
    | some n => exact h.insert (.refl _) name
  | fullRank source target leading =>
    simp only [apply, applyFullRank, h.ints?_eq]
    split
    · exact h.insert (.refl _) target
    · exact h
  | pads first last target dimensions =>
    simp only [apply, applyPads, h.ints?_eq]
    split
    · split
      · exact (h.insert (.refl _) target).insert (.refl _) dimensions
      · exact h
    · exact h

theorem applyAll_same (rules : List Rule) (outputs : node.outputs = node'.outputs) {a b : Store}
    (h : a.Same b) :
    (applyAll node rules a).attributes.Same (applyAll node' rules b).attributes := by
  induction rules generalizing a b with
  | nil => exact h
  | cons r rest ih =>
    rw [applyAll_cons, applyAll_cons]
    exact ih (apply_same r outputs h)

end Rule

theorem builtins_same {e : Extender} (member : e ∈ builtins) {node node' : Node}
    (h : node.Same node') : (e.extend node).attributes.Same (e.extend node').attributes := by
  obtain ⟨s, _, rfl⟩ := mem_builtins_iff.mp member
  exact Rule.applyAll_same s.rules (congrArg Node.outputs h.1) h.2

end Extender

end OperatorGraph
