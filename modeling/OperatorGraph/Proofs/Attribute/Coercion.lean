import OperatorGraph.Attribute.Store
import OperatorGraph.Proofs.Binary.Conversion
import OperatorGraph.Proofs.NameMap
import OperatorGraph.Proofs.Text.Items
import OperatorGraph.Proofs.Traversal

/-!
Coercions a second time. Whatever a coercion makes of a value, it leaves that as it is.
-/

namespace OperatorGraph.Attribute

namespace ListForm

/-- The elements that a form reads are the ones that it reads as themselves. -/
def Reads (form : ListForm) (s : Scalar) : Prop := form.read s = some [s]

theorem reads_integer (n : Int64) : integers.Reads (.int n) := rfl

theorem reads_float (x : Binary32) : floats.Reads (float x) := by
  simp only [Reads, read, float, readFloat]
  rw [show x.widen.narrow.widen = x.widen from x.widen_narrow_widen]

theorem reads_item {item : List Char} (h : Text.IsItem item) (nonempty : item ≠ []) :
    texts.Reads (.text (String.ofList item)) := by
  simp [Reads, read, readText, h.items_eq nonempty, nonempty]

theorem reads_of_read {form : ListForm} {s e : Scalar} {es : List Scalar}
    (h : form.read s = some es) (member : e ∈ es) : form.Reads e := by
  cases form with
  | integers =>
    cases s with
    | int n =>
      cases Option.some.inj h
      cases List.mem_singleton.mp member
      exact reads_integer n
    | bool b =>
      cases Option.some.inj h
      cases List.mem_singleton.mp member
      exact reads_integer _
    | float x => cases h
    | text s =>
      obtain ⟨item, _, read⟩ := mem_of_mapM h member
      obtain ⟨n, _, rfl⟩ := Option.map_eq_some_iff.mp read
      exact reads_integer n
  | floats =>
    cases s with
    | int n =>
      cases Option.some.inj h
      cases List.mem_singleton.mp member
      exact reads_float _
    | float x =>
      cases Option.some.inj h
      cases List.mem_singleton.mp member
      exact reads_float _
    | bool b => cases h
    | text s =>
      obtain ⟨item, _, read⟩ := mem_of_mapM h member
      obtain ⟨numeral, _, rfl⟩ := Option.map_eq_some_iff.mp read
      exact reads_float _
  | texts =>
    cases s with
    | text s =>
      obtain ⟨item, listed, read⟩ := mem_of_mapM h member
      split at read
      · cases read
      · rename_i nonempty
        cases Option.some.inj read
        exact reads_item (Text.isItem_of_mem_items listed) nonempty
    | int n => cases h
    | float x => cases h
    | bool b => cases h

theorem readAll_of_reads {form : ListForm} {es : List Scalar} (h : ∀ e ∈ es, form.Reads e) :
    form.readAll es = .ok es := by
  induction es with
  | nil => rfl
  | cons e rest ih =>
    have first : form.read e = some [e] := h e List.mem_cons_self
    rw [readAll, first, ih fun e' later => h e' (List.mem_cons_of_mem e later)]
    rfl

theorem reads_of_readAll {form : ListForm} {es out : List Scalar} (h : form.readAll es = .ok out) :
    ∀ e ∈ out, form.Reads e := by
  induction es generalizing out with
  | nil =>
    cases h
    simp
  | cons e rest ih =>
    rw [readAll] at h
    split at h
    · cases h
    · rename_i first read
      cases tail : form.readAll rest with
      | error element =>
        rw [tail] at h
        cases h
      | ok others =>
        rw [tail] at h
        cases h
        intro e' member
        rcases List.mem_append.mp member with here | later
        · exact reads_of_read read here
        · exact ih tail e' later

theorem readAll_eq_ok_iff {form : ListForm} {ss out : List Scalar} :
    form.readAll ss = .ok out ↔
      ∃ ess, List.Forall₂ (fun s es => form.read s = some es) ss ess ∧ out = ess.flatten := by
  induction ss generalizing out with
  | nil => simp [readAll, eq_comm]
  | cons s rest ih =>
    rw [readAll]
    cases first : form.read s with
    | none => simp [List.forall₂_cons_left_iff, first]
    | some es =>
      simp only [map_except_eq_ok_iff, ih, List.forall₂_cons_left_iff, first]
      constructor
      · rintro ⟨_, ⟨ess, others, rfl⟩, rfl⟩
        exact ⟨es :: ess, ⟨es, ess, rfl, others, rfl⟩, rfl⟩
      · rintro ⟨_, ⟨_, ess, ⟨⟩, others, rfl⟩, rfl⟩
        exact ⟨_, ⟨ess, others, rfl⟩, rfl⟩

theorem readAll_cons_none {form : ListForm} {s : Scalar} (rest : List Scalar)
    (h : form.read s = none) : form.readAll (s :: rest) = .error s := by
  simp [readAll, h]

theorem readAll_cons_some {form : ListForm} {s : Scalar} {es : List Scalar} (rest : List Scalar)
    (h : form.read s = some es) :
    form.readAll (s :: rest) = (form.readAll rest).map (es ++ ·) := by
  simp [readAll, h]

/-- The first scalar that stands for nothing fails the whole. -/
theorem readAll_eq_error_iff {form : ListForm} {ss : List Scalar} {failed : Scalar} :
    form.readAll ss = .error failed ↔ ∃ before after, ss = before ++ failed :: after ∧
      (∀ s ∈ before, ∃ es, form.read s = some es) ∧ form.read failed = none := by
  induction ss with
  | nil => simp [readAll]
  | cons s rest ih =>
    constructor
    · intro fails
      cases first : form.read s with
      | none =>
        rw [readAll_cons_none rest first] at fails
        cases fails
        exact ⟨[], rest, rfl, by simp, first⟩
      | some es =>
        rw [readAll_cons_some rest first, map_except_eq_error_iff, ih] at fails
        obtain ⟨before, after, rfl, readable, none⟩ := fails
        exact ⟨s :: before, after, rfl, List.forall_mem_cons.mpr ⟨⟨es, first⟩, readable⟩, none⟩
    · rintro ⟨before, after, split, readable, none⟩
      cases before with
      | nil =>
        cases split
        exact readAll_cons_none rest none
      | cons b before =>
        cases split
        obtain ⟨⟨es, first⟩, others⟩ := List.forall_mem_cons.mp readable
        rw [readAll_cons_some _ first, map_except_eq_error_iff, ih]
        exact ⟨before, after, rfl, others, none⟩

end ListForm

namespace Coercion

theorem toListOf_eq_ok_iff {form : ListForm} {name : String} {value coerced : Value} :
    toListOf form name value = .ok coerced ↔
      ∃ es out, elements name value = .ok es ∧ form.readAll es = .ok out ∧ coerced = .list out := by
  unfold toListOf
  cases elements name value with
  | error fault => simp [bind, Except.bind]
  | ok es =>
    cases read : form.readAll es <;> simp [bind, Except.bind, read, eq_comm]

/-- Integers in a list are read as they are. -/
theorem toListOf_ints (name : String) (ns : List Int64) :
    toListOf .integers name (.ints ns) = .ok (.ints ns) := by
  refine toListOf_eq_ok_iff.mpr ⟨_, _, rfl, ListForm.readAll_of_reads fun e member => ?_, rfl⟩
  obtain ⟨n, _, rfl⟩ := List.mem_map.mp member
  exact ListForm.reads_integer n

theorem toInteger_eq_ok {name : String} {value coerced : Value}
    (h : toInteger name value = .ok coerced) : ∃ n, coerced = .int n := by
  unfold toInteger at h
  split at h
  · exact ⟨_, (Except.ok.inj h).symm⟩
  · exact ⟨_, (Except.ok.inj h).symm⟩
  · split at h
    · exact ⟨_, (Except.ok.inj h).symm⟩
    · cases h
  · cases h

theorem apply_apply {c : Coercion} {name : String} {value coerced : Value}
    (h : c.apply name value = .ok coerced) : c.apply name coerced = .ok coerced := by
  cases c with
  | list =>
    cases value <;> cases h <;> rfl
  | integer =>
    obtain ⟨n, rfl⟩ := toInteger_eq_ok h
    rfl
  | listOf form =>
    obtain ⟨es, out, _, read, rfl⟩ := toListOf_eq_ok_iff.mp h
    exact toListOf_eq_ok_iff.mpr
      ⟨out, out, rfl, ListForm.readAll_of_reads (ListForm.reads_of_readAll read), rfl⟩

end Coercion

end OperatorGraph.Attribute
