import OperatorGraph.Proofs.Wire.Field
import OperatorGraph.Proofs.Wire.Group
import OperatorGraph.Proofs.Wire.Spelling

/-!
How a field of many numbers may be laid out: each number in a record of its own, or runs of them
packed in one record, in any mixture and with other fields between them. What is read depends on the
numbers and the other fields alone.
-/

namespace OperatorGraph.Wire

/-- How one number of a repeated field is written. -/
inductive NumberForm where
  | varint
  | fixed32
deriving DecidableEq

namespace NumberForm

abbrev Element : NumberForm → Type
  | varint => UInt64
  | fixed32 => UInt32

/-- The content of a record for one number. -/
def content : (form : NumberForm) → form.Element → Content
  | varint => .varint
  | fixed32 => .fixed32

/-- The bytes of one number in a packed run. -/
def Spells : (form : NumberForm) → form.Element → List UInt8 → Prop
  | varint => IsVarint
  | fixed32 => fun n bytes => bytes = writeFixed 4 n.toNat

def numbers? : (form : NumberForm) → Content → Option (List form.Element)
  | varint => Content.varints?
  | fixed32 => Content.fixed32s?

theorem readFixed32_eq_some_iff {n : UInt32} {input rest : List UInt8} :
    Content.readFixed32 input = some (n, rest) ↔
      ∃ bytes, bytes = writeFixed 4 n.toNat ∧ input = bytes ++ rest := by
  constructor
  · intro h
    obtain ⟨⟨m, rest'⟩, read, eq⟩ := Option.map_eq_some_iff.mp h
    cases eq
    obtain ⟨small, eq⟩ := readFixed_eq_some_iff.mp read
    have same : m.toUInt32.toNat = m := Nat.mod_eq_of_lt small
    exact ⟨_, rfl, same.symm ▸ eq⟩
  · rintro ⟨_, rfl, rfl⟩
    exact Content.readFixed32_write n rest

theorem numbers?_bytes (form : NumberForm) {run : List UInt8} {ns : List form.Element} :
    form.numbers? (.bytes run) = some ns ↔ Series form.Spells ns run := by
  cases form with
  | varint => exact Series.unpackWithin readVarint_eq_some_iff fun spelled => spelled.bits.ne_nil
  | fixed32 =>
    refine Series.unpackWithin readFixed32_eq_some_iff fun spelled => ?_
    rw [spelled]
    exact Content.writeFixed32_ne_nil _

/-- A record holds one number or a packed run of them. -/
theorem numbers?_eq_some_iff (form : NumberForm) {c : Content} {ns : List form.Element} :
    form.numbers? c = some ns ↔
      (∃ n, c = form.content n ∧ ns = [n]) ∨
        ∃ run, c = .bytes run ∧ Series form.Spells ns run := by
  cases c with
  | bytes run =>
    rw [numbers?_bytes]
    cases form <;> simp [content]
  | varint n =>
    cases form <;>
      simp [numbers?, content, Content.varints?, Content.varint?, Content.fixed32s?,
        Content.fixed32?, eq_comm]
  | fixed32 n =>
    cases form <;>
      simp [numbers?, content, Content.varints?, Content.varint?, Content.fixed32s?,
        Content.fixed32?, eq_comm]
  | _ =>
    cases form <;>
      simp [numbers?, content, Content.varints?, Content.varint?, Content.fixed32s?,
        Content.fixed32?]

end NumberForm

/-- A message laid out from fields of other numbers and the numbers of one field. -/
inductive Laid (numbers : List Nat) (number : Nat) (form : NumberForm) :
    Message → List form.Element → Message → Prop
  | nil : Laid numbers number form [] [] []
  | other {depth n : Nat} {field others m : Message} {ns : List form.Element}
      (whole : IsField depth n field) (apart : n ≠ number) (plain : n ∈ numbers → field.length = 1)
      (rest : Laid numbers number form others ns m) :
      Laid numbers number form (field ++ others) ns (field ++ m)
  | single {others m : Message} {ns : List form.Element} (n : form.Element)
      (rest : Laid numbers number form others ns m) :
      Laid numbers number form others (n :: ns) (⟨number, form.content n⟩ :: m)
  | packed {others m : Message} {ns ns' : List form.Element} {run : List UInt8}
      (spelled : Series form.Spells ns run) (rest : Laid numbers number form others ns' m) :
      Laid numbers number form others (ns ++ ns') (⟨number, .bytes run⟩ :: m)

/-- What is kept of a layout, beside what is kept of the other fields alone. -/
structure Merged (number : Nat) (form : NumberForm) (ns : List form.Element) (kept others : Message) :
    Prop where
  others : ∀ other ≠ number, kept.contents other = others.contents other
  numbers : ((kept.contents number).mapM form.numbers?).map List.flatten = some ns

namespace Merged

variable {number : Nat} {form : NumberForm} {ns : List form.Element} {kept others : Message}

theorem nil : Merged number form [] [] [] := ⟨fun _ _ => rfl, rfl⟩

theorem other (h : Merged number form ns kept others) {field : Message}
    (apart : field.contents number = []) : Merged number form ns (field ++ kept) (field ++ others) where
  others other ne := by rw [Message.contents_append, Message.contents_append, h.others other ne]
  numbers := by rw [Message.contents_append, apart, List.nil_append, h.numbers]

theorem record (h : Merged number form ns kept others) {c : Content} {first : List form.Element}
    (read : form.numbers? c = some first) :
    Merged number form (first ++ ns) (⟨number, c⟩ :: kept) others where
  others other ne := by rw [Message.contents_cons, if_neg ne.symm, h.others other ne]
  numbers := by
    obtain ⟨nss, reads, rfl⟩ := Option.map_eq_some_iff.mp h.numbers
    rw [Message.contents_cons, if_pos rfl]
    simp only [List.mapM_cons, read, reads, Option.pure_def, Option.bind_eq_bind, Option.bind_some,
      Option.map_some, List.flatten_cons]

end Merged

/-- Whether a message is taken exactly if the other fields are, and then as these and the numbers. -/
structure Alike (numbers : List Nat) (levels number : Nat) (form : NumberForm)
    (ns : List form.Element) (m others : Message) : Prop where
  apart {kept : Message} : Walk numbers.contains levels [] m [] kept →
    ∃ kept', Walk numbers.contains levels [] others [] kept' ∧ Merged number form ns kept kept'
  together {kept' : Message} : Walk numbers.contains levels [] others [] kept' →
    ∃ kept, Walk numbers.contains levels [] m [] kept ∧ Merged number form ns kept kept'

namespace Alike

variable {numbers : List Nat} {number : Nat} {form : NumberForm} {levels : Nat}
variable {others m : Message} {ns : List form.Element}

theorem nil : Alike numbers levels number form [] [] [] where
  apart walk := by
    obtain ⟨_, rfl⟩ := Walk.nil_iff.mp walk
    exact ⟨[], .nil, .nil⟩
  together walk := by
    obtain ⟨_, rfl⟩ := Walk.nil_iff.mp walk
    exact ⟨[], .nil, .nil⟩

theorem other (h : Alike numbers levels number form ns m others) {depth n : Nat} {field : Message}
    (whole : IsField depth n field)
    (none : ∀ {kept}, Walk numbers.contains levels [] field [] kept → kept.contents number = []) :
    Alike numbers levels number form ns (field ++ m) (field ++ others) where
  apart walk := by
    obtain ⟨_, _, _, first, rest, rfl⟩ := Walk.append_iff.mp walk
    obtain ⟨rfl, _⟩ := whole.walk first
    obtain ⟨kept', walk', merged⟩ := h.apart rest
    exact ⟨_, Walk.append_iff.mpr ⟨_, _, _, first, walk', rfl⟩, merged.other (none first)⟩
  together walk := by
    obtain ⟨_, _, _, first, rest, rfl⟩ := Walk.append_iff.mp walk
    obtain ⟨rfl, _⟩ := whole.walk first
    obtain ⟨kept, walk', merged⟩ := h.together rest
    exact ⟨_, Walk.append_iff.mpr ⟨_, _, _, first, walk', rfl⟩, merged.other (none first)⟩

theorem record (h : Alike numbers levels number form ns m others) (declared : number ∈ numbers)
    {c : Content} {first : List form.Element} (read : form.numbers? c = some first) :
    Alike numbers levels number form (first ++ ns) (⟨number, c⟩ :: m) others where
  apart walk := by
    obtain ⟨rest, inner, rfl⟩ := walk.of_declared (List.contains_iff_mem.mpr declared)
    obtain ⟨kept', walk', merged⟩ := h.apart inner
    exact ⟨kept', walk', merged.record read⟩
  together walk := by
    obtain ⟨kept, walk', merged⟩ := h.together walk
    exact ⟨_, .cons (.keep (List.contains_iff_mem.mpr declared)) walk', merged.record read⟩

end Alike

namespace Laid

variable {numbers : List Nat} {number : Nat} {form : NumberForm} {levels : Nat}
variable {others m : Message} {ns : List form.Element}

/-- What is kept of a field of another number stands under no field of this number. -/
theorem contents_of_other {depth n : Nat} {field kept : Message} (whole : IsField depth n field)
    (apart : n ≠ number) (plain : n ∈ numbers → field.length = 1)
    (walk : Walk numbers.contains levels [] field [] kept) : kept.contents number = [] := by
  by_cases declared : n ∈ numbers
  · have single := plain declared
    cases whole with
    | @record _ r whole =>
      have within := (Message.declared_spec (declared_eq_some_iff.mpr walk)).1.subset
      refine Field.contents_of_ne (fun r' member => ?_) apart
      rw [List.mem_singleton.mp (within member)]
      exact List.mem_singleton_self _
    | group =>
      simp only [List.length_cons, List.length_append] at single
      omega
  · rw [(whole.walk walk).2 fun _ => by simpa using declared]
    rfl

theorem alike (declared : number ∈ numbers) (h : Laid numbers number form others ns m) :
    Alike numbers levels number form ns m others := by
  induction h with
  | nil => exact .nil
  | other whole apart plain _ ih => exact ih.other whole (contents_of_other whole apart plain)
  | single n _ ih => exact ih.record declared (form.numbers?_eq_some_iff.mpr (.inl ⟨n, rfl, rfl⟩))
  | packed spelled _ ih =>
    exact ih.record declared (form.numbers?_eq_some_iff.mpr (.inr ⟨_, rfl, spelled⟩))

/-- Every message that is taken is laid out in some way, if no group is kept of it and the numbers
of the field can be read. -/
theorem exists_of_walk {kept : Message} (declared : number ∈ numbers)
    (walk : Walk numbers.contains levels [] m [] kept)
    (whole : ∀ r ∈ kept, ¬r.content.IsGroupMark)
    (numbered : ∀ c ∈ kept.contents number, ∃ ns, form.numbers? c = some ns) :
    ∃ others ns, Laid numbers number form others ns m := by
  induction size : m.length using Nat.strong_induction_on generalizing m kept with
  | _ size ih =>
  cases m with
  | nil => exact ⟨[], [], .nil⟩
  | cons r m =>
    obtain ⟨_, _, _, step, rest, rfl⟩ := Walk.cons_iff.mp walk
    rw [List.length_cons] at size
    cases step with
    | keep isIn =>
      obtain ⟨others, ns, laid⟩ := ih _ (by omega) rest
        (fun r' later => whole r' (List.mem_cons_of_mem _ later))
        (fun c later => numbered c (by
          rw [Message.contents_append]
          exact List.mem_append_right _ later)) rfl
      by_cases same : r.number = number
      · obtain ⟨number', c⟩ := r
        cases same
        obtain ⟨first, read⟩ := numbered c (by simp [Message.contents_cons])
        rcases form.numbers?_eq_some_iff.mp read with ⟨n, rfl, _⟩ | ⟨run, rfl, spelled⟩
        · exact ⟨others, n :: ns, .single n laid⟩
        · exact ⟨others, first ++ ns, .packed spelled laid⟩
      · have field : IsField 1 r.number [r] := .record (whole r List.mem_cons_self)
        exact ⟨[r] ++ others, ns, .other field same (fun _ => rfl) laid⟩
    | skip undeclared _ notGroup =>
      obtain ⟨others, ns, laid⟩ := ih _ (by omega) rest whole numbered rfl
      have field : IsField 1 r.number [r] := .record notGroup
      have apart : r.number ≠ number := fun same =>
        undeclared rfl (same ▸ List.contains_iff_mem.mpr declared)
      exact ⟨[r] ++ others, ns, .other field apart (fun _ => rfl) laid⟩
    | @enter _ n undeclared =>
      obtain ⟨inside, after, rfl, fields, walk'⟩ := rest.exists_end
      simp only [List.length_append, List.length_cons] at size
      obtain ⟨others, ns, laid⟩ := ih _ (by omega) walk' whole numbered rfl
      have field : IsField _ n _ := .group fields
      have apart : n ≠ number := fun same =>
        undeclared rfl (same ▸ List.contains_iff_mem.mpr declared)
      have notIn : n ∉ numbers := fun isIn => undeclared rfl (List.contains_iff_mem.mpr isIn)
      have laid' := Laid.other field apart (fun isIn => absurd isIn notIn) laid
      exact ⟨_, ns, by simpa using laid'⟩

end Laid

end OperatorGraph.Wire
