import OperatorGraph.Proofs.Onnx.Declared
import OperatorGraph.Proofs.Onnx.MessageType
import OperatorGraph.Proofs.Wire.Packing

/-!
Bytes laid out by another producer are read alike: with fields between them that are not declared,
and with the numbers of a repeated field packed, alone, or mixed.
-/

namespace OperatorGraph.Onnx

open Wire

/-- Bytes in which the numbers of one field are laid out among other fields. -/
def Layout (numbers : List Nat) (number : Nat) (form : NumberForm) (others : Message)
    (ns : List form.Element) (bytes : List UInt8) : Prop :=
  ∃ m : Message, m.Spells bytes ∧ Laid numbers number form others ns m

/-- Whether messages hold the same numbers in one field and the same contents in all others. -/
structure AgreeBut (number : Nat) (form : NumberForm) (m m' : Message) : Prop where
  others : ∀ other ≠ number, m.contents other = m'.contents other
  numbers : ((m.contents number).mapM form.numbers?).map List.flatten =
    ((m'.contents number).mapM form.numbers?).map List.flatten

theorem Layout.readDeclared {numbers : List Nat} {levels number : Nat} {form : NumberForm}
    {others kept : Message} {ns : List form.Element} {bytes bytes' : List UInt8}
    (declared : number ∈ numbers) (h : Layout numbers number form others ns bytes)
    (h' : Layout numbers number form others ns bytes')
    (read : readDeclared numbers levels bytes = some kept) :
    ∃ kept', readDeclared numbers levels bytes' = some kept' ∧ AgreeBut number form kept' kept := by
  obtain ⟨m, spells, walk⟩ := readDeclared_eq_some_iff.mp read
  obtain ⟨_, spells₁, laid⟩ := h
  cases spells₁.unique spells
  obtain ⟨m', spells', laid'⟩ := h'
  obtain ⟨middle, walked, merged⟩ := (laid.alike declared).apart walk
  obtain ⟨kept', walk', merged'⟩ := (laid'.alike declared).together walked
  refine ⟨kept', readDeclared_eq_some_iff.mpr ⟨m', spells', walk'⟩, ?_, ?_⟩
  · exact fun other ne => (merged'.others other ne).trans (merged.others other ne).symm
  · exact merged'.numbers.trans merged.numbers.symm

theorem AgreeBut.int64s? {number : Nat} {m m' : Message} (h : AgreeBut number .varint m m') :
    m.int64s? number = m'.int64s? number := by
  have numbers := congrArg (Option.map (List.map UInt64.toInt64)) h.numbers
  rw [Option.map_map, Option.map_map] at numbers
  exact numbers

theorem Tensor.ofMessage?_congr {m m' : Message} (h : AgreeBut 1 .varint m m') :
    ofMessage? m = ofMessage? m' := by
  simp only [ofMessage?, h.int64s?, Message.int32?, Message.varint?, Message.text?, Message.texts?,
    Message.bytes?, Message.eachBytes?, h.others 2 (by decide), h.others 8 (by decide),
    h.others 9 (by decide)]

theorem Attribute.ofMessage?_congr_floats {levels : Nat} {m m' : Message}
    (h : AgreeBut 7 .fixed32 m m') : ofMessage? levels m = ofMessage? levels m' := by
  have floats : m.fixed32s? 7 = m'.fixed32s? 7 := h.numbers
  simp only [ofMessage?_eq_readWith, readWith, floats, Message.int64s?, Message.int64?,
    Message.int32?, Message.varint?, Message.fixed32?, Message.text?, Message.texts?,
    Message.bytes?, Message.eachBytes?, h.others 1 (by decide), h.others 2 (by decide),
    h.others 3 (by decide), h.others 4 (by decide), h.others 5 (by decide), h.others 6 (by decide),
    h.others 8 (by decide), h.others 9 (by decide), h.others 13 (by decide),
    h.others 20 (by decide)]

theorem Attribute.ofMessage?_congr_ints {levels : Nat} {m m' : Message}
    (h : AgreeBut 8 .varint m m') : ofMessage? levels m = ofMessage? levels m' := by
  simp only [ofMessage?_eq_readWith, readWith, h.int64s?, Message.fixed32s?, Message.int64?,
    Message.int32?, Message.varint?, Message.fixed32?, Message.text?, Message.texts?,
    Message.bytes?, Message.eachBytes?, h.others 1 (by decide), h.others 2 (by decide),
    h.others 3 (by decide), h.others 4 (by decide), h.others 5 (by decide), h.others 6 (by decide),
    h.others 7 (by decide), h.others 9 (by decide), h.others 13 (by decide),
    h.others 20 (by decide)]

section Whole

variable {m : Message} {number : Nat}

/-- What can be read as a field holds no mark of a group. -/
theorem whole_of_mapM {α : Type} {read : Content → Option α} {as : List α}
    (h : (m.contents number).mapM read = some as) (noStart : read .groupStart = none)
    (noEnd : read .groupEnd = none) : ∀ c ∈ m.contents number, ¬c.IsGroupMark := by
  rintro c member (rfl | rfl)
  · obtain ⟨a, _, read⟩ := exists_of_mem_right (mapM_eq_some_iff.mp h).flip member
    rw [noStart] at read
    cases read
  · obtain ⟨a, _, read⟩ := exists_of_mem_right (mapM_eq_some_iff.mp h).flip member
    rw [noEnd] at read
    cases read

theorem whole_of_eachBytes? {contents : List (List UInt8)} (h : m.eachBytes? number = some contents) :
    ∀ c ∈ m.contents number, ¬c.IsGroupMark :=
  whole_of_mapM h rfl rfl

theorem whole_of_bytes? {content : List UInt8} (h : m.bytes? number = some content) :
    ∀ c ∈ m.contents number, ¬c.IsGroupMark := by
  obtain ⟨_, read, _⟩ := Option.map_eq_some_iff.mp h
  exact whole_of_eachBytes? read

theorem whole_of_text? {s : String} (h : m.text? number = some s) :
    ∀ c ∈ m.contents number, ¬c.IsGroupMark := by
  obtain ⟨_, read, _⟩ := Option.map_eq_some_iff.mp h
  exact whole_of_mapM read rfl rfl

theorem whole_of_varint? {n : UInt64} (h : m.varint? number = some n) :
    ∀ c ∈ m.contents number, ¬c.IsGroupMark := by
  obtain ⟨_, read, _⟩ := Option.map_eq_some_iff.mp h
  exact whole_of_mapM read rfl rfl

theorem whole_of_int64? {n : Int64} (h : m.int64? number = some n) :
    ∀ c ∈ m.contents number, ¬c.IsGroupMark := by
  obtain ⟨_, read, _⟩ := Option.map_eq_some_iff.mp h
  exact whole_of_varint? read

theorem whole_of_int32? {n : Int32} (h : m.int32? number = some n) :
    ∀ c ∈ m.contents number, ¬c.IsGroupMark := by
  obtain ⟨_, read, _⟩ := Option.map_eq_some_iff.mp h
  exact whole_of_varint? read

theorem whole_of_numbers {form : NumberForm} {nss : List (List form.Element)}
    (h : (m.contents number).mapM form.numbers? = some nss) :
    ∀ c ∈ m.contents number, ¬c.IsGroupMark := by
  cases form <;> exact whole_of_mapM h rfl rfl

end Whole

/-- The numbers of a field that have been read one record after the other. -/
theorem Tensor.exists_dims {m : Message} {x : Tensor} (h : ofMessage? m = some x) :
    ∃ nss, (m.contents 1).mapM NumberForm.varint.numbers? = some nss := by
  obtain ⟨nss, read, _⟩ := Option.map_eq_some_iff.mp (ofMessage?_eq_some_iff.mp h).dims
  exact ⟨nss, read⟩

theorem Tensor.whole {m : Message} {x : Tensor} (h : ofMessage? m = some x) :
    ∀ number ∈ numbers, ∀ c ∈ m.contents number, ¬c.IsGroupMark := by
  obtain ⟨_, dims⟩ := exists_dims h
  have held := ofMessage?_eq_some_iff.mp h
  simp only [numbers, List.forall_mem_cons]
  exact ⟨whole_of_numbers dims, whole_of_int32? held.dataType, whole_of_text? held.name,
    whole_of_bytes? held.rawData, List.forall_mem_nil _⟩

theorem Attribute.exists_floats {levels : Nat} {m : Message} {x : Attribute}
    (h : ofMessage? levels m = some x) :
    ∃ nss, (m.contents 7).mapM NumberForm.fixed32.numbers? = some nss := by
  obtain ⟨_, floats, _⟩ := Option.map_eq_some_iff.mp (ofMessage?_eq_some_iff.mp h).floats
  obtain ⟨nss, read, _⟩ := Option.map_eq_some_iff.mp floats
  exact ⟨nss, read⟩

theorem Attribute.exists_ints {levels : Nat} {m : Message} {x : Attribute}
    (h : ofMessage? levels m = some x) :
    ∃ nss, (m.contents 8).mapM NumberForm.varint.numbers? = some nss := by
  obtain ⟨nss, read, _⟩ := Option.map_eq_some_iff.mp (ofMessage?_eq_some_iff.mp h).ints
  exact ⟨nss, read⟩

theorem Attribute.whole {levels : Nat} {m : Message} {x : Attribute}
    (h : ofMessage? levels m = some x) :
    ∀ number ∈ numbers, ∀ c ∈ m.contents number, ¬c.IsGroupMark := by
  obtain ⟨_, floats⟩ := exists_floats h
  obtain ⟨_, ints⟩ := exists_ints h
  have held := ofMessage?_eq_some_iff.mp h
  obtain ⟨_, f, _⟩ := Option.map_eq_some_iff.mp held.f
  obtain ⟨_, f, _⟩ := Option.map_eq_some_iff.mp f
  obtain ⟨_, t, _⟩ := Option.bind_eq_some_iff.mp held.t
  obtain ⟨_, g, _⟩ := Option.bind_eq_some_iff.mp held.g
  simp only [numbers, List.forall_mem_cons]
  exact ⟨whole_of_text? held.name, whole_of_mapM f rfl rfl, whole_of_int64? held.i,
    whole_of_bytes? held.s, whole_of_eachBytes? t, whole_of_eachBytes? g, whole_of_numbers floats,
    whole_of_numbers ints, whole_of_eachBytes? held.strings, whole_of_text? held.docString,
    whole_of_int32? held.type, List.forall_mem_nil _⟩

namespace MessageType

/-- The fields of many numbers, and how each of their numbers is written. -/
def repeatedNumbers : MessageType → List (Nat × NumberForm)
  | tensor => [(1, .varint)]
  | attr => [(7, .fixed32), (8, .varint)]
  | model | opsetId | graph | valueInfo | node => []

variable {levels number : Nat} {form : NumberForm}

theorem declared_of_repeated {t : MessageType} (h : (number, form) ∈ t.repeatedNumbers) :
    number ∈ t.codec.numbers := by
  cases t with
  | tensor =>
    cases List.mem_singleton.mp h
    decide
  | attr =>
    simp only [repeatedNumbers, List.mem_cons, List.not_mem_nil, or_false] at h
    rcases h with h | h <;> cases h <;> decide
  | model | opsetId | graph | valueInfo | node => cases h

theorem ofMessage?_congr {t : MessageType} (h : (number, form) ∈ t.repeatedNumbers)
    {m m' : Message} (agree : AgreeBut number form m m') :
    t.codec.ofMessage? levels m = t.codec.ofMessage? levels m' := by
  cases t with
  | tensor =>
    cases List.mem_singleton.mp h
    exact Tensor.ofMessage?_congr agree
  | attr =>
    simp only [repeatedNumbers, List.mem_cons, List.not_mem_nil, or_false] at h
    rcases h with h | h <;> cases h
    · exact Attribute.ofMessage?_congr_floats agree
    · exact Attribute.ofMessage?_congr_ints agree
  | model | opsetId | graph | valueInfo | node => cases h

theorem whole {t : MessageType} (h : (number, form) ∈ t.repeatedNumbers) {m : Message} {x : t.Value}
    (read : t.codec.ofMessage? levels m = some x) :
    (∃ nss, (m.contents number).mapM form.numbers? = some nss) ∧
      ∀ number ∈ t.codec.numbers, ∀ c ∈ m.contents number, ¬c.IsGroupMark := by
  cases t with
  | tensor =>
    cases List.mem_singleton.mp h
    exact ⟨Tensor.exists_dims read, Tensor.whole read⟩
  | attr =>
    simp only [repeatedNumbers, List.mem_cons, List.not_mem_nil, or_false] at h
    rcases h with h | h <;> cases h
    · exact ⟨Attribute.exists_floats read, Attribute.whole read⟩
    · exact ⟨Attribute.exists_ints read, Attribute.whole read⟩
  | model | opsetId | graph | valueInfo | node => cases h

theorem exists_layout {t : MessageType} (h : (number, form) ∈ t.repeatedNumbers)
    {bytes : List UInt8} {x : t.Value} (decoded : t.codec.decode? bytes = some x) :
    ∃ others ns, Layout t.codec.numbers number form others ns bytes := by
  obtain ⟨kept, declared, read⟩ := Option.bind_eq_some_iff.mp decoded
  obtain ⟨m, spells, walk⟩ := readDeclared_eq_some_iff.mp declared
  obtain ⟨⟨nss, numbered⟩, whole⟩ := whole h read
  have within := (Message.declared_spec (declared_eq_some_iff.mpr walk)).2
  have unmarked : ∀ r ∈ kept, ¬r.content.IsGroupMark := by
    intro r member
    refine whole r.number (List.contains_iff_mem.mp (within r member)) _ ?_
    exact List.mem_map_of_mem (List.mem_filter.mpr ⟨member, decide_eq_true rfl⟩)
  have readable : ∀ c ∈ kept.contents number, ∃ ns, form.numbers? c = some ns := by
    intro c member
    obtain ⟨ns, _, read⟩ := exists_of_mem_right (mapM_eq_some_iff.mp numbered).flip member
    exact ⟨ns, read⟩
  obtain ⟨others, ns, laid⟩ :=
    Laid.exists_of_walk (declared_of_repeated h) walk unmarked readable
  exact ⟨others, ns, m, spells, laid⟩

/-- Of bytes that are read as a message: a field that is not declared, a record of any form or a
group within the limit on nesting, can be put between any two of the outermost fields; and the
numbers of a repeated field, which are laid out in the bytes in one way, can be laid out in any
other. -/
theorem decode?_of_layout (t : MessageType) :
    (∀ {outer unknown : Message} {before field after : List UInt8} {depth number : Nat} {x : t.Value},
      outer.Spells before → AreFields depth outer → unknown.Spells field →
        IsField nestingLimit number unknown → number ∉ t.codec.numbers →
        t.codec.decode? (before ++ after) = some x →
        t.codec.decode? (before ++ (field ++ after)) = some x) ∧
    ∀ {number : Nat} {form : NumberForm} {bytes : List UInt8} {x : t.Value},
      (number, form) ∈ t.repeatedNumbers → t.codec.decode? bytes = some x →
        (∃ others ns, Layout t.codec.numbers number form others ns bytes) ∧
        ∀ {others : Message} {ns : List form.Element} {bytes' : List UInt8},
          Layout t.codec.numbers number form others ns bytes →
          Layout t.codec.numbers number form others ns bytes' → t.codec.decode? bytes' = some x := by
  constructor
  · intro outer unknown before field after depth number x outside fields inserted whole undeclared
      decoded
    obtain ⟨kept, declared, read⟩ := Option.bind_eq_some_iff.mp decoded
    have again := readDeclared_insert outside fields inserted whole undeclared declared
    rw [Codec.decode?, again]
    exact read
  · intro number form bytes x repeated decoded
    refine ⟨exists_layout repeated decoded, fun {others ns bytes'} layout layout' => ?_⟩
    obtain ⟨kept, declared, read⟩ := Option.bind_eq_some_iff.mp decoded
    obtain ⟨kept', declared', agree⟩ :=
      layout.readDeclared (declared_of_repeated repeated) layout' declared
    rw [Codec.decode?, declared']
    exact (ofMessage?_congr repeated agree).trans read

/-- A group with a group inside, put between two dimensions; and the dimensions in one run. -/
theorem decode?_of_layout_mixed :
    let before : List UInt8 := [8, 5]
    let field : List UInt8 := [27, 8, 5, 35, 36, 28]
    let after : List UInt8 := [10, 2, 1, 2, 8, 7]
    let packed : List UInt8 := [10, 4, 5, 1, 2, 7]
    let x : Tensor := { dims := [5, 1, 2, 7] }
    Tensor.codec.decode? (before ++ after) = some x ∧
      Tensor.codec.decode? (before ++ (field ++ after)) = some x ∧
      Tensor.codec.decode? packed = some x := by
  intro before field after packed x
  have decoded : Tensor.codec.decode? (before ++ after) = some x := by decide
  have outside : Message.Spells [⟨1, .varint 5⟩] before := Message.read?_eq_some_iff.mp (by decide)
  have inserted : Message.Spells
      [⟨3, .groupStart⟩, ⟨1, .varint 5⟩, ⟨4, .groupStart⟩, ⟨4, .groupEnd⟩, ⟨3, .groupEnd⟩] field :=
    Message.read?_eq_some_iff.mp (by decide)
  have fields : AreFields 99 [⟨1, .varint 5⟩, ⟨4, .groupStart⟩, ⟨4, .groupEnd⟩] :=
    .record (by decide) (.group .nil .nil)
  have run : Series NumberForm.varint.Spells [1, 2] [1, 2] :=
    NumberForm.varint.numbers?_bytes.mp (by decide)
  have whole : Series NumberForm.varint.Spells [5, 1, 2, 7] [5, 1, 2, 7] :=
    NumberForm.varint.numbers?_bytes.mp (by decide)
  have mixed : Layout Tensor.numbers 1 .varint [] [5, 1, 2, 7] (before ++ after) :=
    ⟨[⟨1, .varint 5⟩, ⟨1, .bytes [1, 2]⟩, ⟨1, .varint 7⟩], Message.read?_eq_some_iff.mp (by decide),
      @Laid.single _ _ .varint _ _ _ 5 (@Laid.packed _ _ .varint _ _ _ [7] _ run (.single 7 .nil))⟩
  have one : Layout Tensor.numbers 1 .varint [] [5, 1, 2, 7] packed :=
    ⟨[⟨1, .bytes [5, 1, 2, 7]⟩], Message.read?_eq_some_iff.mp (by decide),
      @Laid.packed _ _ .varint _ _ _ [] _ whole .nil⟩
  obtain ⟨insert, relay⟩ := decode?_of_layout tensor
  refine ⟨decoded, ?_, ?_⟩
  · exact insert outside (@AreFields.record 0 _ _ (by decide) .nil) inserted (.group fields)
      (by decide) decoded
  · exact (relay (List.mem_singleton_self _) decoded).2 mixed one

end MessageType

end OperatorGraph.Onnx
