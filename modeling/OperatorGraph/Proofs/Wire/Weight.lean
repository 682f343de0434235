import OperatorGraph.Proofs.Wire.Field

/-!
A field that is written again takes at most twice the bytes from which it was read. More than once
is needed for a negative number of 32 bits, which is read from five bytes and written as ten.
-/

namespace OperatorGraph.Wire

/-- What the key of a record takes. -/
def keyLength (number : Nat) : Nat := varintLength (number * 8)

theorem keyLength_pos (number : Nat) : 0 < keyLength number := varintLength_pos _

theorem Record.weight_eq (r : Record) : r.weight = keyLength r.number + r.content.weight := by
  rw [weight, key, varintLength_key r.content.form_lt, keyLength]

namespace Message

/-- What the contents of one field take together with their keys. -/
def fieldWeight (m : Message) (number : Nat) : Nat :=
  ((m.contents number).map fun c => keyLength number + c.weight).sum

theorem fieldWeight_cons (r : Record) (m : Message) (number : Nat) :
    fieldWeight (r :: m) number =
      (if r.number = number then r.weight else 0) + fieldWeight m number := by
  rw [fieldWeight, contents_cons]
  split
  · rename_i same
    rw [List.map_cons, List.sum_cons, r.weight_eq, same]
    rfl
  · rw [Nat.zero_add]
    rfl

theorem sum_ite_le {numbers : List Nat} (h : numbers.Nodup) (number weight : Nat) :
    (numbers.map fun n => if number = n then weight else 0).sum ≤ weight := by
  induction numbers with
  | nil => exact Nat.zero_le _
  | cons n rest ih =>
    obtain ⟨apart, tail⟩ := List.nodup_cons.mp h
    rw [List.map_cons, List.sum_cons]
    split
    · rename_i same
      have none : (rest.map fun n => if number = n then weight else 0).sum = 0 := by
        apply List.sum_eq_zero
        intro w member
        obtain ⟨other, here, rfl⟩ := List.mem_map.mp member
        refine if_neg fun eq => apart ?_
        rwa [← same, eq]
      rw [none, Nat.add_zero]
    · rw [Nat.zero_add]
      exact ih tail

/-- The fields of a message take no more than the message. -/
theorem sum_fieldWeight_le {numbers : List Nat} (h : numbers.Nodup) (m : Message) :
    (numbers.map m.fieldWeight).sum ≤ weight m := by
  induction m with
  | nil =>
    refine le_of_eq (List.sum_eq_zero fun w member => ?_)
    obtain ⟨n, _, rfl⟩ := List.mem_map.mp member
    rfl
  | cons r rest ih =>
    have first := sum_ite_le h r.number r.weight
    have split : numbers.map (fieldWeight (r :: rest)) =
        numbers.map fun n => (if r.number = n then r.weight else 0) + fieldWeight rest n :=
      List.map_congr_left fun n _ => fieldWeight_cons r rest n
    rw [split, List.sum_map_add, weight_cons]
    omega

theorem weight_single (number : Nat) (c : Content) :
    weight [⟨number, c⟩] = keyLength number + c.weight := by
  rw [weight_cons, weight_nil, Record.weight_eq, Nat.add_zero]

theorem weight_le_of_mem {m : Message} {number : Nat} {c : Content} (h : c ∈ m.contents number) :
    keyLength number + c.weight ≤ m.fieldWeight number :=
  List.single_le_sum (fun _ _ => Nat.zero_le _) _ (List.mem_map_of_mem h)

end Message

theorem Field.weight_bytes (number : Nat) (content : List UInt8) :
    Message.weight (bytes number content) =
      if content = [] then 0
      else keyLength number + (varintLength content.length + content.length) := by
  unfold bytes
  split
  · rfl
  · rw [Message.weight_single, Content.weight]

theorem Field.weight_eachBytes (number : Nat) (contents : List (List UInt8)) :
    Message.weight (eachBytes number contents) =
      (contents.map fun content =>
        keyLength number + (varintLength content.length + content.length)).sum := by
  rw [Message.weight, eachBytes, List.map_map]
  exact congrArg List.sum (List.map_congr_left fun content _ => Record.weight_eq _)

theorem Field.weight_bytes_of_length {content content' : List UInt8}
    (h : content.length = content'.length) (number : Nat) :
    Message.weight (bytes number content) = Message.weight (bytes number content') := by
  simp only [weight_bytes, ← List.length_eq_zero_iff, h]

theorem Field.weight_floats_of_length {bits bits' : List UInt32} (h : bits.length = bits'.length)
    (number : Nat) : Message.weight (floats number bits) = Message.weight (floats number bits') := by
  refine weight_bytes_of_length ?_ number
  simp only [List.length_flatMap, length_writeFixed, List.map_const', List.sum_replicate, h]

theorem Field.weight_eachBytes_perm {contents contents' : List (List UInt8)}
    (h : contents.Perm contents') (number : Nat) :
    Message.weight (eachBytes number contents) = Message.weight (eachBytes number contents') := by
  rw [weight_eachBytes, weight_eachBytes]
  exact (h.map _).sum_eq

theorem Field.weight_eachBytes_mono {contents contents' : List (List UInt8)}
    (h : List.Forall₂ (fun new old => new.length ≤ old.length) contents' contents) (number : Nat) :
    Message.weight (eachBytes number contents') ≤ Message.weight (eachBytes number contents) := by
  rw [weight_eachBytes, weight_eachBytes]
  induction h with
  | nil => exact le_rfl
  | cons shorter _ ih =>
    have := varintLength_mono shorter
    simp only [List.map_cons, List.sum_cons]
    omega

namespace Message

variable {m : Message} {number : Nat}

/-- The last of the values read is one of them. -/
theorem mem_of_getLast?_getD {α : Type} {read : Content → Option α} {values : List α}
    (h : (m.contents number).mapM read = some values) {default : α}
    (other : values.getLast?.getD default ≠ default) :
    ∃ c ∈ m.contents number, read c = some (values.getLast?.getD default) := by
  cases last : values.getLast? with
  | none => simp [last] at other
  | some value => exact mem_of_mapM h (List.mem_of_getLast? last)

theorem bytes_of_bytes? {c : Content} {content : List UInt8} (h : c.bytes? = some content) :
    c = .bytes content := by
  cases c with
  | bytes _ => rw [Option.some.inj h]
  | _ => cases h

theorem varint_of_varint? {c : Content} {n : UInt64} (h : c.varint? = some n) : c = .varint n := by
  cases c with
  | varint _ => rw [Option.some.inj h]
  | _ => cases h

theorem fixed32_of_fixed32? {c : Content} {n : UInt32} (h : c.fixed32? = some n) :
    c = .fixed32 n := by
  cases c with
  | fixed32 _ => rw [Option.some.inj h]
  | _ => cases h

theorem weight_bytes_le {content : List UInt8} (h : m.bytes? number = some content) :
    weight (Field.bytes number content) ≤ m.fieldWeight number := by
  obtain ⟨contents, read, rfl⟩ := Option.map_eq_some_iff.mp h
  rw [Field.weight_bytes]
  split
  · exact Nat.zero_le _
  · rename_i nonempty
    obtain ⟨c, member, last⟩ := mem_of_getLast?_getD read nonempty
    rw [bytes_of_bytes? last] at member
    exact weight_le_of_mem member

theorem weight_text_le {s : String} (h : m.text? number = some s) :
    weight (Field.text number s) ≤ m.fieldWeight number := by
  obtain ⟨ss, read, rfl⟩ := Option.map_eq_some_iff.mp h
  rw [Field.text, Field.weight_bytes]
  split
  · exact Nat.zero_le _
  · rename_i nonempty
    obtain ⟨c, member, last⟩ :=
      mem_of_getLast?_getD read fun empty => nonempty (Text.utf8_eq_nil_iff.mpr empty)
    obtain ⟨content, isBytes, valid⟩ := Option.bind_eq_some_iff.mp last
    rw [bytes_of_bytes? isBytes, Text.ofUtf8?_eq_some_iff.mp valid] at member
    exact weight_le_of_mem member

theorem weight_varint_le {n : UInt64} (h : m.varint? number = some n) (nonzero : n ≠ 0) :
    keyLength number + varintLength n.toNat ≤ m.fieldWeight number := by
  obtain ⟨ns, read, rfl⟩ := Option.map_eq_some_iff.mp h
  obtain ⟨c, member, last⟩ := mem_of_getLast?_getD read nonzero
  rw [varint_of_varint? last] at member
  exact weight_le_of_mem member

theorem weight_int64_le {n : Int64} (h : m.int64? number = some n) :
    weight (Field.int64 number n) ≤ m.fieldWeight number := by
  obtain ⟨bits, read, rfl⟩ := Option.map_eq_some_iff.mp h
  unfold Field.int64
  split
  · exact Nat.zero_le _
  · rename_i nonzero
    have held := weight_varint_le read fun zero => nonzero (by rw [zero]; rfl)
    rwa [weight_single]

/-- Of a number the low half counts, which is extended by its sign when it is written. -/
theorem toNat_toInt32 (n : UInt64) :
    n.toUInt32.toInt32.toInt64.toUInt64.toNat =
      n.toNat % 2 ^ 32 + if n.toUInt32.toBitVec.msb then 2 ^ 64 - 2 ^ 32 else 0 := by
  have extended := BitVec.toNat_signExtend n.toUInt32.toBitVec (v := 64)
  have low : n.toUInt32.toBitVec.toNat % 2 ^ 64 = n.toNat % 2 ^ 32 := by
    simp
    omega
  rw [BitVec.toNat_setWidth, low] at extended
  exact extended

theorem varintLength_toInt32_le (n : UInt64) :
    varintLength n.toUInt32.toInt32.toInt64.toUInt64.toNat ≤ 2 * varintLength n.toNat := by
  have small := n.toUInt32.toInt32.toInt64.toUInt64.toNat_lt
  rw [toNat_toInt32] at small ⊢
  split at small
  · rename_i negative
    rw [if_pos negative]
    have ten : varintLength (n.toNat % 2 ^ 32 + (2 ^ 64 - 2 ^ 32)) ≤ 10 :=
      (varintLength_le_iff (by decide)).mpr (small.trans (by decide))
    have large : 2 ^ 31 ≤ n.toNat := by
      rw [BitVec.msb_eq_decide, decide_eq_true_eq] at negative
      exact negative.trans (Nat.mod_le _ _)
    have five : 5 ≤ varintLength n.toNat := by
      by_contra fewer
      have := (varintLength_le_iff (show 0 < 4 by decide)).mp (by omega : varintLength n.toNat ≤ 4)
      omega
    omega
  · rename_i nonnegative
    rw [if_neg nonnegative, Nat.add_zero]
    have := varintLength_mono (Nat.mod_le n.toNat (2 ^ 32))
    omega

theorem weight_int32_le {n : Int32} (h : m.int32? number = some n) :
    weight (Field.int32 number n) ≤ 2 * m.fieldWeight number := by
  obtain ⟨bits, read, rfl⟩ := Option.map_eq_some_iff.mp h
  unfold Field.int32 Field.int64
  split
  · exact Nat.zero_le _
  · rename_i nonzero
    have held := weight_varint_le read fun zero => nonzero (by rw [zero]; rfl)
    have longer := varintLength_toInt32_le bits
    rw [weight_single, Content.weight]
    omega

theorem weight_float_le {bits : UInt32} (h : m.fixed32? number = some bits) (bits' : UInt32)
    {isZero : Bool} (zero : bits = 0 → isZero = true) :
    weight (Field.float number bits' isZero) ≤ m.fieldWeight number := by
  obtain ⟨ns, read, rfl⟩ := Option.map_eq_some_iff.mp h
  cases isZero with
  | true => exact Nat.zero_le _
  | false =>
    obtain ⟨c, member, last⟩ := mem_of_getLast?_getD read fun eq => Bool.false_ne_true (zero eq)
    rw [fixed32_of_fixed32? last] at member
    have held := weight_le_of_mem member
    rwa [Field.float, if_neg Bool.false_ne_true, weight_single]

/-- Numbers in one packed record, where each of them took at least its size before. -/
theorem weight_packed_le {α : Type} {each : Content → Option (List α)} {size : α → Nat}
    (sized : ∀ c ns, each c = some ns → (ns.map size).sum ≤ c.weight)
    {nss : List (List α)} (h : (m.contents number).mapM each = some nss) {packed : List UInt8}
    (length : packed.length = (nss.flatten.map size).sum) :
    weight (Field.bytes number packed) ≤ 2 * m.fieldWeight number := by
  have total : ∀ {cs : List Content} {nss : List (List α)},
      List.Forall₂ (fun c ns => each c = some ns) cs nss →
      (nss.flatten.map size).sum + cs.length * keyLength number ≤
        (cs.map fun c => keyLength number + c.weight).sum := by
    intro cs nss related
    induction related with
    | nil => simp
    | cons first _ ih =>
      have := sized _ _ first
      simp only [List.flatten_cons, List.map_append, List.sum_append, List.map_cons, List.sum_cons,
        List.length_cons, Nat.succ_mul]
      omega
  have related := mapM_eq_some_iff.mp h
  have bound := total related
  rw [Field.weight_bytes]
  split
  · exact Nat.zero_le _
  · rename_i nonempty
    have some_record : 1 ≤ (m.contents number).length := by
      refine Nat.one_le_iff_ne_zero.mpr fun none => nonempty ?_
      rw [List.length_eq_zero_iff.mp none] at related
      cases related
      exact List.length_eq_zero_iff.mp length
    have key := Nat.mul_le_mul_right (keyLength number) some_record
    have prefixed := varintLength_le_succ packed.length
    have := keyLength_pos number
    unfold fieldWeight
    omega

theorem weight_unpackWithin {α : Type} {read : List UInt8 → Option (α × List UInt8)}
    {size : α → Nat}
    (sized : ∀ input n rest, read input = some (n, rest) → size n + rest.length ≤ input.length)
    {count : Nat} {input : List UInt8} {ns : List α}
    (h : Content.unpackWithin read count input = some ns) : (ns.map size).sum ≤ input.length := by
  induction count generalizing input ns with
  | zero =>
    cases input with
    | nil =>
      cases h
      exact Nat.zero_le _
    | cons b tail => cases h
  | succ count ih =>
    cases input with
    | nil =>
      cases h
      exact Nat.zero_le _
    | cons b tail =>
      obtain ⟨⟨n, rest⟩, first, h⟩ := Option.bind_eq_some_iff.mp h
      obtain ⟨others, unpacked, eq⟩ := Option.bind_eq_some_iff.mp h
      cases eq
      have := sized _ _ _ first
      have := ih unpacked
      rw [List.map_cons, List.sum_cons]
      omega

theorem weight_varints? {c : Content} {ns : List UInt64} (h : c.varints? = some ns) :
    (ns.map fun n => varintLength n.toNat).sum ≤ c.weight := by
  cases c with
  | bytes content =>
    exact (weight_unpackWithin (fun _ _ _ => readVarint_shortens) h).trans (Nat.le_add_left _ _)
  | varint n =>
    cases h
    exact le_rfl
  | _ => cases h

theorem readFixed32_shortens {input rest : List UInt8} {n : UInt32}
    (h : Content.readFixed32 input = some (n, rest)) : 4 + rest.length ≤ input.length := by
  obtain ⟨⟨n, rest'⟩, read, eq⟩ := Option.map_eq_some_iff.mp h
  cases eq
  exact (readFixed_bounds read).2.le

theorem weight_fixed32s? {c : Content} {ns : List UInt32} (h : c.fixed32s? = some ns) :
    (ns.map fun _ => 4).sum ≤ c.weight := by
  cases c with
  | bytes content =>
    exact (weight_unpackWithin (fun _ _ _ => readFixed32_shortens) h).trans (Nat.le_add_left _ _)
  | fixed32 n =>
    cases h
    exact le_rfl
  | _ => cases h

theorem weight_int64s_le {ns : List Int64} (h : m.int64s? number = some ns) :
    weight (Field.int64s number ns) ≤ 2 * m.fieldWeight number := by
  obtain ⟨nss, read, rfl⟩ := Option.map_eq_some_iff.mp h
  refine weight_packed_le (fun _ _ => weight_varints?) read ?_
  simp only [List.length_flatMap, List.map_map, Function.comp_def, length_writeVarint,
    UInt64.toUInt64_toInt64]

theorem weight_floats_le {bits : List UInt32} (h : m.fixed32s? number = some bits)
    {bits' : List UInt32} (length : bits'.length = bits.length) :
    weight (Field.floats number bits') ≤ 2 * m.fieldWeight number := by
  obtain ⟨nss, read, rfl⟩ := Option.map_eq_some_iff.mp h
  refine weight_packed_le (fun _ _ => weight_fixed32s?) read ?_
  simp only [List.length_flatMap, length_writeFixed, List.map_const', List.sum_replicate, length]

theorem contents_of_eachBytes? {contents : List (List UInt8)}
    (h : m.eachBytes? number = some contents) : m.contents number = contents.map .bytes := by
  have related := mapM_eq_some_iff.mp h
  clear h
  generalize m.contents number = cs at related
  induction related with
  | nil => rfl
  | cons first _ ih => rw [bytes_of_bytes? first, ih, List.map_cons]

theorem fieldWeight_of_eachBytes? {contents : List (List UInt8)}
    (h : m.eachBytes? number = some contents) :
    m.fieldWeight number = weight (Field.eachBytes number contents) := by
  rw [fieldWeight, contents_of_eachBytes? h, Field.weight_eachBytes, List.map_map]
  rfl

theorem weight_texts_le {ss : List String} (h : m.texts? number = some ss) :
    weight (Field.texts number ss) ≤ m.fieldWeight number := by
  have read : m.eachBytes? number = some (ss.map Text.utf8) := by
    rw [eachBytes?, mapM_eq_some_iff, List.forall₂_map_right_iff]
    apply (mapM_eq_some_iff.mp h).imp
    intro c s text
    obtain ⟨content, isBytes, valid⟩ := Option.bind_eq_some_iff.mp text
    rw [isBytes, Text.ofUtf8?_eq_some_iff.mp valid]
  rw [fieldWeight_of_eachBytes? read, Field.texts]

/-- Contents of at most twice the length take at most twice the weight. -/
theorem weight_eachBytes_le {contents contents' : List (List UInt8)}
    (h : List.Forall₂ (fun old new => new.length ≤ 2 * old.length) contents contents') :
    weight (Field.eachBytes number contents') ≤ 2 * weight (Field.eachBytes number contents) := by
  rw [Field.weight_eachBytes, Field.weight_eachBytes]
  induction h with
  | nil => exact le_rfl
  | @cons old new olds news longer _ ih =>
    have prefixed := (varintLength_mono longer).trans (varintLength_double old.length)
    have := varintLength_pos old.length
    simp only [List.map_cons, List.sum_cons]
    omega

/-- One content in place of several. -/
theorem weight_joined_le {contents : List (List UInt8)} (nonempty : contents ≠ [])
    {joined : List UInt8} (h : joined.length ≤ 2 * (contents.map List.length).sum) :
    weight (Field.eachBytes number [joined]) ≤ 2 * weight (Field.eachBytes number contents) := by
  have total : ∀ {contents : List (List UInt8)}, contents ≠ [] →
      keyLength number + varintLength (contents.map List.length).sum +
        (contents.map List.length).sum ≤ weight (Field.eachBytes number contents) := by
    intro contents nonempty
    induction contents with
    | nil => contradiction
    | cons content rest ih =>
      rw [Field.weight_eachBytes, List.map_cons, List.map_cons, List.sum_cons, List.sum_cons]
      cases rest with
      | nil => simp [Nat.add_assoc]
      | cons content' rest =>
        have := ih (List.cons_ne_nil _ _)
        have := varintLength_add content.length ((content' :: rest).map List.length).sum
        rw [Field.weight_eachBytes] at *
        omega
  have bound := total nonempty
  have prefixed := (varintLength_mono h).trans (varintLength_double _)
  have := varintLength_pos (contents.map List.length).sum
  rw [Field.weight_eachBytes, List.map_singleton, List.sum_singleton]
  omega

end Message

end OperatorGraph.Wire
