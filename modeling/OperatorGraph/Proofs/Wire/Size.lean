import OperatorGraph.Proofs.Wire.Field
import OperatorGraph.Wire.Size

/-!
Fields take as many bytes as their sizes say.
-/

namespace OperatorGraph.Wire

theorem length_writeVarint_eq_size (n : UInt64) : (writeVarint n).length = varintSize n :=
  length_writeVarint n

/-- Form and field number do not share bits of a key, however large the number. -/
theorem Record.length_writeVarint_key (r : Record) :
    (writeVarint r.key.toUInt64).length = Size.key r.number := by
  have form := r.content.form_lt
  have shift : (r.number * 8).toUInt64.toNat = r.number % 2 ^ 61 * 8 := by
    change r.number * 8 % 2 ^ 64 = _
    omega
  have whole : r.key.toUInt64.toNat = r.number % 2 ^ 61 * 8 + r.content.form := by
    change (r.number * 8 + r.content.form) % 2 ^ 64 = _
    omega
  rw [length_writeVarint, whole, varintLength_key form, ← shift]
  rfl

theorem Content.length_write_bytes (content : List UInt8) :
    (Content.bytes content).write.length =
      varintSize content.length.toUInt64 + content.length := by
  rw [write, List.length_append, length_writeVarint_eq_size]

namespace Message

@[simp] theorem length_write_nil : (write []).length = 0 := rfl

@[simp] theorem length_write_append (m m' : Message) :
    (write (m ++ m')).length = (write m).length + (write m').length := by
  simp [write]

theorem length_write_cons (r : Record) (m : Message) :
    (write (r :: m)).length = Size.key r.number + r.content.write.length + (write m).length := by
  rw [write, List.flatMap_cons, List.length_append, Record.write, List.length_append,
    r.length_writeVarint_key]
  rfl

theorem length_write_single (r : Record) :
    (write [r]).length = Size.key r.number + r.content.write.length := by
  rw [length_write_cons, length_write_nil, Nat.add_zero]

end Message

namespace Field

open Message

variable (number : Nat)

@[simp] theorem length_write_bytes (content : List UInt8) :
    (write (bytes number content)).length = Size.bytes number content := by
  unfold bytes Size.bytes
  split
  · rfl
  · rw [length_write_single, Content.length_write_bytes, Size.delimited]

@[simp] theorem length_write_text (s : String) :
    (write (text number s)).length = Size.text number s := by
  have length : (Text.utf8 s).length = s.utf8ByteSize := rfl
  rw [text, length_write_bytes, Size.bytes, Size.text, length]
  simp only [Text.utf8_eq_nil_iff]

@[simp] theorem length_write_int64 (n : Int64) :
    (write (int64 number n)).length = Size.int64 number n := by
  unfold int64 Size.int64
  split
  · rfl
  · rw [length_write_single, Content.write, length_writeVarint_eq_size]

@[simp] theorem length_write_int32 (n : Int32) :
    (write (int32 number n)).length = Size.int32 number n :=
  length_write_int64 number n.toInt64

@[simp] theorem length_write_float (bits : UInt32) (isZero : Bool) :
    (write (float number bits isZero)).length = Size.float number isZero := by
  cases isZero with
  | true => rfl
  | false => exact (length_write_single _).trans (congrArg (_ + ·) (length_writeFixed 4 _))

@[simp] theorem length_write_eachBytes (contents : List (List UInt8)) :
    (write (eachBytes number contents)).length = Size.each number (contents.map List.length) := by
  induction contents with
  | nil => rfl
  | cons content rest ih =>
    rw [eachBytes] at ih
    rw [eachBytes, List.map_cons, length_write_cons, ih, Content.length_write_bytes]
    rfl

@[simp] theorem length_write_texts (ss : List String) :
    (write (texts number ss)).length = Size.texts number ss := by
  rw [texts, length_write_eachBytes, List.map_map]
  rfl

/-- A record of packed numbers, each of which takes a byte at least. -/
theorem length_write_packed {α : Type} (pack : α → List UInt8) (nonempty : ∀ a, pack a ≠ [])
    (values : List α) :
    (write (bytes number (values.flatMap pack))).length =
      Size.packed number (values.map fun a => (pack a).length) := by
  have empty : values.flatMap pack = [] ↔ values.map (fun a => (pack a).length) = [] := by
    rw [List.flatMap_eq_nil_iff, List.map_eq_nil_iff]
    constructor
    · intro none
      exact List.eq_nil_iff_forall_not_mem.mpr fun a member => nonempty a (none a member)
    · rintro rfl
      exact List.forall_mem_nil _
  rw [length_write_bytes, Size.bytes, Size.packed, List.length_flatMap, List.sum_eq_foldr]
  simp only [empty]

@[simp] theorem length_write_int64s (ns : List Int64) :
    (write (int64s number ns)).length = Size.int64s number ns := by
  have nonempty (n : Int64) : writeVarint n.toUInt64 ≠ [] := Content.writeVarint_ne_nil _
  rw [int64s, length_write_packed number _ nonempty]
  simp only [length_writeVarint_eq_size]
  rfl

@[simp] theorem length_write_floats (bits : List UInt32) :
    (write (floats number bits)).length = Size.floats number bits.length := by
  have nonempty (b : UInt32) : writeFixed 4 b.toNat ≠ [] := Content.writeFixed32_ne_nil b
  rw [floats, length_write_packed number _ nonempty]
  simp only [length_writeFixed, List.map_const']
  rfl

end Field

end OperatorGraph.Wire
