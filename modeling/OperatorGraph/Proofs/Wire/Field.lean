import OperatorGraph.Proofs.Text.Utf8
import OperatorGraph.Proofs.Traversal
import OperatorGraph.Proofs.Wire.Record
import OperatorGraph.Wire.Field

/-!
Fields are read back as they were written. A reader looks at the contents under its own number
only, so in a message of several fields each is found whatever stands around it.
-/

namespace OperatorGraph.Wire

namespace Message

@[simp] theorem contents_nil (number : Nat) : contents [] number = [] := rfl

@[simp] theorem contents_append (m m' : Message) (number : Nat) :
    contents (m ++ m') number = contents m number ++ contents m' number := by
  simp [contents]

/-- Whether all records are of the given fields. -/
def Within (numbers : List Nat) (m : Message) : Prop := ∀ r ∈ m, r.number ∈ numbers

@[simp] theorem within_append {numbers : List Nat} {m m' : Message} :
    Within numbers (m ++ m') ↔ Within numbers m ∧ Within numbers m' :=
  List.forall_mem_append

theorem length_le_of_mem_contents {m : Message} {number : Nat} {content : List UInt8}
    (h : .bytes content ∈ contents m number) : content.length ≤ (write m).length := by
  obtain ⟨r, member, holds⟩ := List.mem_map.mp h
  have written : r.write.length ≤ (write m).length :=
    length_write_of_mem (List.mem_filter.mp member).1
  rw [Record.write, holds, Content.write] at written
  simp only [List.length_append] at written
  omega

theorem contents_cons (r : Record) (m : Message) (number : Nat) :
    contents (r :: m) number =
      if r.number = number then r.content :: contents m number else contents m number := by
  simp only [contents, List.filter_cons, decide_eq_true_eq]
  split <;> rfl

end Message

namespace Field

open Message

variable {numbers : List Nat} {number other : Nat}

theorem within_bytes (h : number ∈ numbers) (content : List UInt8) :
    Within numbers (bytes number content) := by
  intro r member
  unfold bytes at member
  split at member
  · cases member
  · rwa [List.mem_singleton.mp member]

theorem within_int64 (h : number ∈ numbers) (n : Int64) : Within numbers (int64 number n) := by
  intro r member
  unfold int64 at member
  split at member
  · cases member
  · rwa [List.mem_singleton.mp member]

theorem within_float (h : number ∈ numbers) (bits : UInt32) (isZero : Bool) :
    Within numbers (float number bits isZero) := by
  intro r member
  cases isZero with
  | true => cases member
  | false => rwa [List.mem_singleton.mp member]

theorem within_eachBytes (h : number ∈ numbers) (contents : List (List UInt8)) :
    Within numbers (eachBytes number contents) := by
  intro r member
  obtain ⟨content, _, rfl⟩ := List.mem_map.mp member
  exact h

theorem contents_bytes (number : Nat) (content : List UInt8) :
    contents (bytes number content) number = if content = [] then [] else [.bytes content] := by
  unfold bytes
  split
  · rfl
  · rw [contents_cons, if_pos rfl, contents_nil]

theorem contents_int64 (number : Nat) (n : Int64) :
    contents (int64 number n) number = if n = 0 then [] else [.varint n.toUInt64] := by
  unfold int64
  split
  · rfl
  · rw [contents_cons, if_pos rfl, contents_nil]

theorem contents_float (number : Nat) (bits : UInt32) (isZero : Bool) :
    contents (float number bits isZero) number = if isZero then [] else [.fixed32 bits] := by
  cases isZero with
  | true => rfl
  | false => exact contents_cons _ _ _ |>.trans (if_pos rfl)

theorem contents_eachBytes (number : Nat) (contents : List (List UInt8)) :
    Message.contents (eachBytes number contents) number = contents.map .bytes := by
  induction contents with
  | nil => rfl
  | cons content rest ih =>
    unfold eachBytes at ih ⊢
    rw [List.map_cons, contents_cons, if_pos rfl, ih, List.map_cons]

/-- A field leaves no record under another number. -/
theorem contents_of_ne {m : Message} (within : Within [number] m) (h : number ≠ other) :
    contents m other = [] := by
  rw [contents, List.map_eq_nil_iff, List.filter_eq_nil_iff]
  intro r member same
  exact h ((List.mem_singleton.mp (within r member)).symm.trans (of_decide_eq_true same))

@[simp] theorem contents_bytes_of_ne (h : number ≠ other) (content : List UInt8) :
    contents (bytes number content) other = [] :=
  contents_of_ne (within_bytes (List.mem_singleton_self _) _) h

@[simp] theorem contents_text_of_ne (h : number ≠ other) (s : String) :
    contents (text number s) other = [] :=
  contents_bytes_of_ne h _

@[simp] theorem contents_int64_of_ne (h : number ≠ other) (n : Int64) :
    contents (int64 number n) other = [] :=
  contents_of_ne (within_int64 (List.mem_singleton_self _) _) h

@[simp] theorem contents_int32_of_ne (h : number ≠ other) (n : Int32) :
    contents (int32 number n) other = [] :=
  contents_int64_of_ne h _

@[simp] theorem contents_float_of_ne (h : number ≠ other) (bits : UInt32) (isZero : Bool) :
    contents (float number bits isZero) other = [] :=
  contents_of_ne (within_float (List.mem_singleton_self _) _ _) h

@[simp] theorem contents_eachBytes_of_ne (h : number ≠ other) (contents : List (List UInt8)) :
    Message.contents (eachBytes number contents) other = [] :=
  contents_of_ne (within_eachBytes (List.mem_singleton_self _) _) h

@[simp] theorem contents_texts_of_ne (h : number ≠ other) (ss : List String) :
    contents (texts number ss) other = [] :=
  contents_eachBytes_of_ne h _

@[simp] theorem contents_int64s_of_ne (h : number ≠ other) (ns : List Int64) :
    contents (int64s number ns) other = [] :=
  contents_bytes_of_ne h _

@[simp] theorem contents_floats_of_ne (h : number ≠ other) (bits : List UInt32) :
    contents (floats number bits) other = [] :=
  contents_bytes_of_ne h _

end Field

namespace Content

theorem unpackWithin_flatMap {α : Type} {read : List UInt8 → Option (α × List UInt8)}
    {write : α → List UInt8} (back : ∀ n rest, read (write n ++ rest) = some (n, rest))
    (nonempty : ∀ n, write n ≠ []) (ns : List α) {count : Nat} (enough : ns.length ≤ count) :
    unpackWithin read count (ns.flatMap write) = some ns := by
  induction ns generalizing count with
  | nil => cases count <;> rfl
  | cons n rest ih =>
    cases count with
    | zero => cases enough
    | succ count =>
      have some_left : write n ++ rest.flatMap write ≠ [] := by simp [nonempty n]
      have others := ih (Nat.le_of_succ_le_succ enough)
      rw [List.flatMap_cons, unpackWithin.eq_3 _ _ _ some_left, back]
      simp only [Option.bind_eq_bind, Option.bind_some, others, Option.pure_def]

theorem length_le_flatMap {α : Type} {write : α → List UInt8} (nonempty : ∀ n, write n ≠ [])
    (ns : List α) : ns.length ≤ (ns.flatMap write).length := by
  induction ns with
  | nil => exact le_rfl
  | cons n rest ih =>
    have := List.length_pos_iff.mpr (nonempty n)
    rw [List.flatMap_cons, List.length_append, List.length_cons]
    omega

theorem writeVarint_ne_nil (n : UInt64) : writeVarint n ≠ [] :=
  List.ne_nil_of_length_pos (length_writeVarint n ▸ varintLength_pos _)

theorem varints?_bytes (ns : List UInt64) :
    varints? (.bytes (ns.flatMap writeVarint)) = some ns :=
  unpackWithin_flatMap readVarint_write writeVarint_ne_nil ns
    (length_le_flatMap writeVarint_ne_nil ns)

theorem writeFixed32_ne_nil (n : UInt32) : writeFixed 4 n.toNat ≠ [] :=
  List.ne_nil_of_length_pos (by simp [length_writeFixed])

theorem readFixed32_write (n : UInt32) (rest : List UInt8) :
    readFixed32 (writeFixed 4 n.toNat ++ rest) = some (n, rest) := by
  simp only [readFixed32, readFixed_write (show n.toNat < 256 ^ 4 from n.toNat_lt), Option.map_some,
    Nat.toUInt32, UInt32.ofNat_toNat]

theorem fixed32s?_bytes (ns : List UInt32) :
    fixed32s? (.bytes (ns.flatMap fun n => writeFixed 4 n.toNat)) = some ns :=
  unpackWithin_flatMap readFixed32_write writeFixed32_ne_nil ns
    (length_le_flatMap writeFixed32_ne_nil ns)

end Content

namespace Message

variable {m : Message} {number : Nat}

theorem eachBytes?_of_contents {contents : List (List UInt8)}
    (h : m.contents number = Message.contents (Field.eachBytes number contents) number) :
    m.eachBytes? number = some contents := by
  rw [eachBytes?, h, Field.contents_eachBytes, mapM_eq_some_iff]
  exact List.forall₂_map_left_iff.mpr (List.forall₂_same.mpr fun _ _ => rfl)

theorem bytes?_of_contents {content : List UInt8}
    (h : m.contents number = contents (Field.bytes number content) number) :
    m.bytes? number = some content := by
  rw [bytes?, eachBytes?, h, Field.contents_bytes]
  split
  · rename_i empty
    rw [empty]
    rfl
  · rfl

theorem text?_of_contents {s : String}
    (h : m.contents number = contents (Field.text number s) number) :
    m.text? number = some s := by
  rw [text?, texts?, h, Field.text, Field.contents_bytes]
  split
  · rename_i empty
    rw [Text.utf8_eq_nil_iff.mp empty]
    rfl
  · simp [Content.text?, Content.bytes?]

theorem texts?_of_contents {ss : List String}
    (h : m.contents number = contents (Field.texts number ss) number) :
    m.texts? number = some ss := by
  rw [texts?, h, Field.texts, Field.contents_eachBytes, mapM_eq_some_iff,
    List.forall₂_map_left_iff, List.forall₂_map_left_iff]
  exact List.forall₂_same.mpr fun s _ => Text.ofUtf8?_utf8 s

theorem varint?_of_contents {n : Int64}
    (h : m.contents number = contents (Field.int64 number n) number) :
    m.varint? number = some n.toUInt64 := by
  rw [varint?, h, Field.contents_int64]
  split
  · rename_i zero
    rw [zero]
    rfl
  · rfl

theorem int64?_of_contents {n : Int64}
    (h : m.contents number = contents (Field.int64 number n) number) :
    m.int64? number = some n := by
  rw [int64?, varint?_of_contents h]
  rfl

/-- The low half of a widened number is the number. -/
theorem toInt32_toUInt64 (n : Int32) : n.toInt64.toUInt64.toUInt32.toInt32 = n := by
  apply Int32.toBitVec_inj.mp
  simp only [UInt32.toBitVec_toInt32, UInt64.toBitVec_toUInt32, Int64.toBitVec_toUInt64,
    Int32.toBitVec_toInt64]
  apply BitVec.eq_of_getLsbD_eq
  intro i bound
  simp only [BitVec.getLsbD_setWidth, BitVec.getLsbD_signExtend, bound, decide_true, Bool.true_and,
    if_true, Bool.and_eq_right_iff_imp, decide_eq_true_eq]
  omega

theorem int32?_of_contents {n : Int32}
    (h : m.contents number = contents (Field.int32 number n) number) :
    m.int32? number = some n := by
  rw [int32?, varint?_of_contents h, Option.map_some, toInt32_toUInt64]

theorem fixed32?_of_contents {bits : UInt32} {isZero : Bool}
    (h : m.contents number = contents (Field.float number bits isZero) number) :
    m.fixed32? number = some (if isZero then 0 else bits) := by
  rw [fixed32?, h, Field.contents_float]
  cases isZero <;> rfl

theorem int64s?_of_contents {ns : List Int64}
    (h : m.contents number = contents (Field.int64s number ns) number) :
    m.int64s? number = some ns := by
  have packed : (ns.flatMap fun n => writeVarint n.toUInt64) =
      (ns.map Int64.toUInt64).flatMap writeVarint := by rw [List.flatMap_map]
  have back : (ns.map Int64.toUInt64).map UInt64.toInt64 = ns := by
    rw [List.map_map]
    exact List.map_id ns
  rw [int64s?, h, Field.int64s, Field.contents_bytes]
  split
  · rename_i empty
    cases ns with
    | nil => rfl
    | cons n rest => simp [Content.writeVarint_ne_nil] at empty
  · rw [packed]
    simp only [List.mapM_cons, List.mapM_nil, Content.varints?_bytes, Option.pure_def,
      Option.bind_eq_bind, Option.bind_some, Option.map_some, List.flatten_cons, List.flatten_nil,
      List.append_nil, back]

theorem fixed32s?_of_contents {ns : List UInt32}
    (h : m.contents number = contents (Field.floats number ns) number) :
    m.fixed32s? number = some ns := by
  rw [fixed32s?, h, Field.floats, Field.contents_bytes]
  split
  · rename_i empty
    cases ns with
    | nil => rfl
    | cons n rest => simp [Content.writeFixed32_ne_nil] at empty
  · simp only [List.mapM_cons, List.mapM_nil, Content.fixed32s?_bytes, Option.pure_def,
      Option.bind_eq_bind, Option.bind_some, Option.map_some, List.flatten_cons, List.flatten_nil,
      List.append_nil]

end Message

end OperatorGraph.Wire
