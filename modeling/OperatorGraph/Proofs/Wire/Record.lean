import Mathlib.Algebra.Order.BigOperators.Group.List
import OperatorGraph.Proofs.Wire.Varint
import OperatorGraph.Wire.Record

/-!
Messages are read back as they were written. The weight of a message is what it takes to write it
when no length overflows; none is read from fewer bytes.
-/

namespace OperatorGraph.Wire

theorem length_writeFixed (width n : Nat) : (writeFixed width n).length = width := by
  induction width generalizing n with
  | zero => rfl
  | succ width ih => rw [writeFixed, List.length_cons, ih]

theorem readFixed_write {width n : Nat} (h : n < 256 ^ width) (rest : List UInt8) :
    readFixed width (writeFixed width n ++ rest) = some (n, rest) := by
  induction width generalizing n with
  | zero =>
    have zero : n = 0 := Nat.lt_one_iff.mp h
    rw [zero]
    rfl
  | succ width ih =>
    have byte := toNat_toUInt8 (Nat.mod_lt n (show 0 < 256 by decide))
    have upper : n / 256 < 256 ^ width := by
      rw [Nat.div_lt_iff_lt_mul (by decide)]
      exact h
    simp only [writeFixed, List.cons_append, readFixed, ih upper, byte, Option.map_some,
      Nat.mod_add_div]

theorem readFixed_bounds {width n : Nat} {input rest : List UInt8}
    (h : readFixed width input = some (n, rest)) :
    n < 256 ^ width ∧ width + rest.length = input.length := by
  induction width generalizing n input with
  | zero =>
    cases h
    exact ⟨Nat.one_pos, Nat.zero_add _⟩
  | succ width ih =>
    cases input with
    | nil => cases h
    | cons b tail =>
      obtain ⟨⟨m, rest'⟩, read, eq⟩ := Option.map_eq_some_iff.mp h
      cases eq
      obtain ⟨upper, short⟩ := ih read
      have byte := b.toNat_lt
      refine ⟨?_, by rw [List.length_cons]; omega⟩
      rw [Nat.pow_succ]
      omega

theorem takeBytes_append (content rest : List UInt8) :
    takeBytes content.length (content ++ rest) = some (content, rest) := by
  simp [takeBytes]

theorem takeBytes_bounds {n : Nat} {input content rest : List UInt8}
    (h : takeBytes n input = some (content, rest)) :
    content.length = n ∧ content.length + rest.length = input.length := by
  unfold takeBytes at h
  split at h
  · rename_i enough
    rw [List.splitAt_eq, Option.some.injEq] at h
    cases h
    rw [List.length_take, List.length_drop]
    omega
  · cases h

namespace Content

/-- Whether the length of a content can be written. -/
def Fits : Content → Prop
  | .bytes content => content.length < 2 ^ 64
  | _ => True

def weight : Content → Nat
  | .varint n => varintLength n.toNat
  | .fixed64 _ => 8
  | .bytes content => varintLength content.length + content.length
  | .groupStart | .groupEnd => 0
  | .fixed32 _ => 4

theorem form_lt (c : Content) : c.form < 8 := by
  cases c <;> simp [form]

theorem length_write_le (c : Content) : c.write.length ≤ c.weight := by
  cases c with
  | varint n => exact (length_writeVarint n).le
  | fixed64 n => exact (length_writeFixed 8 _).le
  | bytes content =>
    rw [write, weight, List.length_append]
    exact Nat.add_le_add_right (length_writeVarint_toUInt64 _) _
  | groupStart => exact le_rfl
  | groupEnd => exact le_rfl
  | fixed32 n => exact (length_writeFixed 4 _).le

theorem length_write {c : Content} (h : c.Fits) : c.write.length = c.weight := by
  cases c with
  | varint n => exact length_writeVarint n
  | fixed64 n => exact length_writeFixed 8 _
  | bytes content =>
    rw [write, weight, List.length_append, length_writeVarint, toNat_toUInt64 h]
  | groupStart => rfl
  | groupEnd => rfl
  | fixed32 n => exact length_writeFixed 4 _

theorem read?_write {c : Content} (h : c.Fits) (rest : List UInt8) :
    read? c.form (c.write ++ rest) = some (c, rest) := by
  cases c with
  | varint n => simp only [form, read?, write, readVarint_write, Option.map_some]
  | fixed64 n =>
    simp only [form, read?, write, readFixed_write (show n.toNat < 256 ^ 8 from n.toNat_lt),
      Option.map_some, Nat.toUInt64, UInt64.ofNat_toNat]
  | bytes content =>
    simp only [form, read?, write, List.append_assoc, readVarint_write, Option.bind_eq_bind,
      Option.bind_some, toNat_toUInt64 h, takeBytes_append, Option.pure_def]
  | groupStart => rfl
  | groupEnd => rfl
  | fixed32 n =>
    simp only [form, read?, write, readFixed_write (show n.toNat < 256 ^ 4 from n.toNat_lt),
      Option.map_some, Nat.toUInt32, UInt32.ofNat_toNat]

theorem read?_spec {form : Nat} {input rest : List UInt8} {c : Content}
    (h : read? form input = some (c, rest)) :
    c.form = form ∧ c.weight + rest.length ≤ input.length := by
  unfold read? at h
  split at h
  · obtain ⟨⟨n, rest'⟩, read, eq⟩ := Option.map_eq_some_iff.mp h
    cases eq
    exact ⟨rfl, readVarint_shortens read⟩
  · obtain ⟨⟨n, rest'⟩, read, eq⟩ := Option.map_eq_some_iff.mp h
    cases eq
    exact ⟨rfl, (readFixed_bounds read).2.le⟩
  · obtain ⟨⟨length, tail⟩, read, h⟩ := Option.bind_eq_some_iff.mp h
    obtain ⟨⟨content, rest'⟩, taken, eq⟩ := Option.bind_eq_some_iff.mp h
    cases eq
    have prefixed := readVarint_shortens read
    obtain ⟨eq, short⟩ := takeBytes_bounds taken
    rw [← eq] at prefixed
    refine ⟨rfl, ?_⟩
    rw [weight]
    omega
  · cases h
    exact ⟨rfl, (Nat.zero_add _).le⟩
  · cases h
    exact ⟨rfl, (Nat.zero_add _).le⟩
  · obtain ⟨⟨n, rest'⟩, read, eq⟩ := Option.map_eq_some_iff.mp h
    cases eq
    exact ⟨rfl, (readFixed_bounds read).2.le⟩
  · cases h

end Content

namespace Record

def weight (r : Record) : Nat := varintLength r.key + r.content.weight

/-- Whether a record can be read back: its key takes 32 bits. -/
structure Writable (r : Record) : Prop where
  pos : 0 < r.number
  small : r.number < 2 ^ 29
  fits : r.content.Fits

theorem length_write_le (r : Record) : r.write.length ≤ r.weight := by
  rw [write, weight, List.length_append]
  exact Nat.add_le_add (length_writeVarint_toUInt64 _) r.content.length_write_le

theorem write_pos (r : Record) : 0 < r.write.length := by
  rw [write, List.length_append, length_writeVarint]
  exact (varintLength_pos _).trans_le (Nat.le_add_right _ _)

theorem key_div (r : Record) : r.key / 8 = r.number := by
  have := r.content.form_lt
  unfold key
  omega

theorem key_mod (r : Record) : r.key % 8 = r.content.form := by
  have := r.content.form_lt
  unfold key
  omega

theorem Writable.key_toUInt64 {r : Record} (h : r.Writable) : r.key.toUInt64.toNat = r.key := by
  have number := r.key_div
  have small := h.small
  exact toNat_toUInt64 (by omega)

theorem length_write {r : Record} (h : r.Writable) : r.write.length = r.weight := by
  rw [write, weight, List.length_append, length_writeVarint, h.key_toUInt64,
    Content.length_write h.fits]

theorem read?_write {r : Record} (h : r.Writable) (rest : List UInt8) :
    read? (r.write ++ rest) = some (r, rest) := by
  have number := r.key_div
  have pos := h.pos
  have small := h.small
  have size : UInt32.size = 2 ^ 32 := rfl
  have key := h.key_toUInt64
  have valid : ¬(UInt32.size ≤ r.key ∨ r.number = 0) := by omega
  simp only [read?, write, List.append_assoc, readVarint_write, Option.bind_eq_bind,
    Option.bind_some, key, key_div, if_neg valid, key_mod, Content.read?_write h.fits,
    Option.pure_def]

theorem weight_read? {input rest : List UInt8} {r : Record} (h : read? input = some (r, rest)) :
    r.weight + rest.length ≤ input.length := by
  obtain ⟨⟨key, tail⟩, read, h⟩ := Option.bind_eq_some_iff.mp h
  simp only at h
  split at h
  · cases h
  · obtain ⟨⟨content, rest'⟩, readContent, eq⟩ := Option.bind_eq_some_iff.mp h
    cases eq
    have prefixed := readVarint_shortens read
    obtain ⟨form, short⟩ := Content.read?_spec readContent
    have whole : (⟨key.toNat / 8, content⟩ : Record).key = key.toNat := by
      rw [Record.key, form]
      exact Nat.div_add_mod' _ _
    simp only [weight, whole]
    omega

end Record

namespace Message

def weight (m : Message) : Nat := (m.map Record.weight).sum

@[simp] theorem weight_nil : weight [] = 0 := rfl

@[simp] theorem weight_cons (r : Record) (m : Message) : weight (r :: m) = r.weight + weight m := rfl

@[simp] theorem weight_append (m m' : Message) : weight (m ++ m') = weight m + weight m' := by
  simp [weight]

theorem length_write_le (m : Message) : (write m).length ≤ weight m := by
  induction m with
  | nil => exact le_rfl
  | cons r rest ih =>
    rw [write, List.flatMap_cons, List.length_append]
    exact Nat.add_le_add r.length_write_le ih

theorem length_write {m : Message} (h : ∀ r ∈ m, r.Writable) : (write m).length = weight m := by
  induction m with
  | nil => rfl
  | cons r rest ih =>
    have first := Record.length_write (h r List.mem_cons_self)
    have others := ih fun r' later => h r' (List.mem_cons_of_mem r later)
    rw [write, List.flatMap_cons, List.length_append, first, weight_cons, ← others, write]

theorem length_write_of_mem {m : Message} {r : Record} (h : r ∈ m) :
    r.write.length ≤ (write m).length := by
  obtain ⟨before, after, rfl⟩ := List.append_of_mem h
  simp only [write, List.flatMap_append, List.flatMap_cons, List.length_append]
  omega

theorem readWithin_write {m : Message} (h : ∀ r ∈ m, r.Writable) {records : Nat}
    (enough : m.length ≤ records) : readWithin records (write m) = some m := by
  induction m generalizing records with
  | nil => cases records <;> rfl
  | cons r rest ih =>
    cases records with
    | zero => cases enough
    | succ records =>
      have back := Record.read?_write (h r List.mem_cons_self) (write rest)
      have others := ih (fun r' member => h r' (List.mem_cons_of_mem r member))
        (Nat.le_of_succ_le_succ enough)
      have nonempty : write (r :: rest) ≠ [] := fun empty => by
        have := r.write_pos
        simp [write, List.flatMap_cons] at empty
        simp [empty.1] at this
      rw [readWithin.eq_3 _ _ nonempty]
      rw [show write (r :: rest) = r.write ++ write rest from rfl, back]
      simp only [Option.bind_eq_bind, Option.bind_some, others, Option.pure_def]

theorem length_le_write (m : Message) : m.length ≤ (write m).length := by
  induction m with
  | nil => exact le_rfl
  | cons r rest ih =>
    have := r.write_pos
    rw [write, List.flatMap_cons, List.length_append, List.length_cons]
    change (rest.flatMap Record.write).length ≥ rest.length at ih
    omega

theorem read?_write {m : Message} (h : ∀ r ∈ m, r.Writable) : read? (write m) = some m :=
  readWithin_write h m.length_le_write

theorem weight_readWithin {records : Nat} {input : List UInt8} {m : Message}
    (h : readWithin records input = some m) : weight m ≤ input.length := by
  induction records generalizing input m with
  | zero =>
    cases input with
    | nil =>
      cases h
      exact le_rfl
    | cons b rest => cases h
  | succ records ih =>
    cases input with
    | nil =>
      cases h
      exact le_rfl
    | cons b rest =>
      obtain ⟨⟨r, tail⟩, read, h⟩ := Option.bind_eq_some_iff.mp h
      obtain ⟨m', others, eq⟩ := Option.bind_eq_some_iff.mp h
      cases eq
      have first := Record.weight_read? read
      have last := ih others
      rw [weight_cons]
      omega

theorem weight_read? {input : List UInt8} {m : Message} (h : read? input = some m) :
    weight m ≤ input.length :=
  weight_readWithin h

theorem weight_sublist {m m' : Message} (h : m.Sublist m') : weight m ≤ weight m' :=
  (h.map Record.weight).sum_le_sum fun _ _ => Nat.zero_le _

theorem declared_all {isDeclared : Nat → Bool} {m : Message} (h : ∀ r ∈ m, isDeclared r.number)
    (levels : Nat) : declared isDeclared levels [] m = some m := by
  induction m with
  | nil => rfl
  | cons r rest ih =>
    have first := h r List.mem_cons_self
    have others := ih fun r' member => h r' (List.mem_cons_of_mem r member)
    rw [declared, if_pos first, others]
    rfl

theorem declared_spec {isDeclared : Nat → Bool} {levels : Nat} {groups : List Nat}
    {m kept : Message} (h : declared isDeclared levels groups m = some kept) :
    kept.Sublist m ∧ ∀ r ∈ kept, isDeclared r.number := by
  induction m generalizing groups kept with
  | nil =>
    cases groups with
    | nil =>
      cases h
      exact ⟨.slnil, by simp⟩
    | cons group outer => cases h
  | cons r rest ih =>
    have dropped {groups' : List Nat} (h : declared isDeclared levels groups' rest = some kept) :
        kept.Sublist (r :: rest) ∧ ∀ r ∈ kept, isDeclared r.number :=
      ⟨(ih h).1.cons r, (ih h).2⟩
    cases groups with
    | nil =>
      rw [declared] at h
      split at h
      · rename_i isIn
        obtain ⟨kept', others, rfl⟩ := Option.map_eq_some_iff.mp h
        refine ⟨(ih others).1.cons_cons r, fun r' member => ?_⟩
        rcases List.mem_cons.mp member with rfl | member
        · exact isIn
        · exact (ih others).2 r' member
      · split at h
        · cases h
        · split at h
          · exact dropped h
          · cases h
          · exact dropped h
    | cons group outer =>
      rw [declared] at h
      split at h
      · split at h
        · exact dropped h
        · cases h
      · split at h
        · cases h
        · split at h
          · exact dropped h
          · exact dropped h

end Message

end OperatorGraph.Wire
