import OperatorGraph.Proofs.Wire.Record
import OperatorGraph.Wire.Field

/-!
What the bytes of a message look like, said without a reader. A number of variable length may be
padded, so a message has many spellings; the readers accept these and nothing else.
-/

namespace OperatorGraph.Wire

/-- Seven bits to a byte, the lowest first; every byte but the last has its high bit set. -/
inductive SevenBits : Nat → List UInt8 → Prop
  | last {b : UInt8} (high : b.toNat < 128) : SevenBits b.toNat [b]
  | more {b : UInt8} {n : Nat} {bytes : List UInt8} (high : 128 ≤ b.toNat)
      (rest : SevenBits n bytes) : SevenBits (b.toNat - 128 + 128 * n) (b :: bytes)

structure IsVarint (n : UInt64) (bytes : List UInt8) : Prop where
  bits : SevenBits n.toNat bytes
  short : bytes.length ≤ 10

inductive Content.Spells : Content → List UInt8 → Prop
  | varint {n : UInt64} {bytes : List UInt8} (spelled : IsVarint n bytes) : Spells (.varint n) bytes
  | fixed64 (n : UInt64) : Spells (.fixed64 n) (writeFixed 8 n.toNat)
  | bytes {length : UInt64} {lengthBytes content : List UInt8} (spelled : IsVarint length lengthBytes)
      (counts : length.toNat = content.length) : Spells (.bytes content) (lengthBytes ++ content)
  | groupStart : Spells .groupStart []
  | groupEnd : Spells .groupEnd []
  | fixed32 (n : UInt32) : Spells (.fixed32 n) (writeFixed 4 n.toNat)

/-- A key of the number and the form, and then the content. -/
inductive Record.Spells : Record → List UInt8 → Prop
  | intro {number : Nat} {content : Content} {key : UInt64} {keyBytes bytes : List UInt8}
      (spelled : IsVarint key keyBytes) (holds : key.toNat = number * 8 + content.form)
      (pos : 0 < number) (small : number < 2 ^ 29) (spells : content.Spells bytes) :
      Spells ⟨number, content⟩ (keyBytes ++ bytes)

/-- Items one after the other. -/
inductive Series {α : Type} (spells : α → List UInt8 → Prop) : List α → List UInt8 → Prop
  | nil : Series spells [] []
  | cons {a : α} {rest : List α} {bytes bytes' : List UInt8} (first : spells a bytes)
      (others : Series spells rest bytes') : Series spells (a :: rest) (bytes ++ bytes')

abbrev Message.Spells : Message → List UInt8 → Prop := Series Record.Spells

theorem SevenBits.ne_nil {n : Nat} {bytes : List UInt8} (h : SevenBits n bytes) : bytes ≠ [] := by
  cases h <;> exact List.cons_ne_nil _ _

theorem readVarintWithin_of_sevenBits {n count : Nat} {bytes : List UInt8} (h : SevenBits n bytes)
    (short : bytes.length ≤ count + 1) (small : n < 2 ^ (7 * count + 1)) (rest : List UInt8) :
    readVarintWithin (count + 1) (bytes ++ rest) = some (n, rest) := by
  induction h generalizing count with
  | @last b high =>
    have valid : ¬(count = 0 ∧ 2 ≤ b.toNat) := by
      rintro ⟨rfl, large⟩
      exact absurd small (Nat.not_lt.mpr large)
    rw [List.cons_append, readVarintWithin, if_neg valid, if_pos high, List.nil_append]
  | @more b n bytes high more ih =>
    have := List.length_pos_iff.mpr more.ne_nil
    rw [List.length_cons] at short
    obtain ⟨count, rfl⟩ : ∃ fewer, count = fewer + 1 := ⟨count - 1, by omega⟩
    have inner : n < 2 ^ (7 * count + 1) := by
      have split : 2 ^ (7 * (count + 1) + 1) = 128 * 2 ^ (7 * count + 1) := by ring
      omega
    rw [List.cons_append, readVarintWithin, if_neg (by omega), if_neg (by omega),
      ih (by omega) inner, Option.map_some]

theorem sevenBits_of_readVarintWithin {n count : Nat} {input rest : List UInt8}
    (h : readVarintWithin count input = some (n, rest)) :
    ∃ bytes, SevenBits n bytes ∧ bytes.length ≤ count ∧ input = bytes ++ rest := by
  induction count generalizing n input with
  | zero => cases h
  | succ count ih =>
    cases input with
    | nil => cases h
    | cons b tail =>
      rw [readVarintWithin] at h
      split at h
      · cases h
      · split at h
        · rename_i high
          cases h
          exact ⟨[b], .last high, Nat.succ_le_succ (Nat.zero_le count), rfl⟩
        · rename_i high
          obtain ⟨⟨m, rest'⟩, read, eq⟩ := Option.map_eq_some_iff.mp h
          cases eq
          obtain ⟨bytes, bits, short, rfl⟩ := ih read
          exact ⟨b :: bytes, .more (Nat.not_lt.mp high) bits, Nat.succ_le_succ short, rfl⟩

theorem readVarint_eq_some_iff {n : UInt64} {input rest : List UInt8} :
    readVarint input = some (n, rest) ↔ ∃ bytes, IsVarint n bytes ∧ input = bytes ++ rest := by
  constructor
  · intro h
    obtain ⟨⟨m, rest'⟩, read, eq⟩ := Option.map_eq_some_iff.mp h
    cases eq
    have small : m < 2 ^ 64 := (readVarintWithin_bounds read).1
    obtain ⟨bytes, bits, short, eq⟩ := sevenBits_of_readVarintWithin read
    exact ⟨bytes, ⟨(toNat_toUInt64 small).symm ▸ bits, short⟩, eq⟩
  · rintro ⟨bytes, ⟨bits, short⟩, rfl⟩
    have read : readVarintWithin varintBytes (bytes ++ rest) = some (n.toNat, rest) :=
      readVarintWithin_of_sevenBits bits short n.toNat_lt rest
    simp only [readVarint, read, Option.map_some, Nat.toUInt64, UInt64.ofNat_toNat]

theorem readFixed_eq_some_iff {width n : Nat} {input rest : List UInt8} :
    readFixed width input = some (n, rest) ↔
      n < 256 ^ width ∧ input = writeFixed width n ++ rest := by
  constructor
  · intro h
    refine ⟨(readFixed_bounds h).1, ?_⟩
    induction width generalizing n input with
    | zero =>
      cases h
      rfl
    | succ width ih =>
      cases input with
      | nil => cases h
      | cons b tail =>
        obtain ⟨⟨m, rest'⟩, read, eq⟩ := Option.map_eq_some_iff.mp h
        cases eq
        have low : (b.toNat + 256 * m) % 256 = b.toNat := by
          have := b.toNat_lt
          omega
        have high : (b.toNat + 256 * m) / 256 = m := by
          have := b.toNat_lt
          omega
        rw [ih read, writeFixed, low, high, Nat.toUInt8, UInt8.ofNat_toNat, List.cons_append]
  · rintro ⟨small, rfl⟩
    exact readFixed_write small rest

theorem takeBytes_eq_some_iff {n : Nat} {input content rest : List UInt8} :
    takeBytes n input = some (content, rest) ↔ n = content.length ∧ input = content ++ rest := by
  constructor
  · intro h
    refine ⟨(takeBytes_bounds h).1.symm, ?_⟩
    unfold takeBytes at h
    split at h
    · rw [List.splitAt_eq, Option.some.injEq, Prod.mk.injEq] at h
      rw [← h.1, ← h.2, List.take_append_drop]
    · cases h
  · rintro ⟨rfl, rfl⟩
    exact takeBytes_append content rest

theorem Content.read?_eq_some_iff {form : Nat} {input rest : List UInt8} {c : Content} :
    read? form input = some (c, rest) ↔
      c.form = form ∧ ∃ bytes, c.Spells bytes ∧ input = bytes ++ rest := by
  constructor
  · intro h
    refine ⟨(read?_spec h).1, ?_⟩
    unfold read? at h
    split at h
    · obtain ⟨⟨n, rest'⟩, read, eq⟩ := Option.map_eq_some_iff.mp h
      cases eq
      obtain ⟨bytes, spelled, eq⟩ := readVarint_eq_some_iff.mp read
      exact ⟨bytes, .varint spelled, eq⟩
    · obtain ⟨⟨n, rest'⟩, read, eq⟩ := Option.map_eq_some_iff.mp h
      cases eq
      obtain ⟨small, eq⟩ := readFixed_eq_some_iff.mp read
      rw [← toNat_toUInt64 small] at eq
      exact ⟨_, .fixed64 n.toUInt64, eq⟩
    · obtain ⟨⟨length, tail⟩, read, h⟩ := Option.bind_eq_some_iff.mp h
      obtain ⟨⟨content, rest'⟩, taken, eq⟩ := Option.bind_eq_some_iff.mp h
      cases eq
      obtain ⟨bytes, spelled, rfl⟩ := readVarint_eq_some_iff.mp read
      obtain ⟨counts, rfl⟩ := takeBytes_eq_some_iff.mp taken
      exact ⟨_, .bytes spelled counts, (List.append_assoc _ _ _).symm⟩
    · cases h
      exact ⟨[], .groupStart, rfl⟩
    · cases h
      exact ⟨[], .groupEnd, rfl⟩
    · obtain ⟨⟨n, rest'⟩, read, eq⟩ := Option.map_eq_some_iff.mp h
      cases eq
      obtain ⟨small, eq⟩ := readFixed_eq_some_iff.mp read
      have same : n.toUInt32.toNat = n := Nat.mod_eq_of_lt small
      rw [← same] at eq
      exact ⟨_, .fixed32 n.toUInt32, eq⟩
    · cases h
  · rintro ⟨rfl, bytes, spells, rfl⟩
    cases spells with
    | varint spelled =>
      simp only [form, read?, readVarint_eq_some_iff.mpr ⟨_, spelled, rfl⟩, Option.map_some]
    | fixed64 n => exact read?_write (c := .fixed64 n) trivial rest
    | bytes spelled counts =>
      simp only [form, read?, List.append_assoc, readVarint_eq_some_iff.mpr ⟨_, spelled, rfl⟩,
        Option.bind_eq_bind, Option.bind_some, counts, takeBytes_append, Option.pure_def]
    | groupStart => rfl
    | groupEnd => rfl
    | fixed32 n => exact read?_write (c := .fixed32 n) trivial rest

theorem Record.read?_eq_some_iff {input rest : List UInt8} {r : Record} :
    read? input = some (r, rest) ↔ ∃ bytes, r.Spells bytes ∧ input = bytes ++ rest := by
  have size : UInt32.size = 2 ^ 32 := rfl
  constructor
  · intro h
    obtain ⟨⟨key, tail⟩, read, h⟩ := Option.bind_eq_some_iff.mp h
    simp only at h
    split at h
    · cases h
    · rename_i valid
      obtain ⟨⟨content, rest'⟩, readContent, eq⟩ := Option.bind_eq_some_iff.mp h
      cases eq
      obtain ⟨keyBytes, spelled, rfl⟩ := readVarint_eq_some_iff.mp read
      obtain ⟨form, bytes, spells, rfl⟩ := Content.read?_eq_some_iff.mp readContent
      refine ⟨keyBytes ++ bytes, .intro spelled ?_ ?_ ?_ spells, (List.append_assoc _ _ _).symm⟩
      · rw [form]
        exact (Nat.div_add_mod' key.toNat 8).symm
      · omega
      · omega
  · rintro ⟨_, @⟨number, content, key, keyBytes, bytes, spelled, holds, pos, small, spells⟩, rfl⟩
    have form := content.form_lt
    have whole : key.toNat / 8 = number := by omega
    have part : key.toNat % 8 = content.form := by omega
    have valid : ¬(UInt32.size ≤ key.toNat ∨ number = 0) := by omega
    have inner : Content.read? content.form (bytes ++ rest) = some (content, rest) :=
      Content.read?_eq_some_iff.mpr ⟨rfl, bytes, spells, rfl⟩
    simp only [read?, List.append_assoc, readVarint_eq_some_iff.mpr ⟨_, spelled, rfl⟩,
      Option.bind_eq_bind, Option.bind_some, whole, part, if_neg valid, inner, Option.pure_def]

theorem Record.Spells.ne_nil {r : Record} {bytes : List UInt8} (h : r.Spells bytes) : bytes ≠ [] := by
  cases h with
  | intro spelled => exact List.append_ne_nil_of_left_ne_nil spelled.bits.ne_nil _

namespace Series

variable {α : Type} {spells : α → List UInt8 → Prop}

theorem append {as as' : List α} {bytes bytes' : List UInt8} (h : Series spells as bytes)
    (h' : Series spells as' bytes') : Series spells (as ++ as') (bytes ++ bytes') := by
  induction h with
  | nil => exact h'
  | cons first _ ih =>
    rw [List.append_assoc]
    exact .cons first ih

variable {read : List UInt8 → Option (α × List UInt8)}

theorem unpackWithin (sound : ∀ {input a rest}, read input = some (a, rest) ↔
      ∃ bytes, spells a bytes ∧ input = bytes ++ rest)
    (nonempty : ∀ {a bytes}, spells a bytes → bytes ≠ []) {as : List α} {input : List UInt8} :
    Content.unpackWithin read input.length input = some as ↔ Series spells as input := by
  constructor
  · suffices every : ∀ count, Content.unpackWithin read count input = some as →
        Series spells as input from every _
    intro count h
    induction count generalizing input as with
    | zero =>
      cases input with
      | nil =>
        cases h
        exact .nil
      | cons b rest => cases h
    | succ count ih =>
      cases input with
      | nil =>
        cases h
        exact .nil
      | cons b tail =>
        obtain ⟨⟨a, rest⟩, first, h⟩ := Option.bind_eq_some_iff.mp h
        obtain ⟨others, unpacked, eq⟩ := Option.bind_eq_some_iff.mp h
        cases eq
        obtain ⟨bytes, spelled, eq⟩ := sound.mp first
        rw [eq]
        exact .cons spelled (ih unpacked)
  · suffices every : Series spells as input → ∀ count, input.length ≤ count →
        Content.unpackWithin read count input = some as from fun h => every h _ le_rfl
    intro h
    induction h with
    | nil =>
      intro count _
      cases count <;> rfl
    | @cons a rest bytes bytes' first _ ih =>
      intro count enough
      have := List.length_pos_iff.mpr (nonempty first)
      rw [List.length_append] at enough
      obtain ⟨count, rfl⟩ : ∃ fewer, count = fewer + 1 := ⟨count - 1, by omega⟩
      have some_left : bytes ++ bytes' ≠ [] := List.append_ne_nil_of_left_ne_nil (nonempty first) _
      rw [Content.unpackWithin.eq_3 _ _ _ some_left, sound.mpr ⟨bytes, first, rfl⟩]
      simp only [Option.bind_eq_bind, Option.bind_some, ih count (by omega), Option.pure_def]

end Series

namespace Message

theorem readWithin_eq_unpackWithin (count : Nat) (input : List UInt8) :
    readWithin count input = Content.unpackWithin Record.read? count input := by
  induction count generalizing input with
  | zero => cases input <;> rfl
  | succ count ih =>
    cases input with
    | nil => rfl
    | cons b rest => simp only [readWithin, Content.unpackWithin, ih]

theorem read?_eq_some_iff {input : List UInt8} {m : Message} :
    read? input = some m ↔ m.Spells input := by
  rw [read?, readWithin_eq_unpackWithin]
  exact Series.unpackWithin Record.read?_eq_some_iff Record.Spells.ne_nil

/-- Where a message ends in longer bytes, another one begins. -/
theorem Spells.exists_rest {m whole : Message} {bytes after : List UInt8} (h : m.Spells bytes)
    (spells : whole.Spells (bytes ++ after)) : ∃ rest, whole = m ++ rest ∧ rest.Spells after := by
  induction h generalizing whole with
  | nil => exact ⟨whole, rfl, spells⟩
  | @cons r m bytes bytes' first others ih =>
    have read : Record.read? (bytes ++ (bytes' ++ after)) = some (r, bytes' ++ after) :=
      Record.read?_eq_some_iff.mpr ⟨bytes, first, rfl⟩
    rw [List.append_assoc] at spells
    generalize input : bytes ++ (bytes' ++ after) = all at spells read
    cases spells with
    | nil => exact absurd (List.append_eq_nil_iff.mp input).1 first.ne_nil
    | @cons r' whole bytes₂ bytes₂' first' others' =>
      have read' : Record.read? (bytes₂ ++ bytes₂') = some (r', bytes₂') :=
        Record.read?_eq_some_iff.mpr ⟨bytes₂, first', rfl⟩
      cases read.symm.trans read'
      obtain ⟨rest, rfl, last⟩ := ih others'
      exact ⟨rest, rfl, last⟩

theorem Spells.unique {m m' : Message} {bytes : List UInt8} (h : m.Spells bytes)
    (h' : m'.Spells bytes) : m = m' :=
  Option.some.inj ((read?_eq_some_iff.mpr h).symm.trans (read?_eq_some_iff.mpr h'))

end Message

end OperatorGraph.Wire
