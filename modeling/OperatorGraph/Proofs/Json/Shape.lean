import OperatorGraph.Json.Shape
import OperatorGraph.Proofs.Json.Text
import OperatorGraph.Proofs.NameMap

/-!
Readers of lists and objects beside what is written for them. Whether a part can be read is decided
by the part alone: neither blanks before it nor what follows it matter.
-/

namespace OperatorGraph.Json

namespace Reader

def Blank (s : List Char) : Prop := ∀ c ∈ s, isBlank c = true

/-- Whether a number ends before a text. -/
def EndsNumber (s : List Char) : Prop :=
  ∀ c ∈ s.head?, c.isDigit = false ∧ c ≠ '.' ∧ c ≠ 'e' ∧ c ≠ 'E'

/-- What a reader makes of a text: a value, or nothing if it fails. The text does not begin like the
end of a list. -/
structure Reads {α : Type} (read : Reader α) (text : List Char) (result : Option α) : Prop where
  begins : ∃ c s, text = c :: s ∧ isBlank c = false ∧ c ≠ ']'
  attempt (blanks rest : List Char) : Blank blanks → EndsNumber rest →
    read.attempt (blanks ++ (text ++ rest)) = result.map (·, rest)

variable {α β σ : Type}

theorem blank_nil : Blank [] := fun _ member => nomatch member

theorem dropWhile_blank {blanks : List Char} (h : Blank blanks) {c : Char}
    (value : isBlank c = false) (s : List Char) : (blanks ++ c :: s).dropWhile isBlank = c :: s := by
  induction blanks with
  | nil => simp [value]
  | cons b rest ih =>
    obtain ⟨first, others⟩ := List.forall_mem_cons.mp h
    simpa [first] using ih others

theorem attempt_peek {blanks : List Char} (h : Blank blanks) {c : Char} (value : isBlank c = false)
    (s : List Char) : attempt peek (blanks ++ c :: s) = some (some c, c :: s) := by
  simp [peek, dropWhile_blank h value]

theorem attempt_peek_here {c : Char} (value : isBlank c = false) (s : List Char) :
    attempt peek (c :: s) = some (some c, c :: s) := attempt_peek blank_nil value s

theorem attempt_peekValue {blanks : List Char} (h : Blank blanks) {c : Char}
    (value : isBlank c = false) (s : List Char) :
    attempt peekValue (blanks ++ c :: s) = some (c, c :: s) := by
  simp [peekValue, attempt_peek h value]

theorem endsNumber_of_blank {blanks : List Char} (h : Blank blanks) {c : Char}
    (ends : c = ',' ∨ c = ']' ∨ c = '\x7d') (s : List Char) : EndsNumber (blanks ++ c :: s) := by
  cases blanks with
  | nil => rcases ends with rfl | rfl | rfl <;> simp [EndsNumber]
  | cons b rest =>
    have blank := h b List.mem_cons_self
    simp only [isBlank, Bool.or_eq_true, decide_eq_true_eq] at blank
    rcases blank with ((rfl | rfl) | rfl) | rfl <;> simp [EndsNumber]

namespace Reads

theorem map {read : Reader α} {text : List Char} {result : Option α} (h : Reads read text result)
    (f : α → β) : Reads (do return f (← read)) text (result.map f) where
  begins := h.begins
  attempt blanks rest blank ends := by
    cases result <;> simp [h.attempt blanks rest blank ends]

/-- What is read decides what is made of it, without a look at the text. -/
theorem bind {read : Reader α} {text : List Char} {a : α} {result : Option β}
    {next : α → Reader β} (h : Reads read text (some a))
    (changed : ∀ s, Reader.attempt (next a) s = result.map (·, s)) :
    Reads (read >>= next) text result where
  begins := h.begins
  attempt blanks rest blank ends := by simp [h.attempt blanks rest blank ends, changed]

/-- Where only a blank-free start is left. -/
theorem start {read : Reader α} {text : List Char} {result : Option α} (h : Reads read text result)
    {rest : List Char} (ends : EndsNumber rest) :
    read.attempt (text ++ rest) = result.map (·, rest) := h.attempt [] rest blank_nil ends

end Reads

theorem reads_string (s : String) : Reads string (writeText s) (some s) where
  begins := ⟨'"', _, rfl, by decide, by decide⟩
  attempt blanks rest blank ends := by
    have first : isBlank '"' = false := by decide
    have read := attempt_restOfText s rest
    simp [string, writeText, attempt_peekValue blank first, read]

theorem reads_bool (b : Bool) : Reads bool (writeBool b) (some b) where
  begins := by
    cases b
    · exact ⟨_, _, rfl, by decide, by decide⟩
    · exact ⟨_, _, rfl, by decide, by decide⟩
  attempt blanks rest blank ends := by
    cases b with
    | false =>
      have first : isBlank 'f' = false := by decide
      have read := attempt_word ['a', 'l', 's', 'e'] rest
      simp only [List.cons_append, List.nil_append] at read
      simp [bool, writeBool, attempt_peekValue blank first, read]
    | true =>
      have first : isBlank 't' = false := by decide
      have read := attempt_word ['r', 'u', 'e'] rest
      simp only [List.cons_append, List.nil_append] at read
      simp [bool, writeBool, attempt_peekValue blank first, read]

theorem reads_none (read : Reader α) : Reads (optional read) ['n', 'u', 'l', 'l'] (some none) where
  begins := ⟨_, _, rfl, by decide, by decide⟩
  attempt blanks rest blank ends := by
    have first : isBlank 'n' = false := by decide
    have word := attempt_word ['u', 'l', 'l'] rest
    simp only [List.cons_append, List.nil_append] at word
    simp [optional, attempt_peek blank first, word]

theorem reads_some {read : Reader α} {text : List Char} {result : Option α}
    (h : Reads read text result) (other : text.head? ≠ some 'n') :
    Reads (optional read) text (result.map some) where
  begins := h.begins
  attempt blanks rest blank ends := by
    obtain ⟨c, s, rfl, value, _⟩ := h.begins
    have here := h.start ends
    have apart : c ≠ 'n' := by simpa using other
    simp only [List.cons_append] at here ⊢
    simp [optional, attempt_peek blank value, apart, here]
    cases result <;> rfl

/-! ## Lists -/

/-- Whether a layout sets parts apart by nothing but blanks. -/
structure BlankLayout (layout : Layout) : Prop where
  lineBreak (level : Nat) : Blank (layout.lineBreak level)
  afterColon : Blank layout.afterColon

theorem blankLayout_indented : BlankLayout .indented where
  lineBreak level := by
    intro c member
    rcases List.mem_cons.mp member with rfl | space
    · decide
    · rw [(List.mem_replicate.mp space).2]
      decide
  afterColon := by
    intro c member
    rw [List.mem_singleton.mp member]
    decide

variable {layout : Layout} {level : Nat}

/-- What follows items up to the end of a list or an object. -/
def furtherItems (layout : Layout) (level : Nat) (closing : Char) (items : List (List Char)) :
    List Char :=
  items.flatMap (fun item => ',' :: (layout.lineBreak (level + 1) ++ item)) ++
    (layout.lineBreak level ++ [closing])

/-- What follows the bracket or brace that opens a list or an object. -/
def encloseRest (layout : Layout) (level : Nat) (closing : Char) : List (List Char) → List Char
  | [] => [closing]
  | item :: items =>
    layout.lineBreak (level + 1) ++ (item ++ furtherItems layout level closing items)

theorem enclose_eq (opening closing : Char) (items : List (List Char)) :
    enclose layout level opening closing items =
      opening :: encloseRest layout level closing items := by
  cases items with
  | nil => rfl
  | cons item items =>
    have joined : ∀ first : List Char,
        [','].intercalate ((first :: items).map (layout.lineBreak (level + 1) ++ ·)) =
          layout.lineBreak (level + 1) ++ first ++
            items.flatMap (fun item => ',' :: (layout.lineBreak (level + 1) ++ item)) := by
      induction items with
      | nil => simp
      | cons next rest ih =>
        intro first
        have later := ih next
        simp only [List.map_cons] at later
        simp [later]
    have whole := joined item
    simp only [List.map_cons] at whole
    simp [enclose, whole, encloseRest, furtherItems]

theorem furtherItems_nil (closing : Char) (rest : List Char) :
    furtherItems layout level closing [] ++ rest = layout.lineBreak level ++ closing :: rest := by
  simp [furtherItems]

theorem furtherItems_cons (closing : Char) (item : List Char) (items : List (List Char))
    (rest : List Char) :
    furtherItems layout level closing (item :: items) ++ rest =
      ',' :: (layout.lineBreak (level + 1) ++
        (item ++ (furtherItems layout level closing items ++ rest))) := by
  simp [furtherItems]

theorem endsNumber_furtherItems (blank : BlankLayout layout) (level : Nat) {closing : Char}
    (ends : closing = ']' ∨ closing = '\x7d') (items : List (List Char)) (rest : List Char) :
    EndsNumber (furtherItems layout level closing items ++ rest) := by
  cases items with
  | nil =>
    rw [furtherItems_nil]
    exact endsNumber_of_blank (blank.lineBreak level) (.inr ends) rest
  | cons item items =>
    rw [furtherItems_cons]
    exact endsNumber_of_blank blank_nil (.inl rfl) _

theorem length_le_furtherItems (layout : Layout) (level : Nat) (closing : Char)
    (items : List (List Char)) :
    items.length < (furtherItems layout level closing items).length := by
  have each : items.length ≤
      (items.flatMap fun item => ',' :: (layout.lineBreak (level + 1) ++ item)).length := by
    -- The comma before an item is enough, even where nothing else is written.
    induction items with
    | nil => exact Nat.zero_le _
    | cons item rest ih =>
      simp only [List.length_cons, List.flatMap_cons, List.length_append]
      omega
  simp only [furtherItems, List.length_append, List.length_singleton]
  omega

theorem length_le_encloseRest (layout : Layout) (level : Nat) (closing : Char)
    (items : List (List Char)) :
    items.length ≤ (encloseRest layout level closing items).length := by
  cases items with
  | nil => exact Nat.zero_le _
  | cons item items =>
    have := length_le_furtherItems layout level closing items
    simp only [encloseRest, List.length_cons, List.length_append]
    omega

section Lists

variable {read : Reader α} {text : β → List Char} {result : β → Option α}

theorem attempt_firstItem {text : List Char} {result : Option α} (h : Reads read text result)
    {blanks after : List Char} (before : Blank blanks) (ends : EndsNumber after) :
    attempt (item? true read) (blanks ++ (text ++ after)) =
      result.map fun a => (some a, after) := by
  obtain ⟨c, s, begins, value, notEnd⟩ := h.begins
  have here := h.start ends
  simp only [begins, List.cons_append] at here ⊢
  simp [item?, attempt_peek before value, here]
  cases result <;> rfl

theorem attempt_nextItem {text : List Char} {result : Option α} (h : Reads read text result)
    {blanks after : List Char} (before : Blank blanks) (ends : EndsNumber after) :
    attempt (item? false read) (',' :: (blanks ++ (text ++ after))) =
      result.map fun a => (some a, after) := by
  have comma : isBlank ',' = false := by decide
  obtain ⟨c, s, begins, value, notEnd⟩ := h.begins
  have here := h.start ends
  simp only [begins, List.cons_append] at here ⊢
  simp [item?, attempt_peek_here comma, attempt_peek before value, here]
  cases result <;> rfl

theorem attempt_lastItem {blanks : List Char} (before : Blank blanks) (isFirst : Bool)
    (rest : List Char) :
    attempt (item? isFirst read) (blanks ++ ']' :: rest) = some (none, ']' :: rest) := by
  have bracket : isBlank ']' = false := by decide
  simp [item?, attempt_peek before bracket]

/-- The items after the first one, up to the bracket. -/
theorem attempt_itemsWithin (blank : BlankLayout layout) (level : Nat) {items : List β}
    (each : ∀ b ∈ items, Reads read (text b) (result b)) {fuel : Nat} (enough : items.length < fuel)
    (rest : List Char) :
    attempt (itemsWithin read fuel false) (furtherItems layout level ']' (items.map text) ++ rest) =
      (items.mapM result).map (·, ']' :: rest) := by
  -- Each item uses up one of the items that the reader allows for, and the bracket the last one.
  induction items generalizing fuel with
  | nil =>
    obtain ⟨fuel, rfl⟩ := Nat.exists_eq_succ_of_ne_zero (Nat.ne_of_gt enough)
    rw [List.map_nil, furtherItems_nil]
    simp [itemsWithin, attempt_lastItem (blank.lineBreak level)]
  | cons b items ih =>
    obtain ⟨fuel, rfl⟩ := Nat.exists_eq_succ_of_ne_zero (Nat.ne_of_gt (Nat.zero_lt_of_lt enough))
    obtain ⟨first, others⟩ := List.forall_mem_cons.mp each
    have ends := endsNumber_furtherItems blank level (.inl rfl) (items.map text) rest
    have here := attempt_nextItem first (blank.lineBreak (level + 1)) ends
    have later := ih others (Nat.lt_of_succ_lt_succ enough)
    rw [List.map_cons, furtherItems_cons]
    simp only [itemsWithin, attempt_bind, here, List.mapM_cons]
    cases result b with
    | none => rfl
    | some a =>
      simp only [Option.map_some, Option.bind_some, attempt_bind, later]
      cases items.mapM result <;> rfl

theorem attempt_items (blank : BlankLayout layout) (level : Nat) {items : List β}
    (each : ∀ b ∈ items, Reads read (text b) (result b)) {fuel : Nat} (enough : items.length < fuel)
    (rest : List Char) :
    attempt (itemsWithin read fuel true)
        (encloseRest layout level ']' (items.map text) ++ rest) =
      (items.mapM result).map (·, ']' :: rest) := by
  obtain ⟨fuel, rfl⟩ := Nat.exists_eq_succ_of_ne_zero (Nat.ne_of_gt (Nat.zero_lt_of_lt enough))
  cases items with
  | nil =>
    have last : attempt (item? true read) (']' :: rest) = some (none, ']' :: rest) :=
      attempt_lastItem blank_nil true rest
    simp [encloseRest, itemsWithin, last]
  | cons b items =>
    obtain ⟨first, others⟩ := List.forall_mem_cons.mp each
    have ends := endsNumber_furtherItems blank level (.inl rfl) (items.map text) rest
    have here := attempt_firstItem first (blank.lineBreak (level + 1)) ends
    have later := attempt_itemsWithin blank level others (Nat.lt_of_succ_lt_succ enough) rest
    simp only [List.map_cons, encloseRest, List.append_assoc]
    simp only [itemsWithin, attempt_bind, here, List.mapM_cons]
    cases result b with
    | none => rfl
    | some a =>
      simp only [Option.map_some, Option.bind_some, attempt_bind, later]
      cases items.mapM result <;> rfl

/-- A list is read if all of its items are. -/
theorem reads_list (blank : BlankLayout layout) {items : List β}
    (each : ∀ b ∈ items, Reads read (text b) (result b)) :
    Reads (list read) (enclose layout level '[' ']' (items.map text)) (items.mapM result) where
  begins := ⟨'[', _, enclose_eq _ _ _, by decide, by decide⟩
  attempt blanks rest before ends := by
    have opening : isBlank '[' = false := by decide
    have bracket : isBlank ']' = false := by decide
    have closed : attempt listEnd (']' :: rest) = some (.unit, rest) := by
      simp [listEnd, attempt_peek_here bracket]
    have enough : items.length <
        (encloseRest layout level ']' (items.map text) ++ rest).length + 1 := by
      have := length_le_encloseRest layout level ']' (items.map text)
      simp only [List.length_map, List.length_append] at this ⊢
      omega
    have inner := attempt_items blank level each enough rest
    simp only [enclose_eq, List.cons_append]
    simp only [list, attempt_bind, attempt_peekValue before opening, Option.bind_some,
      attempt_advance, List.tail_cons, attempt_get, inner]
    cases items.mapM result with
    | none => simp
    | some as => simp [closed]

end Lists

/-! ## Objects -/

/-- A field as it is written, with a name and the text of a value. -/
def fieldText (layout : Layout) (name : String) (value : List Char) : List Char :=
  writeText name ++ ':' :: layout.afterColon ++ value

theorem attempt_colon (s : List Char) : attempt colon (':' :: s) = some (.unit, s) := by
  have colon_value : isBlank ':' = false := by decide
  simp [colon, attempt_peek_here colon_value]

theorem fieldText_append (name : String) (value rest : List Char) :
    fieldText layout name value ++ rest =
      '"' :: (name.toList.flatMap escapedChar ++
        '"' :: ':' :: (layout.afterColon ++ (value ++ rest))) := by
  simp [fieldText, writeText]

theorem attempt_firstKey {blanks : List Char} (h : Blank blanks) (name : String)
    (value rest : List Char) :
    attempt (key? true) (blanks ++ (fieldText layout name value ++ rest)) =
      some (some name, ':' :: (layout.afterColon ++ (value ++ rest))) := by
  have quote : isBlank '"' = false := by decide
  have read := attempt_restOfText name (':' :: (layout.afterColon ++ (value ++ rest)))
  rw [fieldText_append]
  simp [key?, attempt_peek h quote, read]

theorem attempt_nextKey {blanks : List Char} (h : Blank blanks) (name : String)
    (value rest : List Char) :
    attempt (key? false) (',' :: (blanks ++ (fieldText layout name value ++ rest))) =
      some (some name, ':' :: (layout.afterColon ++ (value ++ rest))) := by
  have quote : isBlank '"' = false := by decide
  have comma : isBlank ',' = false := by decide
  have read := attempt_restOfText name (':' :: (layout.afterColon ++ (value ++ rest)))
  rw [fieldText_append]
  simp [key?, attempt_peek_here comma, attempt_peek h quote, read]

theorem attempt_lastKey {blanks : List Char} (h : Blank blanks) (isFirst : Bool)
    (rest : List Char) : attempt (key? isFirst) (blanks ++ '\x7d' :: rest) = some (none, rest) := by
  have brace : isBlank '\x7d' = false := by decide
  simp [key?, attempt_peek h brace]

variable {field : σ → String → Reader σ}

/-- What a reader of fields makes of the texts of fields, one after the other. -/
inductive Folds (layout : Layout) (field : σ → String → Reader σ) :
    σ → List (String × List Char) → Option σ → Prop
  | nil (s : σ) : Folds layout field s [] (some s)
  | step {s : σ} {name : String} {value : List Char} {rest : List (String × List Char)}
      {s' : σ} {result : Option σ}
      (read : ∀ after, EndsNumber after →
        attempt (field s name) (':' :: (layout.afterColon ++ (value ++ after))) = some (s', after))
      (others : Folds layout field s' rest result) :
      Folds layout field s ((name, value) :: rest) result
  | fail {s : σ} {name : String} {value : List Char} {rest : List (String × List Char)}
      (read : ∀ after, EndsNumber after →
        attempt (field s name) (':' :: (layout.afterColon ++ (value ++ after))) = none) :
      Folds layout field s ((name, value) :: rest) none

/-- The fields after the first one, and the brace. -/
theorem attempt_fieldsWithin (blank : BlankLayout layout) (level : Nat) {s : σ}
    {fs : List (String × List Char)} {result : Option σ} (folds : Folds layout field s fs result)
    {fuel : Nat} (enough : fs.length < fuel) (rest : List Char) :
    attempt (fieldsWithin field fuel false s)
        (furtherItems layout level '\x7d' (fs.map fun f => fieldText layout f.1 f.2) ++ rest) =
      result.map (·, rest) := by
  have ends (items : List (List Char)) :=
    endsNumber_furtherItems blank level (.inr rfl : '\x7d' = ']' ∨ '\x7d' = '\x7d') items rest
  induction folds generalizing fuel with
  | nil s =>
    obtain ⟨fuel, rfl⟩ := Nat.exists_eq_succ_of_ne_zero (Nat.ne_of_gt enough)
    rw [List.map_nil, furtherItems_nil]
    simp [fieldsWithin, attempt_lastKey (blank.lineBreak level)]
  | step read others ih =>
    obtain ⟨fuel, rfl⟩ := Nat.exists_eq_succ_of_ne_zero (Nat.ne_of_gt (Nat.zero_lt_of_lt enough))
    have later := ih (Nat.lt_of_succ_lt_succ enough)
    have here (items : List (List Char)) := read _ (ends items)
    rw [List.map_cons, furtherItems_cons]
    simp [fieldsWithin, attempt_nextKey (blank.lineBreak (level + 1)), here, later]
  | fail read =>
    obtain ⟨fuel, rfl⟩ := Nat.exists_eq_succ_of_ne_zero (Nat.ne_of_gt (Nat.zero_lt_of_lt enough))
    have here (items : List (List Char)) := read _ (ends items)
    rw [List.map_cons, furtherItems_cons]
    simp [fieldsWithin, attempt_nextKey (blank.lineBreak (level + 1)), here]

theorem attempt_allFields (blank : BlankLayout layout) (level : Nat) {s : σ}
    {fs : List (String × List Char)} {result : Option σ} (folds : Folds layout field s fs result)
    {fuel : Nat} (enough : fs.length < fuel) (rest : List Char) :
    attempt (fieldsWithin field fuel true s)
        (encloseRest layout level '\x7d' (fs.map fun f => fieldText layout f.1 f.2) ++ rest) =
      result.map (·, rest) := by
  obtain ⟨fuel, rfl⟩ := Nat.exists_eq_succ_of_ne_zero (Nat.ne_of_gt (Nat.zero_lt_of_lt enough))
  have ends (items : List (List Char)) :=
    endsNumber_furtherItems blank level (.inr rfl : '\x7d' = ']' ∨ '\x7d' = '\x7d') items rest
  cases folds with
  | nil s =>
    have last : attempt (key? true) ('\x7d' :: rest) = some (none, rest) :=
      attempt_lastKey blank_nil true rest
    simp [fieldsWithin, encloseRest, last]
  | step read others =>
    have here (items : List (List Char)) := read _ (ends items)
    have later := attempt_fieldsWithin blank level others (Nat.lt_of_succ_lt_succ enough) rest
    simp [fieldsWithin, encloseRest, attempt_firstKey (blank.lineBreak (level + 1)), here, later]
  | fail read =>
    have here (items : List (List Char)) := read _ (ends items)
    simp [fieldsWithin, encloseRest, attempt_firstKey (blank.lineBreak (level + 1)), here]

/-- The fields of an object after its opening brace. -/
theorem attempt_fields (blank : BlankLayout layout) (level : Nat) {s : σ}
    {fs : List (String × List Char)} {result : Option σ} (folds : Folds layout field s fs result)
    (rest : List Char) :
    attempt (fields field s)
        (encloseRest layout level '\x7d' (fs.map fun f => fieldText layout f.1 f.2) ++ rest) =
      result.map (·, rest) := by
  have bound := length_le_encloseRest layout level '\x7d' (fs.map fun f => fieldText layout f.1 f.2)
  have enough : fs.length < (encloseRest layout level '\x7d'
      (fs.map fun f => fieldText layout f.1 f.2) ++ rest).length + 1 := by
    simp only [List.length_map, List.length_append] at bound ⊢
    omega
  simp only [fields, attempt_bind, attempt_get, Option.bind_some,
    attempt_allFields blank level folds enough rest]

section Fields

variable {read : Reader α} {value : List Char} {result : Option α}

/-- The value of a field that has not occurred yet. -/
theorem attempt_once (blank : BlankLayout layout) (h : Reads read value result) (name : String)
    {after : List Char} (ends : EndsNumber after) :
    attempt (once name none read) (':' :: (layout.afterColon ++ (value ++ after))) =
      result.map fun a => (some a, after) := by
  have here := h.attempt _ _ blank.afterColon ends
  cases result <;> simp [once, attempt_colon, here]

end Fields

/-- Values that are read as themselves if they pass a test. -/
theorem mapM_guard (keeps : α → Bool) (as : List α) :
    as.mapM (Option.guard keeps) = Option.guard (·.all keeps) as := by
  induction as with
  | nil => rfl
  | cons a rest ih =>
    rw [List.mapM_cons, ih]
    by_cases kept : keeps a = true
    · by_cases others : rest.all keeps = true <;> simp [Option.guard, kept, others]
    · simp [Option.guard, kept]

theorem guard_map {keeps : α → Bool} {keeps' : β → Bool} {f : α → β} {a : α} {b : β}
    (same : keeps' b = keeps a) (back : f a = b) :
    (Option.guard keeps a).map f = Option.guard keeps' b := by
  by_cases kept : keeps a = true
  · simp [Option.guard, kept, same, back]
  · simp [Option.guard, kept, same]

section Maps

variable {read : Reader α} {text : α → List Char} {keeps : α → Bool}

theorem folds_map (blank : BlankLayout layout)
    (each : ∀ a, Reads read (text a) (Option.guard keeps a)) (entries : List (String × α))
    (m : NameMap α) :
    Folds layout (fun (m : NameMap α) key => do colon; return m.insert key (← read)) m
      (entries.map fun e => (e.1, text e.2))
      (if entries.all fun e => keeps e.2 then some (m.insertAll entries) else none) := by
  induction entries generalizing m with
  | nil => exact .nil m
  | cons e rest ih =>
    by_cases kept : keeps e.2 = true
    · simp only [List.all_cons, kept, Bool.true_and]
      refine .step (fun after ends => ?_) (ih (m.insert e.1 e.2))
      have here := (each e.2).attempt _ _ blank.afterColon ends
      simp [attempt_colon, here, kept]
    · simp only [List.all_cons, kept, Bool.false_and, Bool.false_eq_true, if_false]
      refine .fail fun after ends => ?_
      have here := (each e.2).attempt _ _ blank.afterColon ends
      simp [attempt_colon, here, Option.guard, kept]

/-- A map is read if all of its values are. -/
theorem reads_map (blank : BlankLayout layout) (level : Nat)
    (each : ∀ a, Reads read (text a) (Option.guard keeps a)) (m : NameMap α) :
    Reads (Reader.map read)
      (enclose layout level '\x7b' '\x7d' (m.entries.map fun e => fieldText layout e.1 (text e.2)))
      (Option.guard (fun m => m.entries.all fun e => keeps e.2) m) where
  begins := ⟨'\x7b', _, enclose_eq _ _ _, by decide, by decide⟩
  attempt blanks rest before ends := by
    have brace : isBlank '\x7b' = false := by decide
    have inner := attempt_fields blank level (folds_map blank each m.entries .empty) rest
    simp only [List.map_map, Function.comp_def] at inner
    rw [enclose_eq, List.cons_append]
    simp only [Reader.map, attempt_bind, attempt_peekValue before brace, Option.bind_some,
      attempt_advance, List.tail_cons, inner]
    have back : NameMap.insertAll .empty m.entries = m := NameMap.ofList_entries m
    rw [back]
    rfl

end Maps

/-! ## Choices -/

/-- A case with content is read by the reader for that content. -/
theorem reads_choice (blank : BlankLayout layout) (level : Nat) {cases : List (String × Reader α)}
    {name : String} {read : Reader α} (found : cases.lookup name = some read) {value : List Char}
    {result : Option α} (h : Reads read value result) :
    Reads (choice cases) (enclose layout level '\x7b' '\x7d' [fieldText layout name value]) result
    where
  begins := ⟨'\x7b', _, enclose_eq _ _ _, by decide, by decide⟩
  attempt blanks rest before ends := by
    have brace : isBlank '\x7b' = false := by decide
    have closing : isBlank '\x7d' = false := by decide
    have after := endsNumber_furtherItems blank level (.inr rfl : '\x7d' = ']' ∨ '\x7d' = '\x7d')
      [] rest
    have here := h.attempt _ _ blank.afterColon after
    have last := attempt_peek (blank.lineBreak level) closing rest
    rw [← furtherItems_nil] at last
    rw [enclose_eq, List.cons_append]
    simp only [encloseRest, List.append_assoc]
    simp [choice, attempt_peekValue before brace, caseField,
      attempt_firstKey (blank.lineBreak (level + 1)), ofCase, found, attempt_colon, here]
    cases result <;> simp [onlyFieldEnd, last]

/-- A case without content is written as its name. -/
theorem reads_label {cases : List (String × α)} {name : String} {a : α}
    (found : cases.lookup name = some a) : Reads (label cases) (writeText name) (some a) where
  begins := ⟨'"', _, rfl, by decide, by decide⟩
  attempt blanks rest before ends := by
    have quote : isBlank '"' = false := by decide
    have read := attempt_restOfText name rest
    simp [label, writeText, attempt_peekValue before quote, read, ofCase, found]

/-- A structure is read from the fields of its object. -/
theorem reads_record (blank : BlankLayout layout) (level : Nat) (name : String)
    (asList : Reader α) {field : σ → String → Reader σ} {start : σ} {fs : List (String × List Char)}
    {complete : σ → Reader α} {result : Option σ} {final : σ → α}
    (folds : Folds layout field start fs result)
    (completes : ∀ s, result = some s → complete s = pure (final s)) :
    Reads (record name asList (fields field start >>= complete))
      (enclose layout level '\x7b' '\x7d' (fs.map fun f => fieldText layout f.1 f.2))
      (result.map final) where
  begins := ⟨'\x7b', _, enclose_eq _ _ _, by decide, by decide⟩
  attempt blanks rest before ends := by
    have brace : isBlank '\x7b' = false := by decide
    have inner := attempt_fields blank level folds rest
    rw [enclose_eq, List.cons_append]
    simp [record, attempt_peekValue before brace, inner]
    cases result with
    | none => rfl
    | some s => simp [completes s rfl]

end Reader

end OperatorGraph.Json
