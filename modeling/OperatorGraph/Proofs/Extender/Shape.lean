import OperatorGraph.Proofs.Extender.Documented
import OperatorGraph.Proofs.Text.Dimension

/-!
Shapes of parameters written as text. A shape is read with all that has two dots in a row as an
interval, and one that cannot be read is reported and kept. Main statement: when that is what the
grammar of documented intervals says.
-/

namespace OperatorGraph

namespace Extender

open Attribute (Fault Store Value)
open Text (HasDots IsDimension IsRange IsShape parts)

theorem isInterval_iff {s : List Char} : isInterval s = true ↔ HasDots s := by
  fun_induction isInterval s with
  | case1 rest => exact iff_of_true rfl ⟨[], rest, rfl⟩
  | case2 c rest other ih =>
    rw [ih, HasDots, HasDots, List.infix_cons_iff]
    refine ⟨.inr, fun found => found.resolve_left ?_⟩
    rintro ⟨after, split⟩
    cases split
    exact other after rfl rfl
  | case3 => exact iff_of_false Bool.false_ne_true fun dots => by cases dots.dot_mem

theorem dimension?_eq_some_iff {item : List Char} {n : Int64} :
    dimension? item = some n ↔ IsDimension HasDots item n := by
  unfold dimension?
  simp only [isInterval_iff]
  constructor
  · intro read
    split at read
    · rename_i dynamic
      cases Option.some.inj read
      rcases dynamic with rfl | dots
      · exact .unknown
      · exact .interval dots
    · exact .fixed (Text.integer?_eq_some_iff.mp read)
  · intro h
    cases h with
    | unknown => rw [if_pos (.inl rfl)]
    | interval dots => rw [if_pos (.inr dots)]
    | fixed integer =>
      have closed : ¬(item = ['?'] ∨ HasDots item) := by
        rintro (rfl | dots)
        · exact absurd (integer.isDigit_or_sign (List.mem_singleton_self _)) (by decide)
        · exact integer.not_hasDots dots
      rw [if_neg closed, Text.integer?_eq_some_iff.mpr integer]

theorem mapM_dimension?_items_eq_some_iff {s : List Char} {ns : List Int64} :
    (Text.items s).mapM dimension? = some ns ↔ IsShape HasDots s ns := by
  simp only [Text.mapM_items_eq_some_iff, dimension?_eq_some_iff]
  constructor
  · rintro (⟨blank, rfl⟩ | ⟨filled, each⟩)
    · exact .blank blank
    · exact .listed filled each
  · rintro (blank | ⟨filled, each⟩)
    · exact .inl ⟨blank, rfl⟩
    · exact .inr ⟨filled, each⟩

/-- What becomes of an attribute with the text of a shape: the list that stands for it, or else
nothing new and one fault. -/
structure Shaped (interval : List Char → Prop) (name s : String) (after : Outcome) : Prop where
  read : ∀ ns, IsShape interval s.toList ns →
    after.attributes.get? name = some (.ints ns) ∧
      after.faults.filter (fun fault => fault.names.contains name) = []
  refused : (¬∃ ns, IsShape interval s.toList ns) →
    after.attributes.get? name = some (.text s) ∧
      after.faults.filter (fun fault => fault.names.contains name) =
        [.unparseable name s .dimension]

theorem Shaped.congr {interval interval' : List Char → Prop} {name s : String} {after : Outcome}
    (h : Shaped interval name s after)
    (same : ∀ ns, IsShape interval s.toList ns ↔ IsShape interval' s.toList ns) :
    Shaped interval' name s after where
  read ns shape := h.read ns ((same ns).mpr shape)
  refused shapeless := h.refused fun ⟨ns, shape⟩ => shapeless ⟨ns, (same ns).mp shape⟩

/-- What is read with all that has two dots in a row as an interval is what the documented grammar
says exactly if all that has them is an interval, or the text cannot be read even so. -/
theorem Shaped.documented_iff {name s : String} {after : Outcome}
    (h : Shaped HasDots name s after) :
    Shaped IsRange name s after ↔
      (∀ part ∈ parts s.toList, HasDots part → IsRange part) ∨
        ¬∃ ns, IsShape HasDots s.toList ns := by
  constructor
  · intro documented
    by_cases read : ∃ ns, IsShape HasDots s.toList ns
    · obtain ⟨ns, shape⟩ := read
      -- the text is gone, so the documented grammar has not refused it
      obtain ⟨ns', shape'⟩ : ∃ ns, IsShape IsRange s.toList ns := by
        by_contra shapeless
        cases (h.read ns shape).1.symm.trans (documented.refused shapeless).1
      exact .inl fun part member dots => shape'.interval_of_hasDots member dots
    · exact .inr read
  · rintro (ranges | unread)
    · refine h.congr fun ns => Text.isShape_congr fun part member => ?_
      exact ⟨ranges part member, Text.IsRange.hasDots⟩
    · refine h.congr fun ns => iff_of_false (fun shape => unread ⟨ns, shape⟩) fun shape => ?_
      exact unread ⟨ns, shape.imp fun _ => Text.IsRange.hasDots⟩

theorem Rule.applyShape_shaped {store : Store} {name s : String}
    (held : store.get? name = some (.text s)) :
    Shaped HasDots name s (applyShape name store) := by
  have text : store.text? name = some s := by simp only [Store.text?, held, Value.text]
  constructor
  · intro ns shape
    have read := mapM_dimension?_items_eq_some_iff.mpr shape
    simp [applyShape_eq, text, read, Outcome.ofChange, NameMap.get?_insert]
  · intro shapeless
    have unread : (Text.items s.toList).mapM dimension? = none :=
      Option.eq_none_iff_forall_ne_some.mpr fun ns read =>
        shapeless ⟨ns, mapM_dimension?_items_eq_some_iff.mp read⟩
    simp [applyShape_eq, text, unread, Outcome.ofChange, held, Fault.names]

/-- The element type of a parameter does not meddle with its shape. -/
theorem parameter_shaped {node : Node} {s : String}
    (held : node.attributes.get? "shape" = some (.text s)) :
    Shaped HasDots "shape" s (parameter.extender.extend node) := by
  have alone : parameter.rules.filter (Rule.shape "shape").disturbs = [.shape "shape"] := by decide
  have kept : ∀ o ∈ parameter.rules, o.derives "shape" = false := by decide
  obtain ⟨attributes, faults⟩ := Rule.applyAll_alone_names node alone List.mem_cons_self kept
    node.attributes
  have own := Rule.applyShape_shaped held
  change Shaped HasDots "shape" s (Rule.applyAll node parameter.rules node.attributes)
  constructor
  · intro ns shape
    rw [attributes "shape" List.mem_cons_self, faults]
    exact own.read ns shape
  · intro shapeless
    rw [attributes "shape" List.mem_cons_self, faults]
    exact own.refused shapeless

end Extender

open Extender (Shaped parameter)
open Text (HasDots IsRange IsShape parts)

theorem Registry.lookup_parameter : builtin.lookup "Parameter" = some parameter.extender :=
  lookup_builtin (s := parameter) (by simp [Extender.builtinRules])

/-- The text of a shape is replaced by its dimensions if all of them can be read, and refused
otherwise, where whatever has two dots in a row is read as an interval. So the documented grammar
decides exactly if all that has them is an interval, or some other dimension cannot be read. -/
theorem Registry.exists_shaped {node : Node} {s : String}
    (held : node.attributes.get? "shape" = some (.text s)) :
    ∃ e, builtin.lookup "Parameter" = some e ∧ Shaped HasDots "shape" s (e.extend node) ∧
      (Shaped IsRange "shape" s (e.extend node) ↔
        (∀ part ∈ parts s.toList, HasDots part → IsRange part) ∨
          ¬∃ ns, IsShape HasDots s.toList ns) := by
  have shaped := Extender.parameter_shaped held
  exact ⟨parameter.extender, lookup_parameter, shaped, shaped.documented_iff⟩

/-- A negative dimension, an unknown one, an interval with blanks around it, one without bounds. -/
theorem Registry.exists_shaped_intervals :
    let s := "-7,?, 2..8 ,.."
    let node : Node :=
      { opType := "Parameter"
        attributes := .ofList [("element_type", .text "f32"), ("shape", .text s)] }
    node.attributes.get? "shape" = some (.text s) ∧ IsShape IsRange s.toList [-7, -1, -1, -1] ∧
      ∃ e, builtin.lookup "Parameter" = some e ∧ Shaped IsRange "shape" s (e.extend node) ∧
        (e.extend node).attributes.get? "shape" = some (.ints [-7, -1, -1, -1]) := by
  intro s node
  have held : node.attributes.get? "shape" = some (.text s) := by decide
  have digit (c : Char) (h : c.isDigit = true) : Text.IsNatural [c] (Nat.ofDigitChars 10 [c] 0) :=
    ⟨by simp, by simpa using h, rfl⟩
  have fixed : Text.IsInteger ['-', '7'] (-7 : Int64).toInt := .minus (digit '7' rfl)
  have between : IsRange ['2', '.', '.', '8'] :=
    ⟨['2'], ['8'], .inr ⟨_, digit '2' rfl⟩, .inr ⟨_, digit '8' rfl⟩, rfl⟩
  have unbounded : IsRange ['.', '.'] := ⟨[], [], .inl rfl, .inl rfl, rfl⟩
  have cut : parts s.toList = [['-', '7'], ['?'], ['2', '.', '.', '8'], ['.', '.']] := by decide
  have shape : IsShape IsRange s.toList [-7, -1, -1, -1] := by
    refine .listed (by decide) ?_
    rw [cut]
    exact .cons (.fixed fixed) (.cons .unknown (.cons (.interval between)
      (.cons (.interval unbounded) .nil)))
  obtain ⟨e, found, _, documented⟩ := exists_shaped held
  have ranges := documented.mpr (.inl fun part member dots => shape.interval_of_hasDots member dots)
  exact ⟨held, shape, e, found, ranges, (ranges.read _ shape).1⟩

/-- A dimension with two dots in a row that is no interval is taken for one. -/
theorem Registry.not_exists_shaped :
    ¬∀ (node : Node) (s : String), node.attributes.get? "shape" = some (.text s) →
      ∃ e, builtin.lookup "Parameter" = some e ∧ Shaped IsRange "shape" s (e.extend node) := by
  intro every
  let node : Node :=
    { opType := "Parameter"
      attributes := .ofList [("element_type", .text "f32"), ("shape", .text "1,x..8")] }
  have held : node.attributes.get? "shape" = some (.text "1,x..8") := by decide
  obtain ⟨e, found, shaped⟩ := every node "1,x..8" held
  cases found.symm.trans lookup_parameter
  have readable : IsShape HasDots "1,x..8".toList [1, -1] :=
    Extender.mapM_dimension?_items_eq_some_iff.mp (by decide)
  have member : ['x', '.', '.', '8'] ∈ parts "1,x..8".toList := by decide
  rcases (Extender.parameter_shaped held).documented_iff.mp shaped with ranges | unread
  · have range := ranges _ member (by decide)
    exact absurd (range.isDigit_or_dot (c := 'x') List.mem_cons_self) (by decide)
  · exact unread ⟨_, readable⟩

end OperatorGraph
