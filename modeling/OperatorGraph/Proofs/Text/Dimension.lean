import OperatorGraph.Proofs.Text.Integer

/-!
Dimensions as a grammar: each is fixed, unknown or an interval, and a shape is a list of them. What
is taken for an interval is a parameter of the grammar. The documented ones have bounds that are
empty or numbers, and the widest ones have nothing more than two dots in a row.
-/

namespace OperatorGraph.Text

/-- Whether a text is an interval between two bounds, either of which may be left out. -/
def IsRange (s : List Char) : Prop :=
  ∃ low high, (low = [] ∨ ∃ n, IsNatural low n) ∧ (high = [] ∨ ∃ n, IsNatural high n) ∧
    s = low ++ ['.', '.'] ++ high

/-- Whether a text has two dots in a row. -/
def HasDots (s : List Char) : Prop := ['.', '.'] <:+: s

instance (s : List Char) : Decidable (HasDots s) := inferInstanceAs (Decidable (_ <:+: s))

/-- Dimensions and the integers that stand for them, which is -1 for those that are not fixed. -/
inductive IsDimension (interval : List Char → Prop) : List Char → Int64 → Prop where
  | unknown : IsDimension interval ['?'] (-1)
  | interval {s : List Char} (between : interval s) : IsDimension interval s (-1)
  | fixed {s : List Char} {n : Int64} (integer : IsInteger s n.toInt) : IsDimension interval s n

/-- Shapes and the lists that stand for them. A blank text is the shape without dimensions. -/
inductive IsShape (interval : List Char → Prop) : List Char → List Int64 → Prop where
  | blank {s : List Char} (blank : Blank s) : IsShape interval s []
  | listed {s : List Char} {ns : List Int64} (filled : ¬Blank s)
      (each : List.Forall₂ (IsDimension interval) (parts s) ns) : IsShape interval s ns

theorem IsRange.hasDots {s : List Char} (h : IsRange s) : HasDots s := by
  obtain ⟨low, high, _, _, rfl⟩ := h
  exact ⟨low, high, rfl⟩

theorem IsRange.isDigit_or_dot {s : List Char} (h : IsRange s) {c : Char} (member : c ∈ s) :
    c.isDigit = true ∨ c = '.' := by
  have bound {t : List Char} (h : t = [] ∨ ∃ n, IsNatural t n) (inside : c ∈ t) :
      c.isDigit = true := by
    rcases h with rfl | ⟨n, natural⟩
    · cases inside
    · exact natural.digit c inside
  obtain ⟨low, high, below, above, rfl⟩ := h
  simp only [List.mem_append, List.mem_pair] at member
  rcases member with (inside | dot) | inside
  · exact .inl (bound below inside)
  · exact .inr (or_self_iff.mp dot)
  · exact .inl (bound above inside)

theorem HasDots.dot_mem {s : List Char} (h : HasDots s) : '.' ∈ s :=
  h.subset List.mem_cons_self

theorem IsInteger.not_hasDots {s : List Char} {m : Int} (h : IsInteger s m) : ¬HasDots s :=
  fun dots => absurd (h.isDigit_or_sign dots.dot_mem) (by decide)

section Interval

variable {interval interval' : List Char → Prop}

/-- Dimensions with two dots in a row can only be intervals. -/
theorem IsDimension.interval_of_hasDots {s : List Char} {n : Int64}
    (h : IsDimension interval s n) (dots : HasDots s) : interval s := by
  cases h with
  | unknown => exact absurd dots.dot_mem (by decide)
  | interval between => exact between
  | fixed integer => exact absurd dots integer.not_hasDots

theorem IsDimension.imp {s : List Char} {n : Int64} (h : IsDimension interval s n)
    (weaker : interval s → interval' s) : IsDimension interval' s n := by
  cases h with
  | unknown => exact .unknown
  | interval between => exact .interval (weaker between)
  | fixed integer => exact .fixed integer

theorem IsShape.imp {s : List Char} {ns : List Int64} (h : IsShape interval s ns)
    (weaker : ∀ t, interval t → interval' t) : IsShape interval' s ns := by
  cases h with
  | blank blank => exact .blank blank
  | listed filled each => exact .listed filled (each.imp fun t _ one => one.imp (weaker t))

/-- Only what is an interval among the parts of a text matters to its shape. -/
theorem isShape_congr {s : List Char} {ns : List Int64}
    (same : ∀ part ∈ parts s, interval part ↔ interval' part) :
    IsShape interval s ns ↔ IsShape interval' s ns := by
  have each : List.Forall₂ (IsDimension interval) (parts s) ns ↔
      List.Forall₂ (IsDimension interval') (parts s) ns :=
    forall₂_congr_left fun part member n =>
      ⟨fun one => one.imp (same part member).mp, fun one => one.imp (same part member).mpr⟩
  constructor
  · rintro (blank | ⟨filled, all⟩)
    · exact .blank blank
    · exact .listed filled (each.mp all)
  · rintro (blank | ⟨filled, all⟩)
    · exact .blank blank
    · exact .listed filled (each.mpr all)

/-- In a text that is a shape, all parts with two dots in a row are intervals. -/
theorem IsShape.interval_of_hasDots {s : List Char} {ns : List Int64} (h : IsShape interval s ns)
    {part : List Char} (member : part ∈ parts s) (dots : HasDots part) : interval part := by
  cases h with
  | blank blank =>
    rw [blank.parts_eq, List.mem_singleton] at member
    exact absurd (member ▸ dots).dot_mem (by simp)
  | listed filled each =>
    obtain ⟨n, _, one⟩ := exists_of_mem_left each member
    exact one.interval_of_hasDots dots

end Interval

end OperatorGraph.Text
