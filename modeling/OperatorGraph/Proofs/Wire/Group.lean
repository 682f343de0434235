import OperatorGraph.Proofs.Wire.Record

/-!
Fields that are not declared are skipped whole. A field is a record or a group, and a group holds
fields; how the declared records are picked out is followed record by record, with the numbers of
the groups that are open.
-/

namespace OperatorGraph.Wire

def Content.IsGroupMark (c : Content) : Prop := c = .groupStart ∨ c = .groupEnd

instance : DecidablePred Content.IsGroupMark := fun c =>
  inferInstanceAs (Decidable (c = .groupStart ∨ c = .groupEnd))

/-- Records that make up whole fields, with groups nested in them so many levels deep at most. -/
inductive AreFields : Nat → Message → Prop
  | nil {levels : Nat} : AreFields levels []
  | record {levels : Nat} {r : Record} {rest : Message} (whole : ¬r.content.IsGroupMark)
      (others : AreFields (levels + 1) rest) : AreFields (levels + 1) (r :: rest)
  | group {levels number : Nat} {inside rest : Message} (fields : AreFields levels inside)
      (others : AreFields (levels + 1) rest) :
      AreFields (levels + 1) (⟨number, .groupStart⟩ :: (inside ++ ⟨number, .groupEnd⟩ :: rest))

/-- The records of one field: one of them, or a group. -/
inductive IsField : Nat → Nat → Message → Prop
  | record {levels : Nat} {r : Record} (whole : ¬r.content.IsGroupMark) :
      IsField (levels + 1) r.number [r]
  | group {levels number : Nat} {inside : Message} (fields : AreFields levels inside) :
      IsField (levels + 1) number (⟨number, .groupStart⟩ :: (inside ++ [⟨number, .groupEnd⟩]))

variable {isDeclared : Nat → Bool} {levels : Nat}

/-- How one record is taken: the open groups before and after it, and what is kept of it. -/
inductive Step (isDeclared : Nat → Bool) (levels : Nat) :
    List Nat → Record → List Nat → Message → Prop
  | keep {r : Record} (declared : isDeclared r.number) : Step isDeclared levels [] r [] [r]
  | skip {groups : List Nat} {r : Record} (undeclared : groups = [] → ¬isDeclared r.number)
      (room : groups.length < levels) (whole : ¬r.content.IsGroupMark) :
      Step isDeclared levels groups r groups []
  | enter {groups : List Nat} {number : Nat} (undeclared : groups = [] → ¬isDeclared number)
      (room : groups.length < levels) :
      Step isDeclared levels groups ⟨number, .groupStart⟩ (number :: groups) []
  | leave {groups : List Nat} {number : Nat} :
      Step isDeclared levels (number :: groups) ⟨number, .groupEnd⟩ groups []

inductive Walk (isDeclared : Nat → Bool) (levels : Nat) :
    List Nat → Message → List Nat → Message → Prop
  | nil {groups : List Nat} : Walk isDeclared levels groups [] groups []
  | cons {groups groups' groups'' : List Nat} {r : Record} {m first rest : Message}
      (step : Step isDeclared levels groups r groups' first)
      (others : Walk isDeclared levels groups' m groups'' rest) :
      Walk isDeclared levels groups (r :: m) groups'' (first ++ rest)

theorem Walk.cons_iff {groups groups'' : List Nat} {r : Record} {m kept : Message} :
    Walk isDeclared levels groups (r :: m) groups'' kept ↔
      ∃ groups' first rest, Step isDeclared levels groups r groups' first ∧
        Walk isDeclared levels groups' m groups'' rest ∧ kept = first ++ rest := by
  constructor
  · intro h
    cases h with
    | cons step others => exact ⟨_, _, _, step, others, rfl⟩
  · rintro ⟨_, _, _, step, others, rfl⟩
    exact .cons step others

theorem Walk.append_iff {groups groups'' : List Nat} {m m' kept : Message} :
    Walk isDeclared levels groups (m ++ m') groups'' kept ↔
      ∃ groups' first rest, Walk isDeclared levels groups m groups' first ∧
        Walk isDeclared levels groups' m' groups'' rest ∧ kept = first ++ rest := by
  constructor
  · intro h
    induction m generalizing groups kept with
    | nil => exact ⟨groups, [], kept, .nil, h, rfl⟩
    | cons r m ih =>
      obtain ⟨_, first, _, step, others, rfl⟩ := cons_iff.mp h
      obtain ⟨groups', first', rest, walk, last, rfl⟩ := ih others
      exact ⟨groups', first ++ first', rest, .cons step walk, last, (List.append_assoc _ _ _).symm⟩
  · rintro ⟨groups', first, rest, walk, last, rfl⟩
    induction walk with
    | nil => exact last
    | cons step _ ih =>
      rw [List.append_assoc, List.cons_append]
      exact .cons step (ih last)

theorem Walk.of_declared {r : Record} (declared : isDeclared r.number) {groups : List Nat}
    {m kept : Message} (h : Walk isDeclared levels [] (r :: m) groups kept) :
    ∃ rest, Walk isDeclared levels [] m groups rest ∧ kept = r :: rest := by
  obtain ⟨_, _, rest, step, others, rfl⟩ := cons_iff.mp h
  cases step with
  | keep => exact ⟨rest, others, rfl⟩
  | skip undeclared => exact absurd declared (undeclared rfl)
  | enter undeclared => exact absurd declared (undeclared rfl)

theorem Walk.nil_iff {groups groups' : List Nat} {kept : Message} :
    Walk isDeclared levels groups [] groups' kept ↔ groups' = groups ∧ kept = [] := by
  constructor
  · intro h
    cases h
    exact ⟨rfl, rfl⟩
  · rintro ⟨rfl, rfl⟩
    exact .nil

/-- More room for groups changes nothing that could be taken before. -/
theorem Walk.mono {levels' : Nat} (room : levels ≤ levels') {groups groups' : List Nat}
    {m kept : Message} (h : Walk isDeclared levels groups m groups' kept) :
    Walk isDeclared levels' groups m groups' kept := by
  induction h with
  | nil => exact .nil
  | cons step _ ih =>
    refine .cons ?_ ih
    cases step with
    | keep declared => exact .keep declared
    | skip undeclared inner whole => exact .skip undeclared (inner.trans_le room) whole
    | enter undeclared inner => exact .enter undeclared (inner.trans_le room)
    | leave => exact .leave

theorem Step.of_declared {groups : List Nat} {r : Record} {m kept : Message}
    (h : Message.declared isDeclared levels groups (r :: m) = some kept) :
    ∃ groups' first rest, Step isDeclared levels groups r groups' first ∧
      Message.declared isDeclared levels groups' m = some rest ∧ kept = first ++ rest := by
  obtain ⟨number, content⟩ := r
  cases groups with
  | nil =>
    rw [Message.declared] at h
    split at h
    · rename_i declared
      obtain ⟨rest, others, rfl⟩ := Option.map_eq_some_iff.mp h
      exact ⟨[], [_], rest, .keep declared, others, rfl⟩
    · rename_i undeclared
      split at h
      · cases h
      · rename_i nonzero
        have room : ([] : List Nat).length < levels := Nat.pos_of_ne_zero nonzero
        split at h
        · rename_i start
          cases start
          exact ⟨_, [], kept, .enter (fun _ => undeclared) room, h, rfl⟩
        · cases h
        · rename_i notStart notEnd
          have whole : ¬content.IsGroupMark := not_or.mpr ⟨notStart, notEnd⟩
          exact ⟨_, [], kept, .skip (fun _ => undeclared) room whole, h, rfl⟩
  | cons group outer =>
    have inside {p : Prop} (none : group :: outer = []) : p := absurd none (List.cons_ne_nil _ _)
    rw [Message.declared] at h
    split at h
    · rename_i stop
      cases stop
      split at h
      · rename_i same
        cases same
        exact ⟨_, [], kept, .leave, h, rfl⟩
      · cases h
    · rename_i notEnd
      split at h
      · cases h
      · rename_i few
        have room : (group :: outer).length < levels := Nat.not_le.mp few
        split at h
        · rename_i start
          cases start
          exact ⟨_, [], kept, .enter inside room, h, rfl⟩
        · rename_i notStart
          have whole : ¬content.IsGroupMark := not_or.mpr ⟨notStart, notEnd⟩
          exact ⟨_, [], kept, .skip inside room whole, h, rfl⟩

theorem Step.declared {groups groups' : List Nat} {r : Record} {m first rest : Message}
    (h : Step isDeclared levels groups r groups' first)
    (others : Message.declared isDeclared levels groups' m = some rest) :
    Message.declared isDeclared levels groups (r :: m) = some (first ++ rest) := by
  cases h with
  | keep declared =>
    rw [Message.declared, if_pos declared, others]
    rfl
  | skip undeclared room whole =>
    obtain ⟨notStart, notEnd⟩ := not_or.mp whole
    cases groups with
    | nil =>
      rw [Message.declared, if_neg (undeclared rfl), if_neg (Nat.pos_iff_ne_zero.mp room)]
      split
      · contradiction
      · contradiction
      · exact others
    | cons group outer =>
      have few : ¬levels ≤ outer.length + 1 := Nat.not_le.mpr room
      rw [Message.declared, if_neg notEnd, if_neg few, if_neg notStart]
      exact others
  | enter undeclared room =>
    cases groups with
    | nil =>
      rw [Message.declared, if_neg (undeclared rfl), if_neg (Nat.pos_iff_ne_zero.mp room)]
      exact others
    | cons group outer =>
      have few : ¬levels ≤ outer.length + 1 := Nat.not_le.mpr room
      rw [Message.declared, if_neg (by simp), if_neg few, if_pos rfl]
      exact others
  | leave =>
    rw [Message.declared, if_pos rfl, if_pos rfl]
    exact others

theorem declared_eq_some_iff {m kept : Message} :
    Message.declared isDeclared levels [] m = some kept ↔ Walk isDeclared levels [] m [] kept := by
  constructor
  · suffices every : ∀ groups, Message.declared isDeclared levels groups m = some kept →
        Walk isDeclared levels groups m [] kept from every []
    intro groups h
    induction m generalizing groups kept with
    | nil =>
      cases groups with
      | nil =>
        cases h
        exact .nil
      | cons group outer => cases h
    | cons r m ih =>
      obtain ⟨groups', _, _, step, others, rfl⟩ := Step.of_declared h
      exact .cons step (ih groups' others)
  · suffices every : ∀ groups groups', Walk isDeclared levels groups m groups' kept →
        groups' = [] → Message.declared isDeclared levels groups m = some kept from
      fun h => every [] [] h rfl
    intro groups groups' h
    induction h with
    | nil =>
      rintro rfl
      rfl
    | cons step _ ih => exact fun last => step.declared (ih last)

theorem Step.of_whole {groups groups' : List Nat} {r : Record} {kept : Message}
    (whole : ¬r.content.IsGroupMark) (h : Step isDeclared levels groups r groups' kept) :
    groups' = groups ∧ ((groups = [] → ¬isDeclared r.number) → kept = []) := by
  cases h with
  | keep declared => exact ⟨rfl, fun undeclared => absurd declared (undeclared rfl)⟩
  | skip => exact ⟨rfl, fun _ => rfl⟩
  | enter => exact absurd (.inl rfl) whole
  | leave => exact absurd (.inr rfl) whole

/-- A group is entered, or its records are kept as if they stood outside. -/
theorem Step.of_start {groups groups' : List Nat} {number : Nat} {kept : Message}
    (h : Step isDeclared levels groups ⟨number, .groupStart⟩ groups' kept) :
    groups' = number :: groups ∧ kept = [] ∨ groups = [] ∧ groups' = [] ∧ isDeclared number := by
  cases h with
  | keep declared => exact .inr ⟨rfl, rfl, declared⟩
  | skip _ _ whole => exact absurd (.inl rfl) whole
  | enter => exact .inl ⟨rfl, rfl⟩

theorem Step.of_end {groups groups' : List Nat} {number : Nat} {kept : Message}
    (h : Step isDeclared levels groups ⟨number, .groupEnd⟩ groups' kept) :
    groups = number :: groups' ∧ kept = [] ∨ groups = [] ∧ groups' = [] := by
  cases h with
  | keep => exact .inr ⟨rfl, rfl⟩
  | skip _ _ whole => exact absurd (.inr rfl) whole
  | leave => exact .inl ⟨rfl, rfl⟩

/-- A group leaves the groups around it open, if what is inside does. -/
theorem Walk.of_group {groups groups' : List Nat} {number : Nat} {inside kept : Message}
    (h : Walk isDeclared levels groups
      (⟨number, .groupStart⟩ :: (inside ++ [⟨number, .groupEnd⟩])) groups' kept)
    (fields : ∀ {groups groups' : List Nat} {kept : Message},
      Walk isDeclared levels groups inside groups' kept →
        groups' = groups ∧ (groups ≠ [] → kept = [])) :
    groups' = groups ∧ ((groups = [] → ¬isDeclared number) → kept = []) := by
  obtain ⟨_, _, _, start, afterStart, rfl⟩ := cons_iff.mp h
  obtain ⟨_, _, _, within, afterInside, rfl⟩ := append_iff.mp afterStart
  obtain ⟨_, _, _, stop, last, rfl⟩ := cons_iff.mp afterInside
  obtain ⟨rfl, rfl⟩ := nil_iff.mp last
  obtain ⟨rfl, nothing⟩ := fields within
  rcases start.of_start with ⟨rfl, rfl⟩ | ⟨rfl, rfl, declared⟩
  · rcases stop.of_end with ⟨same, rfl⟩ | ⟨none, _⟩
    · cases same
      rw [nothing (List.cons_ne_nil _ _)]
      exact ⟨rfl, fun _ => rfl⟩
    · cases none
  · rcases stop.of_end with ⟨none, _⟩ | ⟨_, rfl⟩
    · cases none
    · exact ⟨rfl, fun undeclared => absurd declared (undeclared rfl)⟩

/-- Where fields end, the groups are open that were open where they began. -/
theorem AreFields.walk {depth : Nat} {m : Message} (h : AreFields depth m)
    {groups groups' : List Nat} {kept : Message}
    (walk : Walk isDeclared levels groups m groups' kept) :
    groups' = groups ∧ (groups ≠ [] → kept = []) := by
  induction h generalizing groups groups' kept with
  | nil =>
    obtain ⟨rfl, rfl⟩ := Walk.nil_iff.mp walk
    exact ⟨rfl, fun _ => rfl⟩
  | record whole _ ih =>
    obtain ⟨_, _, _, step, others, rfl⟩ := Walk.cons_iff.mp walk
    obtain ⟨rfl, nothing⟩ := step.of_whole whole
    obtain ⟨rfl, nothing'⟩ := ih others
    refine ⟨rfl, fun inside => ?_⟩
    rw [nothing fun outside => absurd outside inside, nothing' inside]
    rfl
  | @group _ number inside rest _ _ ihInside ihRest =>
    rw [show ⟨number, .groupStart⟩ :: (inside ++ ⟨number, .groupEnd⟩ :: rest) =
      (⟨number, .groupStart⟩ :: (inside ++ [⟨number, .groupEnd⟩])) ++ rest by simp] at walk
    obtain ⟨_, _, _, group, others, rfl⟩ := Walk.append_iff.mp walk
    obtain ⟨rfl, nothing⟩ := group.of_group ihInside
    obtain ⟨rfl, nothing'⟩ := ihRest others
    refine ⟨rfl, fun inside => ?_⟩
    rw [nothing fun outside => absurd outside inside, nothing' inside]
    rfl

theorem IsField.walk {depth number : Nat} {m : Message} (h : IsField depth number m)
    {groups groups' : List Nat} {kept : Message}
    (walk : Walk isDeclared levels groups m groups' kept) :
    groups' = groups ∧ ((groups = [] → ¬isDeclared number) → kept = []) := by
  cases h with
  | record whole =>
    obtain ⟨_, _, _, step, last, rfl⟩ := Walk.cons_iff.mp walk
    obtain ⟨rfl, rfl⟩ := Walk.nil_iff.mp last
    simpa using step.of_whole whole
  | group fields => exact walk.of_group fields.walk

/-- Fields in a group are skipped if there is room for them. -/
theorem AreFields.skipped {depth : Nat} {m : Message} (h : AreFields depth m) {groups : List Nat}
    (inside : groups ≠ []) (room : groups.length + depth ≤ levels) :
    Walk isDeclared levels groups m groups [] := by
  induction h generalizing groups with
  | nil => exact .nil
  | record whole _ ih =>
    exact .cons (.skip (fun none => absurd none inside) (by omega) whole) (ih inside room)
  | @group _ number _ _ _ _ ihInside ihRest =>
    have fields := ihInside (List.cons_ne_nil number groups) (by rw [List.length_cons]; omega)
    refine Walk.cons_iff.mpr
      ⟨_, [], [], .enter (fun none => absurd none inside) (by omega), ?_, rfl⟩
    exact Walk.append_iff.mpr ⟨_, _, _, fields, .cons .leave (ihRest inside room), rfl⟩

theorem IsField.skipped {depth number : Nat} {m : Message} (h : IsField depth number m)
    (undeclared : ¬isDeclared number) (room : depth ≤ levels) :
    Walk isDeclared levels [] m [] [] := by
  cases h with
  | record whole =>
    exact .cons (.skip (fun _ => undeclared) (Nat.lt_of_lt_of_le (Nat.succ_pos _) room) whole) .nil
  | group fields =>
    have inner : Walk isDeclared levels [number] _ [number] [] :=
      fields.skipped (List.cons_ne_nil number []) (by rw [List.length_singleton]; omega)
    refine Walk.cons_iff.mpr
      ⟨_, [], [], .enter (fun _ => undeclared) (Nat.zero_lt_of_lt room), ?_, rfl⟩
    exact Walk.append_iff.mpr ⟨_, _, _, inner, .cons .leave .nil, rfl⟩

/-- An open group is closed somewhere, and what stands in it are fields. -/
theorem Walk.exists_end {number : Nat} {outer : List Nat} {m kept : Message}
    (h : Walk isDeclared levels (number :: outer) m [] kept) :
    ∃ inside rest, m = inside ++ ⟨number, .groupEnd⟩ :: rest ∧
      AreFields (levels - (outer.length + 1)) inside ∧ Walk isDeclared levels outer rest [] kept := by
  -- the records after a group that is nested in this one are fewer, but not a tail of its own
  induction size : m.length using Nat.strong_induction_on generalizing number outer m with
  | _ size ih =>
  cases m with
  | nil => cases (nil_iff.mp h).1
  | cons r m =>
    obtain ⟨_, _, _, step, others, rfl⟩ := cons_iff.mp h
    rw [List.length_cons] at size
    cases step with
    | skip _ room whole =>
      obtain ⟨inside, rest, rfl, fields, walk⟩ := ih _ (by omega) others rfl
      rw [List.length_cons] at room
      obtain ⟨depth, deep⟩ : ∃ depth, levels - (outer.length + 1) = depth + 1 :=
        ⟨levels - (outer.length + 2), by omega⟩
      rw [deep] at fields ⊢
      exact ⟨r :: inside, rest, rfl, .record whole fields, walk⟩
    | @enter _ inner _ room =>
      obtain ⟨inside, after, rfl, fields, walk⟩ := ih _ (by omega) others rfl
      simp only [List.length_append, List.length_cons] at size
      obtain ⟨inside', rest, rfl, fields', walk'⟩ := ih _ (by omega) walk rfl
      rw [List.length_cons] at room fields
      obtain ⟨depth, deep⟩ : ∃ depth, levels - (outer.length + 1) = depth + 1 :=
        ⟨levels - (outer.length + 2), by omega⟩
      rw [show levels - (outer.length + 1 + 1) = depth by omega] at fields
      rw [deep] at fields' ⊢
      exact ⟨⟨inner, .groupStart⟩ :: (inside ++ ⟨inner, .groupEnd⟩ :: inside'), rest, by simp,
        .group fields fields', walk'⟩
    | leave => exact ⟨[], m, rfl, .nil, others⟩

end OperatorGraph.Wire
