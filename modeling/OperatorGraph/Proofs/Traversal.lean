import Mathlib.Data.List.Forall2

/-!
Lists worked through element by element, where one failure fails the whole: the results stand beside
the elements that they come from.
-/

namespace OperatorGraph

variable {α β γ δ ε : Type}

theorem mapM_eq_some_iff {f : α → Option β} {as : List α} {bs : List β} :
    as.mapM f = some bs ↔ List.Forall₂ (fun a b => f a = some b) as bs := by
  induction as generalizing bs with
  | nil =>
    constructor
    · intro h
      cases Option.some.inj h
      exact .nil
    · intro h
      cases h
      rfl
  | cons a as ih =>
    simp only [List.mapM_cons, Option.pure_def, Option.bind_eq_bind, Option.bind_eq_some_iff]
    constructor
    · rintro ⟨b, first, bs', rest, out⟩
      cases Option.some.inj out
      exact .cons first (ih.mp rest)
    · intro h
      cases h with
      | cons first rest => exact ⟨_, first, _, ih.mpr rest, rfl⟩

theorem mapM_map_eq {f : α → Option β} {g : β → γ} (as : List α) :
    (as.mapM fun a => (f a).map g) = (as.mapM f).map (List.map g) := by
  induction as with
  | nil => rfl
  | cons a rest ih =>
    rw [List.mapM_cons, List.mapM_cons, ih]
    cases f a with
    | none => rfl
    | some b => cases rest.mapM f <;> rfl

theorem mapM_eq_ok_iff {f : α → Except ε β} {as : List α} {bs : List β} :
    as.mapM f = .ok bs ↔ List.Forall₂ (fun a b => f a = .ok b) as bs := by
  induction as generalizing bs with
  | nil =>
    constructor
    · intro h
      cases Except.ok.inj h
      exact .nil
    · intro h
      cases h
      rfl
  | cons a as ih =>
    simp only [List.mapM_cons]
    constructor
    · intro h
      cases first : f a with
      | error fault =>
        rw [first] at h
        cases h
      | ok b =>
        cases rest : as.mapM f with
        | error fault =>
          rw [first, rest] at h
          cases h
        | ok bs' =>
          rw [first, rest] at h
          cases Except.ok.inj h
          exact .cons first (ih.mp rest)
    · intro h
      cases h with
      | cons first rest =>
        rw [first, ih.mpr rest]
        rfl

theorem exists_of_mem_right {r : α → β → Prop} {as : List α} {bs : List β}
    (h : List.Forall₂ r as bs) {b : β} (member : b ∈ bs) : ∃ a ∈ as, r a b := by
  induction h with
  | nil => cases member
  | cons first _ ih =>
    rcases List.mem_cons.mp member with rfl | later
    · exact ⟨_, List.mem_cons_self, first⟩
    · obtain ⟨a, here, related⟩ := ih later
      exact ⟨a, List.mem_cons_of_mem _ here, related⟩

theorem exists_of_mem_left {r : α → β → Prop} {as : List α} {bs : List β}
    (h : List.Forall₂ r as bs) {a : α} (member : a ∈ as) : ∃ b ∈ bs, r a b :=
  exists_of_mem_right h.flip member

theorem exists_getElem? {r : α → β → Prop} {as : List α} {bs : List β} (h : List.Forall₂ r as bs)
    {i : Nat} {a : α} (at_i : as[i]? = some a) : ∃ b, bs[i]? = some b ∧ r a b := by
  induction h generalizing i with
  | nil => cases at_i
  | cons first _ ih =>
    cases i with
    | zero =>
      cases at_i
      exact ⟨_, rfl, first⟩
    | succ i => exact ih at_i

theorem forall₂_mem_right {r : α → β → Prop} {as : List α} {bs : List β}
    (h : List.Forall₂ r as bs) : List.Forall₂ (fun a b => r a b ∧ b ∈ bs) as bs := by
  induction h with
  | nil => exact .nil
  | cons first _ ih =>
    refine .cons ⟨first, List.mem_cons_self⟩ (ih.imp fun a b related => ?_)
    exact ⟨related.1, List.mem_cons_of_mem _ related.2⟩

theorem forall₂_trans {r : α → β → Prop} {s : β → γ → Prop} {t : α → γ → Prop}
    {as : List α} {bs : List β} {cs : List γ} (h : List.Forall₂ r as bs) (h' : List.Forall₂ s bs cs)
    (step : ∀ a b c, r a b → s b c → t a c) : List.Forall₂ t as cs := by
  induction h generalizing cs with
  | nil =>
    cases h'
    exact .nil
  | cons first _ ih =>
    cases h' with
    | cons first' rest' => exact .cons (step _ _ _ first first') (ih rest')

theorem exists_between {r : α → β → Prop} {s : β → γ → Prop} {as : List α} {cs : List γ}
    (h : List.Forall₂ (fun a c => ∃ b, r a b ∧ s b c) as cs) :
    ∃ bs, List.Forall₂ r as bs ∧ List.Forall₂ s bs cs := by
  induction h with
  | nil => exact ⟨[], .nil, .nil⟩
  | cons first _ ih =>
    obtain ⟨b, left, right⟩ := first
    obtain ⟨bs, lefts, rights⟩ := ih
    exact ⟨b :: bs, .cons left lefts, .cons right rights⟩

theorem isEqv_iff {eqv : α → α → Bool} {as bs : List α} :
    as.isEqv bs eqv = true ↔ List.Forall₂ (fun a b => eqv a b = true) as bs := by
  induction as generalizing bs with
  | nil => cases bs <;> simp [List.isEqv]
  | cons a as ih => cases bs <;> simp [List.isEqv, ih]

/-- Relations that coincide on the elements of a list coincide on the list. -/
theorem forall₂_congr_left {r s : α → β → Prop} {as : List α} (h : ∀ a ∈ as, ∀ b, r a b ↔ s a b)
    {bs : List β} : List.Forall₂ r as bs ↔ List.Forall₂ s as bs := by
  induction as generalizing bs with
  | nil => cases bs <;> simp
  | cons a as ih =>
    cases bs with
    | nil => simp
    | cons b bs =>
      rw [List.forall₂_cons, List.forall₂_cons, h a List.mem_cons_self b,
        ih fun a' member => h a' (List.mem_cons_of_mem a member)]

/-- What is read from items has been read from one of them. -/
theorem mem_of_mapM {f : α → Option β} {as : List α} {bs : List β} (h : as.mapM f = some bs) {b : β}
    (member : b ∈ bs) : ∃ a ∈ as, f a = some b :=
  exists_of_mem_right (mapM_eq_some_iff.mp h) member

theorem exists_forall₂ {r : α → β → Prop} {as : List α} (h : ∀ a ∈ as, ∃ b, r a b) :
    ∃ bs, List.Forall₂ r as bs := by
  induction as with
  | nil => exact ⟨[], .nil⟩
  | cons a rest ih =>
    obtain ⟨b, related⟩ := h a List.mem_cons_self
    obtain ⟨bs, others⟩ := ih fun a' later => h a' (List.mem_cons_of_mem a later)
    exact ⟨b :: bs, .cons related others⟩

/-- Items that have all been made in one way. -/
theorem exists_map_of_forall {f : α → β} {bs : List β} (h : ∀ b ∈ bs, ∃ a, b = f a) :
    ∃ as : List α, bs = as.map f := by
  induction bs with
  | nil => exact ⟨[], rfl⟩
  | cons b rest ih =>
    obtain ⟨a, rfl⟩ := h b List.mem_cons_self
    obtain ⟨as, rfl⟩ := ih fun b' later => h b' (List.mem_cons_of_mem _ later)
    exact ⟨a :: as, rfl⟩

theorem map_except_eq_ok_iff {x : Except ε α} {f : α → β} {b : β} :
    x.map f = .ok b ↔ ∃ a, x = .ok a ∧ f a = b := by
  cases x with
  | error fault => simp [Except.map]
  | ok a => simp [Except.map]

theorem map_except_eq_error_iff {x : Except ε α} {f : α → β} {fault : ε} :
    x.map f = .error fault ↔ x = .error fault := by
  cases x with
  | error other => simp [Except.map]
  | ok a => simp [Except.map]

theorem exists_map_except_eq_ok_iff {x : Except ε α} {f : α → β} :
    (∃ b, x.map f = .ok b) ↔ ∃ a, x = .ok a := by
  cases x with
  | error fault => simp [Except.map]
  | ok a => simp [Except.map]

theorem exists_map_eq_some_iff {x : Option α} {f : α → β} :
    (∃ b, x.map f = some b) ↔ ∃ a, x = some a := by
  cases x with
  | none => simp
  | some a => simp

theorem exists_mapM_eq_some_iff {f : α → Option β} {as : List α} :
    (∃ bs, as.mapM f = some bs) ↔ ∀ a ∈ as, ∃ b, f a = some b := by
  constructor
  · rintro ⟨bs, made⟩ a member
    obtain ⟨b, _, here⟩ := exists_of_mem_left (mapM_eq_some_iff.mp made) member
    exact ⟨b, here⟩
  · intro h
    obtain ⟨bs, made⟩ := exists_forall₂ h
    exact ⟨bs, mapM_eq_some_iff.mpr made⟩

theorem exists_mapM_eq_ok_iff {f : α → Except ε β} {as : List α} :
    (∃ bs, as.mapM f = .ok bs) ↔ ∀ a ∈ as, ∃ b, f a = .ok b := by
  constructor
  · rintro ⟨bs, made⟩ a member
    obtain ⟨b, _, here⟩ := exists_of_mem_left (mapM_eq_ok_iff.mp made) member
    exact ⟨b, here⟩
  · intro h
    obtain ⟨bs, made⟩ := exists_forall₂ h
    exact ⟨bs, mapM_eq_ok_iff.mpr made⟩

theorem mapM_cons_eq_error_iff {f : α → Except ε β} {a : α} {as : List α} {fault : ε} :
    (a :: as).mapM f = .error fault ↔
      f a = .error fault ∨ (∃ b, f a = .ok b) ∧ as.mapM f = .error fault := by
  rw [List.mapM_cons]
  cases f a with
  | error other => simp [bind, Except.bind]
  | ok b =>
    cases as.mapM f with
    | error other => simp [bind, Except.bind]
    | ok bs => simp [bind, Except.bind, pure, Except.pure]

/-- The fault is that of the first item that fails. -/
theorem mapM_eq_error_iff {f : α → Except ε β} {as : List α} {fault : ε} :
    as.mapM f = .error fault ↔ ∃ before a after, as = before ++ a :: after ∧
      (∀ b ∈ before, ∃ v, f b = .ok v) ∧ f a = .error fault := by
  induction as with
  | nil => simp [pure, Except.pure]
  | cons first rest ih =>
    rw [mapM_cons_eq_error_iff, ih]
    constructor
    · rintro (fails | ⟨succeeds, before, a, after, rfl, succeed, fails⟩)
      · exact ⟨[], first, rest, rfl, by simp, fails⟩
      · exact ⟨first :: before, a, after, rfl, List.forall_mem_cons.mpr ⟨succeeds, succeed⟩, fails⟩
    · rintro ⟨before, a, after, split, succeed, fails⟩
      cases before with
      | nil =>
        cases split
        exact .inl fails
      | cons b before =>
        cases split
        obtain ⟨succeeds, others⟩ := List.forall_mem_cons.mp succeed
        exact .inr ⟨succeeds, before, a, after, rfl, others, fails⟩

/-- Items that fail alike, one by one, fail alike as a whole. -/
theorem mapM_eq_error_congr {f : α → Except ε β} {g : γ → Except ε δ} {as : List α} {cs : List γ}
    (h : List.Forall₂ (fun a c => ∀ fault, f a = .error fault ↔ g c = .error fault) as cs)
    {fault : ε} : as.mapM f = .error fault ↔ cs.mapM g = .error fault := by
  induction h with
  | nil => simp [pure, Except.pure]
  | @cons a c _ _ first _ ih =>
    have succeeds : (∃ b, f a = .ok b) ↔ ∃ d, g c = .ok d := by
      cases fa : f a with
      | error other => simp [(first other).mp fa]
      | ok b =>
        cases gc : g c with
        | error other => cases fa.symm.trans ((first other).mpr gc)
        | ok d => simp
    rw [mapM_cons_eq_error_iff, mapM_cons_eq_error_iff, first, succeeds, ih]

/-- The fault is that of the first item that fails where those before it have led. -/
theorem foldlM_eq_error_iff {f : β → α → Except ε β} {as : List α} {start : β} {fault : ε} :
    as.foldlM f start = .error fault ↔ ∃ before a after reached, as = before ++ a :: after ∧
      before.foldlM f start = .ok reached ∧ f reached a = .error fault := by
  induction as generalizing start with
  | nil => simp [pure, Except.pure]
  | cons first rest ih =>
    rw [List.foldlM_cons]
    cases step : f start first with
    | error other =>
      constructor
      · intro h
        cases h
        exact ⟨[], first, rest, start, rfl, rfl, step⟩
      · rintro ⟨before, a, after, reached, split, run, fails⟩
        cases before with
        | nil =>
          cases split
          cases run
          exact step.symm.trans fails
        | cons b before =>
          cases split
          rw [List.foldlM_cons, step] at run
          cases run
    | ok next =>
      refine ih.trans ⟨?_, ?_⟩
      · rintro ⟨before, a, after, reached, rfl, run, fails⟩
        refine ⟨first :: before, a, after, reached, rfl, ?_, fails⟩
        rw [List.foldlM_cons, step]
        exact run
      · rintro ⟨before, a, after, reached, split, run, fails⟩
        cases before with
        | nil =>
          cases split
          cases run
          cases step.symm.trans fails
        | cons b before =>
          cases split
          rw [List.foldlM_cons, step] at run
          exact ⟨before, a, after, reached, rfl, run, fails⟩

end OperatorGraph
