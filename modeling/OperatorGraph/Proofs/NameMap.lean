import Mathlib.Data.List.Forall2
import Mathlib.Data.Option.Basic
import OperatorGraph.NameMap

/-!
Maps from names as functions. A map is determined by what it holds under each name, and two maps
hold related values under the same names exactly if their entries are related one by one.
-/

namespace OperatorGraph.NameMap

variable {α β : Type}

theorem lookup_eq_none {name : String} {entries : List (String × α)}
    (h : ∀ e ∈ entries, name ≠ e.1) : entries.lookup name = none := by
  induction entries with
  | nil => rfl
  | cons e rest ih =>
    rw [lookup_entry, if_neg (h e (by simp)), ih fun e' he => h e' (List.mem_cons_of_mem e he)]

theorem lookup_eq_some_of_mem {entries : List (String × α)}
    (ascending : entries.Pairwise fun a b => a.1 < b.1) {e : String × α} (h : e ∈ entries) :
    entries.lookup e.1 = some e.2 := by
  induction entries with
  | nil => cases h
  | cons first rest ih =>
    obtain ⟨above, tail⟩ := List.pairwise_cons.mp ascending
    rw [lookup_entry]
    rcases List.mem_cons.mp h with rfl | h
    · rw [if_pos rfl]
    · rw [if_neg (String.ne_of_lt (above e h)).symm, ih tail h]

theorem mem_of_lookup {entries : List (String × α)} {name : String} {value : α}
    (h : entries.lookup name = some value) : (name, value) ∈ entries := by
  induction entries with
  | nil => cases h
  | cons first rest ih =>
    rw [lookup_entry] at h
    split at h
    · rename_i same
      cases Option.some.inj h
      rw [same]
      exact List.mem_cons_self
    · exact List.mem_cons_of_mem _ (ih h)

theorem mem_entries_iff {m : NameMap α} {name : String} {value : α} :
    (name, value) ∈ m.entries ↔ m.get? name = some value :=
  ⟨lookup_eq_some_of_mem m.ascending, mem_of_lookup⟩

/-- The entries before one of them are those with smaller names. -/
theorem mem_before_iff {m : NameMap α} {before after : List (String × α)} {e other : String × α}
    (split : m.entries = before ++ e :: after) :
    other ∈ before ↔ other ∈ m.entries ∧ other.1 < e.1 := by
  have ascending := split ▸ m.ascending
  rw [List.pairwise_append, List.pairwise_cons] at ascending
  obtain ⟨_, ⟨above, _⟩, below⟩ := ascending
  rw [split, List.mem_append, List.mem_cons]
  constructor
  · intro earlier
    exact ⟨.inl earlier, below other earlier e List.mem_cons_self⟩
  · rintro ⟨earlier | rfl | later, smaller⟩
    · exact earlier
    · exact absurd smaller (String.lt_irrefl _)
    · exact absurd (String.lt_trans smaller (above other later)) (String.lt_irrefl _)

/-- What is first among the entries is first by name. -/
theorem exists_first_iff {m : NameMap α} {fine fails : String × α → Prop} :
    (∃ before e after, m.entries = before ++ e :: after ∧ (∀ b ∈ before, fine b) ∧ fails e) ↔
      ∃ name value, m.get? name = some value ∧ fails (name, value) ∧
        ∀ other value', other < name → m.get? other = some value' → fine (other, value') := by
  simp only [← mem_entries_iff]
  constructor
  · rintro ⟨before, ⟨name, value⟩, after, split, earlier, here⟩
    refine ⟨name, value, by simp [split], here, fun other value' smaller member => ?_⟩
    exact earlier _ ((mem_before_iff split).mpr ⟨member, smaller⟩)
  · rintro ⟨name, value, member, here, earlier⟩
    obtain ⟨before, after, split⟩ := List.append_of_mem member
    refine ⟨before, (name, value), after, split, fun b inside => ?_, here⟩
    obtain ⟨held, smaller⟩ := (mem_before_iff split).mp inside
    exact earlier b.1 b.2 smaller held

/-- Entries that are related one by one. -/
abbrev EntriesRelated (R : α → β → Prop) (a : List (String × α)) (b : List (String × β)) : Prop :=
  List.Forall₂ (fun x y => x.1 = y.1 ∧ R x.2 y.2) a b

theorem EntriesRelated.lookup {R : α → β → Prop} {a : List (String × α)} {b : List (String × β)}
    (h : EntriesRelated R a b) (name : String) : Option.Rel R (a.lookup name) (b.lookup name) := by
  induction h with
  | nil => exact .none
  | cons first _ ih =>
    rw [lookup_entry, lookup_entry, first.1]
    split
    · exact .some first.2
    · exact ih

theorem lookup_below {name : String} {first : String × α} {rest : List (String × α)}
    (ascending : (first :: rest).Pairwise fun a b => a.1 < b.1) (below : name < first.1) :
    (first :: rest).lookup name = none := by
  apply lookup_eq_none
  intro e he
  rcases List.mem_cons.mp he with rfl | later
  · exact String.ne_of_lt below
  · exact String.ne_of_lt (String.lt_trans below ((List.pairwise_cons.mp ascending).1 e later))

theorem entriesRelated_of_lookup {R : α → β → Prop} {a : List (String × α)} {b : List (String × β)}
    (ha : a.Pairwise fun x y => x.1 < y.1) (hb : b.Pairwise fun x y => x.1 < y.1)
    (h : ∀ name, Option.Rel R (a.lookup name) (b.lookup name)) : EntriesRelated R a b := by
  induction a generalizing b with
  | nil =>
    cases b with
    | nil => exact .nil
    | cons y bs =>
      have first := h y.1
      rw [lookup_entry, if_pos rfl] at first
      cases first
  | cons x as ih =>
    cases b with
    | nil =>
      have first := h x.1
      rw [lookup_entry, if_pos rfl] at first
      cases first
    | cons y bs =>
      have head_x := h x.1
      have head_y := h y.1
      have not_below : ¬ x.1 < y.1 := by
        intro below
        rw [lookup_below hb below, lookup_entry, if_pos rfl] at head_x
        cases head_x
      have not_above : ¬ y.1 < x.1 := by
        intro above
        rw [lookup_below ha above, lookup_entry, if_pos rfl] at head_y
        cases head_y
      have same : x.1 = y.1 :=
        String.le_antisymm (String.not_lt.mp not_above) (String.not_lt.mp not_below)
      obtain ⟨above_x, tail_a⟩ := List.pairwise_cons.mp ha
      obtain ⟨above_y, tail_b⟩ := List.pairwise_cons.mp hb
      refine .cons ⟨same, ?_⟩ (ih tail_a tail_b fun name => ?_)
      · rw [lookup_entry, lookup_entry, if_pos rfl, if_pos same] at head_x
        cases head_x with
        | some related => exact related
      · by_cases at_head : name = x.1
        · rw [lookup_eq_none fun e he => at_head ▸ String.ne_of_lt (above_x e he),
            lookup_eq_none fun e he => at_head ▸ same ▸ String.ne_of_lt (above_y e he)]
          exact .none
        · have rest := h name
          rwa [lookup_entry, lookup_entry, if_neg at_head, if_neg (same ▸ at_head)] at rest

theorem entriesRelated_iff {R : α → β → Prop} {m : NameMap α} {m' : NameMap β} :
    EntriesRelated R m.entries m'.entries ↔ ∀ name, Option.Rel R (m.get? name) (m'.get? name) :=
  ⟨fun h name => h.lookup name, entriesRelated_of_lookup m.ascending m'.ascending⟩

theorem ext_entries {m m' : NameMap α} (h : m.entries = m'.entries) : m = m' := by
  cases m
  cases m'
  congr

theorem ext_get? {m m' : NameMap α} (h : ∀ name, m.get? name = m'.get? name) : m = m' := by
  have related : EntriesRelated Eq m.entries m'.entries := entriesRelated_iff.mpr fun name => by
    rw [h name]
    cases m'.get? name with
    | none => exact .none
    | some value => exact .some rfl
  refine ext_entries (List.forall₂_eq_eq_eq ▸ related.imp fun x y same => ?_)
  exact Prod.ext same.1 same.2

theorem insert_get? {m : NameMap α} {name : String} {value : α} (h : m.get? name = some value) :
    m.insert name value = m := by
  apply ext_get?
  intro other
  rw [get?_insert]
  split
  · rename_i same
    rw [same, h]
  · rfl

/-- Of two insertions under one name the last counts. -/
theorem insert_insert (m : NameMap α) (name : String) (value value' : α) :
    (m.insert name value).insert name value' = m.insert name value' := by
  refine ext_get? fun other => ?_
  simp only [get?_insert]
  split <;> rfl

theorem insert_erase (m : NameMap α) (name : String) (value : α) :
    (m.erase name).insert name value = m.insert name value := by
  refine ext_get? fun other => ?_
  simp only [get?_insert, get?_erase]
  split <;> rfl

theorem contains_insert (m : NameMap α) (name : String) (value : α) (other : String) :
    (m.insert name value).contains other = (decide (other = name) || m.contains other) := by
  rw [contains, contains, get?_insert]
  by_cases same : other = name <;> simp [same]

def insertAll (m : NameMap α) (entries : List (String × α)) : NameMap α :=
  entries.foldl (fun m e => m.insert e.1 e.2) m

/-- Entries with different names are found again, and before those that the map held. -/
theorem get?_insertAll {entries : List (String × α)} (distinct : (entries.map Prod.fst).Nodup)
    (m : NameMap α) (name : String) :
    (m.insertAll entries).get? name = (entries.lookup name).or (m.get? name) := by
  induction entries generalizing m with
  | nil => rfl
  | cons e rest ih =>
    obtain ⟨apart, tail⟩ := List.nodup_cons.mp distinct
    have after := ih tail (m.insert e.1 e.2)
    rw [get?_insert] at after
    rw [insertAll, List.foldl_cons, ← insertAll, after, lookup_entry]
    split
    · rename_i same
      have none : rest.lookup name = none := lookup_eq_none fun e' member eq =>
        apart (same ▸ eq ▸ List.mem_map_of_mem member)
      rw [none]
      rfl
    · rfl

theorem names_nodup (m : NameMap α) : (m.entries.map Prod.fst).Nodup :=
  (m.names_ascending).imp fun below same => String.ne_of_lt below same

/-- Maps that hold something under the same names list the same names. -/
theorem names_eq_of_contains_eq {m : NameMap α} {m' : NameMap β}
    (h : ∀ name, m.contains name = m'.contains name) : m.names = m'.names := by
  have perm : m.names.Perm m'.names :=
    (List.perm_ext_iff_of_nodup m.names_nodup m'.names_nodup).mpr fun name =>
      ((m.contains_eq_true_iff name).symm.trans (by rw [h name])).trans
        (m'.contains_eq_true_iff name)
  refine perm.eq_of_pairwise ?_ m.names_ascending m'.names_ascending
  intro a b _ _ below above
  exact absurd (String.lt_trans below above) (String.lt_irrefl _)

/-- What is put in place of another value has the name of that. -/
theorem names_insert {m : NameMap α} {name : String} (held : m.contains name = true) (value : α) :
    (m.insert name value).names = m.names := by
  apply names_eq_of_contains_eq
  intro other
  rw [contains_insert]
  by_cases same : other = name
  · simp [same, held]
  · simp [same]

/-- A map is what its entries make up. -/
theorem ofList_entries (m : NameMap α) : ofList m.entries = m := by
  apply ext_get?
  intro name
  exact (get?_insertAll m.names_nodup empty name).trans (Option.or_none ..)

theorem insertEntry_perm {name : String} {entries : List (String × α)}
    (fresh : name ∉ entries.map Prod.fst) (value : α) :
    (insertEntry name value entries).Perm ((name, value) :: entries) := by
  induction entries with
  | nil => exact .refl _
  | cons e rest ih =>
    have other : name ≠ e.1 := fun same => fresh (same ▸ List.mem_cons_self)
    have later : name ∉ rest.map Prod.fst := fun member => fresh (List.mem_cons_of_mem _ member)
    rw [insertEntry, if_neg other]
    split
    · exact .refl _
    · exact ((ih later).cons e).trans (List.Perm.swap _ _ _)

theorem insertAll_perm {entries : List (String × α)} (distinct : (entries.map Prod.fst).Nodup)
    {m : NameMap α} (fresh : ∀ e ∈ entries, m.contains e.1 = false) :
    (m.insertAll entries).entries.Perm (m.entries ++ entries) := by
  induction entries generalizing m with
  | nil => simp [insertAll]
  | cons e rest ih =>
    obtain ⟨apart, tail⟩ := List.nodup_cons.mp distinct
    have absent : e.1 ∉ m.entries.map Prod.fst := by
      rw [← names, ← contains_eq_true_iff, fresh e List.mem_cons_self]
      exact Bool.false_ne_true
    have fresh' : ∀ e' ∈ rest, (m.insert e.1 e.2).contains e'.1 = false := by
      intro e' member
      have other : e'.1 ≠ e.1 := fun same => apart (same ▸ List.mem_map_of_mem member)
      rw [contains_insert, fresh e' (List.mem_cons_of_mem e member)]
      simp [other]
    refine (ih tail fresh').trans ?_
    exact ((insertEntry_perm absent e.2).append_right rest).trans List.perm_middle.symm

theorem ofList_perm {entries : List (String × α)} (distinct : (entries.map Prod.fst).Nodup) :
    (ofList entries).entries.Perm entries :=
  insertAll_perm distinct fun _ _ => rfl

/-- A map is made up of its entries in any order. -/
theorem ofList_of_perm {m : NameMap α} {entries : List (String × α)}
    (perm : m.entries.Perm entries) : ofList entries = m := by
  have distinct : (entries.map Prod.fst).Nodup := (perm.map Prod.fst).nodup_iff.mp m.names_nodup
  refine ext_entries (((ofList_perm distinct).trans perm.symm).eq_of_pairwise ?_
    (ofList entries).ascending m.ascending)
  intro e e' _ _ below above
  exact absurd (String.lt_trans below above) (String.lt_irrefl _)

def mapValues (f : α → β) (m : NameMap α) : NameMap β where
  entries := m.entries.map fun e => (e.1, f e.2)
  ascending := List.pairwise_map.mpr m.ascending

theorem mem_of_get?_ofList {entries : List (String × α)} {name : String} {value : α}
    (h : (ofList entries).get? name = some value) : (name, value) ∈ entries := by
  have added : ∀ (entries : List (String × α)) (m : NameMap α),
      (entries.foldl (fun m e => m.insert e.1 e.2) m).get? name = some value →
        m.get? name = some value ∨ (name, value) ∈ entries := by
    intro entries
    induction entries with
    | nil => exact fun _ h => .inl h
    | cons e rest ih =>
      intro m h
      rcases ih (m.insert e.1 e.2) h with held | later
      · rw [get?_insert] at held
        split at held
        · rename_i same
          cases Option.some.inj held
          exact .inr (by simp [same])
        · exact .inl held
      · exact .inr (List.mem_cons_of_mem e later)
  exact (added entries empty h).resolve_left (by simp)

end OperatorGraph.NameMap
