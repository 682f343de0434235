import Mathlib.Data.List.Basic
import OperatorGraph.Extender.Rule
import OperatorGraph.Proofs.Attribute.Coercion

/-!
The attributes that a rule touches. A rule changes no attribute but those it writes, and what it
does is decided by those it reads.
-/

namespace OperatorGraph.Extender

open Attribute (Coercion Fault ListForm Store Value)

namespace Rule

def reads : Rule → List String
  | coerce _ name | mask name | shape name | perDimension name => [name]
  | elementType source _ _ | rename source _ | fullRank source _ _ => [source]
  | set _ _ | flagUnusedOutput _ => []
  | pads first last _ _ => [first, last]

def writes : Rule → List String
  | coerce _ name | mask name | shape name | perDimension name => [name]
  | set name _ | flagUnusedOutput name => [name]
  | elementType _ target _ | fullRank _ target _ => [target]
  | rename source target => [source, target]
  | pads _ _ target dimensions => [target, dimensions]

def names (r : Rule) : List String := r.reads ++ r.writes

end Rule

/-- Stores that hold the same under some names. -/
def AgreeOn (names : List String) (a b : Store) : Prop :=
  ∀ name ∈ names, a.get? name = b.get? name

namespace AgreeOn

variable {names : List String} {a b : Store}

theorem insert (h : AgreeOn names a b) (name : String) (value : Value) :
    AgreeOn names (a.insert name value) (b.insert name value) := by
  intro other member
  rw [NameMap.get?_insert, NameMap.get?_insert, h other member]

theorem rename (h : AgreeOn names a b) {source : String} (member : source ∈ names)
    (target : String) : AgreeOn names (a.rename source target) (b.rename source target) := by
  unfold Store.rename
  rw [h source member]
  split
  · exact h
  · refine insert (fun other member' => ?_) target _
    rw [NameMap.get?_erase, NameMap.get?_erase, h other member']

end AgreeOn

/-- Outcomes with the same faults that agree on some names. -/
structure OutcomesAgree (names : List String) (o o' : Outcome) : Prop where
  faults : o.faults = o'.faults
  attributes : AgreeOn names o.attributes o'.attributes

namespace Outcome

theorem ofChange_frame {store : Store} {change : Except Fault Store} {name : String}
    (h : ∀ changed, change = .ok changed → changed.get? name = store.get? name) :
    (ofChange store change).attributes.get? name = store.get? name := by
  cases change with
  | ok changed => exact h changed rfl
  | error fault => rfl

variable {c : Coercion} {name : String} {store : Store}

theorem coerce_absent (h : store.get? name = none) :
    coerce c name store = { attributes := store, events := [.absent name] } := by
  simp [coerce, Store.coerce, NameMap.contains, h, ofChange]

theorem coerce_ok {value coerced : Value} (h : store.get? name = some value)
    (ok : c.apply name value = .ok coerced) :
    coerce c name store = { attributes := store.insert name coerced } := by
  simp [coerce, Store.coerce, NameMap.contains, h, ok, Except.map, ofChange]

theorem coerce_error {value : Value} {fault : Fault} (h : store.get? name = some value)
    (error : c.apply name value = .error fault) :
    coerce c name store = { attributes := store, faults := [fault] } := by
  simp [coerce, Store.coerce, NameMap.contains, h, error, Except.map, ofChange]

/-- A coercion finds nothing, fails and changes nothing, or replaces the value. -/
theorem coerce_cases (c : Coercion) (name : String) (store : Store) :
    (store.get? name = none ∧
      coerce c name store = { attributes := store, events := [.absent name] }) ∨
    (∃ value fault, store.get? name = some value ∧ c.apply name value = .error fault ∧
      coerce c name store = { attributes := store, faults := [fault] }) ∨
    (∃ value coerced, store.get? name = some value ∧ c.apply name value = .ok coerced ∧
      coerce c name store = { attributes := store.insert name coerced }) := by
  cases h : store.get? name with
  | none => exact .inl ⟨rfl, coerce_absent h⟩
  | some value =>
    cases applied : c.apply name value with
    | error fault => exact .inr (.inl ⟨value, fault, rfl, applied, coerce_error h applied⟩)
    | ok coerced => exact .inr (.inr ⟨value, coerced, rfl, applied, coerce_ok h applied⟩)

theorem coerce_attributes (c : Coercion) (name : String) (store : Store) :
    (coerce c name store).attributes =
      match store.get? name with
      | none => store
      | some value =>
        match c.apply name value with
        | .ok coerced => store.insert name coerced
        | .error _ => store := by
  rcases coerce_cases c name store with ⟨held, eq⟩ | ⟨_, _, held, applied, eq⟩ |
    ⟨_, _, held, applied, eq⟩
  · rw [eq, held]
  · simp only [eq, held, applied]
  · simp only [eq, held, applied]

theorem coerce_frame (c : Coercion) {name other : String} (store : Store) (h : other ≠ name) :
    (coerce c name store).attributes.get? other = store.get? other := by
  rcases coerce_cases c name store with ⟨_, eq⟩ | ⟨_, _, _, _, eq⟩ | ⟨_, coerced, _, _, eq⟩
  · rw [eq]
  · rw [eq]
  · rw [eq, NameMap.get?_insert, if_neg h]

theorem coerce_agree (c : Coercion) {name : String} {names : List String} {a b : Store}
    (h : AgreeOn names a b) (member : name ∈ names) :
    OutcomesAgree names (coerce c name a) (coerce c name b) := by
  have same := h name member
  rcases coerce_cases c name a with ⟨at_name, eq⟩ | ⟨_, _, at_name, applied, eq⟩ |
    ⟨_, coerced, at_name, applied, eq⟩
  · rw [eq, coerce_absent (same ▸ at_name)]
    exact ⟨rfl, h⟩
  · rw [eq, coerce_error (same ▸ at_name) applied]
    exact ⟨rfl, h⟩
  · rw [eq, coerce_ok (same ▸ at_name) applied]
    exact ⟨rfl, h.insert name coerced⟩

end Outcome

namespace Rule

/-- Whether there is nothing but blank text, if that. -/
def isBlank : Option Value → Bool
  | none => true
  | some (.scalar (.text s)) => Text.trim s.toList = []
  | some _ => false

theorem applyMask_eq (name : String) (store : Store) :
    applyMask name store =
      if isBlank (store.get? name) then { attributes := store.insert name (.list []) }
      else .coerce (.listOf .integers) name store := by
  unfold applyMask
  cases store.get? name with
  | none => rfl
  | some value =>
    cases value with
    | scalar s =>
      cases s with
      | text t => simp [isBlank]
      | _ => rfl
    | _ => rfl

theorem applyShape_eq (name : String) (store : Store) :
    applyShape name store =
      match store.text? name with
      | some s =>
        .ofChange store <|
          match (Text.items s.toList).mapM dimension? with
          | some dimensions => .ok (store.insert name (.ints dimensions))
          | none => .error (.unparseable name s .dimension)
      | none => .coerce (.listOf .integers) name store := by
  unfold applyShape Store.text?
  cases store.get? name with
  | none => rfl
  | some value =>
    cases value with
    | scalar s => cases s <;> rfl
    | _ => rfl

theorem nameElementType_attributes (source target : String) (required : Bool) (store : Store) :
    (Outcome.ofChange store (store.nameElementType source target required)).attributes =
      match (store.text? source).bind ElementType.ofName? with
      | some t => store.insert target (.text t.name)
      | none => store := by
  unfold Store.nameElementType Store.text?
  cases store.get? source with
  | none => cases required <;> rfl
  | some value =>
    cases value with
    | scalar s =>
      cases s with
      | text name => cases named : ElementType.ofName? name <;> simp [named, Outcome.ofChange]
      | _ => rfl
    | _ => rfl

theorem applyPerDimension_attributes (name : String) (store : Store) :
    (applyPerDimension name store).attributes =
      match store.int? name with
      | some n => store.insert name (.ints [1, 1, n, n])
      | none => store := by
  unfold applyPerDimension Store.int?
  cases store.get? name with
  | none => rfl
  | some value =>
    cases value with
    | scalar s =>
      cases s with
      | text t => cases read : Text.integer? (Text.trim t.toList) <;> simp [read, Outcome.ofChange]
      | _ => rfl
    | _ => rfl

variable {node node' : Node}

theorem applyMask_frame {name other : String} (store : Store) (h : other ≠ name) :
    (applyMask name store).attributes.get? other = store.get? other := by
  rw [applyMask_eq]
  split
  · rw [NameMap.get?_insert, if_neg h]
  · exact Outcome.coerce_frame _ store h

theorem applyMask_agree {name : String} {names : List String} {a b : Store}
    (h : AgreeOn names a b) (member : name ∈ names) :
    OutcomesAgree names (applyMask name a) (applyMask name b) := by
  rw [applyMask_eq, applyMask_eq, h name member]
  split
  · exact ⟨rfl, h.insert name _⟩
  · exact Outcome.coerce_agree (.listOf .integers) h member

theorem applyShape_frame {name other : String} (store : Store) (h : other ≠ name) :
    (applyShape name store).attributes.get? other = store.get? other := by
  unfold applyShape
  split
  · split
    · simp only [Outcome.ofChange, NameMap.get?_insert, if_neg h]
    · rfl
  · exact Outcome.coerce_frame _ store h

theorem applyShape_agree {name : String} {names : List String} {a b : Store}
    (h : AgreeOn names a b) (member : name ∈ names) :
    OutcomesAgree names (applyShape name a) (applyShape name b) := by
  have coerced := Outcome.coerce_agree (.listOf .integers) h member
  unfold applyShape
  rw [h name member]
  split
  · split
    · exact ⟨rfl, h.insert name _⟩
    · exact ⟨rfl, h⟩
  · exact coerced

theorem applyPerDimension_frame {name other : String} (store : Store) (h : other ≠ name) :
    (applyPerDimension name store).attributes.get? other = store.get? other := by
  unfold applyPerDimension
  split
  · rfl
  · rfl
  · split
    · simp only [Outcome.ofChange, NameMap.get?_insert, if_neg h]
    · rfl

theorem int?_agree {name : String} {names : List String} {a b : Store} (h : AgreeOn names a b)
    (member : name ∈ names) : a.int? name = b.int? name := by
  simp only [Store.int?, h name member]

theorem ints?_agree {name : String} {names : List String} {a b : Store} (h : AgreeOn names a b)
    (member : name ∈ names) : a.ints? name = b.ints? name := by
  simp only [Store.ints?, h name member]

theorem applyPerDimension_agree {name : String} {names : List String} {a b : Store}
    (h : AgreeOn names a b) (member : name ∈ names) :
    OutcomesAgree names (applyPerDimension name a) (applyPerDimension name b) := by
  unfold applyPerDimension
  rw [h name member, int?_agree h member]
  split
  · exact ⟨rfl, h⟩
  · exact ⟨rfl, h⟩
  · split
    · exact ⟨rfl, h.insert name _⟩
    · exact ⟨rfl, h⟩

theorem applyFullRank_frame {source target other : String} (leading : List Int64) (store : Store)
    (h : other ≠ target) :
    (applyFullRank source target leading store).get? other = store.get? other := by
  unfold applyFullRank
  split
  · rw [NameMap.get?_insert, if_neg h]
  · rfl

theorem applyFullRank_agree {source target : String} {names : List String} (leading : List Int64)
    {a b : Store} (h : AgreeOn names a b) (member : source ∈ names) :
    AgreeOn names (applyFullRank source target leading a)
      (applyFullRank source target leading b) := by
  unfold applyFullRank
  rw [ints?_agree h member]
  split
  · exact h.insert target _
  · exact h

theorem applyPads_frame {first last target dimensions other : String} (store : Store)
    (h : other ≠ target) (h' : other ≠ dimensions) :
    (applyPads first last target dimensions store).attributes.get? other = store.get? other := by
  unfold applyPads
  split
  · split
    · simp only [Outcome.ofChange, NameMap.get?_insert, if_neg h, if_neg h']
    · rfl
  · rfl

theorem applyPads_agree {first last target dimensions : String} {names : List String} {a b : Store}
    (h : AgreeOn names a b) (member : first ∈ names) (member' : last ∈ names) :
    OutcomesAgree names (applyPads first last target dimensions a)
      (applyPads first last target dimensions b) := by
  unfold applyPads
  rw [ints?_agree h member, ints?_agree h member']
  split
  · split
    · exact ⟨rfl, (h.insert target _).insert dimensions _⟩
    · exact ⟨rfl, h⟩
  · exact ⟨rfl, h⟩

theorem nameElementType_ok {source target name : String} {required : Bool} {store : Store}
    {t : ElementType} (held : store.get? source = some (.text name))
    (named : ElementType.ofName? name = some t) :
    store.nameElementType source target required = .ok (store.insert target (.text t.name)) := by
  simp only [Store.nameElementType, held, Value.text, named]

theorem nameElementType_cases {source target : String} {required : Bool} {store changed : Store}
    (done : store.nameElementType source target required = .ok changed) :
    changed = store ∨ ∃ name t, store.get? source = some (.text name) ∧
      ElementType.ofName? name = some t ∧ changed = store.insert target (.text t.name) := by
  unfold Store.nameElementType at done
  split at done
  · split at done
    · cases done
    · cases done
      exact .inl rfl
  · rename_i name held
    split at done
    · rename_i t named
      cases done
      exact .inr ⟨name, t, held, named, rfl⟩
    · cases done
  · cases done

theorem nameElementType_frame {source target other : String} {required : Bool} {store changed : Store}
    (done : store.nameElementType source target required = .ok changed) (h : other ≠ target) :
    changed.get? other = store.get? other := by
  rcases nameElementType_cases done with rfl | ⟨_, _, _, _, rfl⟩
  · rfl
  · rw [NameMap.get?_insert, if_neg h]

theorem nameElementType_agree {source target : String} {required : Bool} {names : List String}
    {a b : Store} (h : AgreeOn names a b) (member : source ∈ names) :
    OutcomesAgree names (.ofChange a (a.nameElementType source target required))
      (.ofChange b (b.nameElementType source target required)) := by
  unfold Store.nameElementType
  rw [h source member]
  split
  · split
    · exact ⟨rfl, h⟩
    · exact ⟨rfl, h⟩
  · split
    · exact ⟨rfl, h.insert target _⟩
    · exact ⟨rfl, h⟩
  · exact ⟨rfl, h⟩

/-- A rule changes only what it writes. -/
theorem apply_frame (r : Rule) (store : Store) {other : String} (h : other ∉ r.writes) :
    (r.apply node store).attributes.get? other = store.get? other := by
  cases r with
  | coerce c name => exact Outcome.coerce_frame c store (by simpa [writes] using h)
  | mask name => exact applyMask_frame store (by simpa [writes] using h)
  | shape name => exact applyShape_frame store (by simpa [writes] using h)
  | elementType source target required =>
    exact Outcome.ofChange_frame fun _ done => nameElementType_frame done (by simpa [writes] using h)
  | rename source target =>
    have apart : other ≠ source ∧ other ≠ target := by simpa [writes] using h
    simp only [apply, Store.rename]
    split
    · rfl
    · rw [NameMap.get?_insert, if_neg apart.2, NameMap.get?_erase, if_neg apart.1]
  | set name value =>
    rw [apply, NameMap.get?_insert, if_neg (by simpa [writes] using h)]
  | flagUnusedOutput name =>
    simp only [apply]
    split
    · rw [NameMap.get?_insert, if_neg (by simpa [writes] using h)]
    · rfl
  | perDimension name => exact applyPerDimension_frame store (by simpa [writes] using h)
  | fullRank source target leading =>
    exact applyFullRank_frame leading store (by simpa [writes] using h)
  | pads first last target dimensions =>
    have apart : other ≠ target ∧ other ≠ dimensions := by simpa [writes] using h
    exact applyPads_frame store apart.1 apart.2

/-- What a rule does is decided by the attributes it touches, and by whether the node's first
output slot is unused. -/
theorem apply_agree (r : Rule) {names : List String} {a b : Store} (h : AgreeOn names a b)
    (touched : ∀ name ∈ r.reads, name ∈ names)
    (outputs : node.outputs.head? = some "" ↔ node'.outputs.head? = some "") :
    OutcomesAgree names (r.apply node a) (r.apply node' b) := by
  cases r with
  | coerce c name => exact Outcome.coerce_agree c h (touched name (by simp [reads]))
  | mask name => exact applyMask_agree h (touched name (by simp [reads]))
  | shape name => exact applyShape_agree h (touched name (by simp [reads]))
  | elementType source target required =>
    exact nameElementType_agree h (touched source (by simp [reads]))
  | rename source target => exact ⟨rfl, h.rename (touched source (by simp [reads])) target⟩
  | set name value => exact ⟨rfl, h.insert name value⟩
  | flagUnusedOutput name =>
    simp only [apply, outputs]
    split
    · exact ⟨rfl, h.insert name _⟩
    · exact ⟨rfl, h⟩
  | perDimension name => exact applyPerDimension_agree h (touched name (by simp [reads]))
  | fullRank source target leading =>
    exact ⟨rfl, applyFullRank_agree leading h (touched source (by simp [reads]))⟩
  | pads first last target dimensions =>
    exact applyPads_agree h (touched first (by simp [reads])) (touched last (by simp [reads]))

end Rule

end OperatorGraph.Extender
