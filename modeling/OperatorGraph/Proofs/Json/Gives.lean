import OperatorGraph.Json.Shape
import OperatorGraph.Proofs.Binary.Range
import OperatorGraph.Proofs.Json.Text
import OperatorGraph.Proofs.NameMap
import OperatorGraph.Proofs.Traversal

/-!
What readers can give, whatever the text. A reader that is put together from others gives only what
is made from what these give.
-/

namespace OperatorGraph.Json.Reader

variable {α β σ : Type} {p : α → Prop} {q : β → Prop}

/-- Whether everything that a reader reads has a property. -/
def Gives (read : Reader α) (p : α → Prop) : Prop :=
  ∀ s a rest, attempt read s = some (a, rest) → p a

theorem gives_any (read : Reader α) : Gives read fun _ => True := fun _ _ _ _ => trivial

theorem gives_pure {a : α} (h : p a) : Gives (pure a) p := by
  rintro s _ _ ⟨⟩
  exact h

theorem gives_throw (fault : Fault) : Gives (throw fault : Reader α) p := by
  rintro s a rest ⟨⟩

theorem gives_mismatch (wanted : String) : Gives (mismatch wanted : Reader α) p := by
  intro s a rest h
  rw [attempt_mismatch] at h
  cases h

theorem Gives.bind {read : Reader α} {next : α → Reader β} (h : Gives read p)
    (then_ : ∀ a, p a → Gives (next a) q) : Gives (read >>= next) q := by
  intro s b rest h'
  rw [attempt_bind] at h'
  obtain ⟨⟨a, t⟩, first, second⟩ := Option.bind_eq_some_iff.mp h'
  exact then_ a (h s a t first) t b rest second

/-- Where it does not matter what is read first. -/
theorem gives_bind {read : Reader α} {next : α → Reader β} (h : ∀ a, Gives (next a) q) :
    Gives (read >>= next) q := (gives_any read).bind fun a _ => h a

/-! ## Numbers -/

/-- Whether a number has at most 64 bits, or is finite. -/
def Number.Fits : Number → Prop
  | natural n => n < UInt64.size
  | negative n => Int64.minValue.toInt ≤ n ∧ n ≤ 0
  | float x => x.isFinite = true

theorem NumberText.fits_value (t : NumberText) (finite : ∀ x, t.value = .float x → x.isFinite) :
    t.value.Fits := by
  revert finite
  dsimp only [value]
  split
  · split
    · rename_i below
      simp only [Bool.and_eq_true, decide_eq_true_eq] at below
      intro _
      exact ⟨below.2, by omega⟩
    · split
      · rename_i below
        simp only [Bool.and_eq_true, decide_eq_true_eq] at below
        intro _
        exact below.2
      · intro finite
        exact finite _ rfl
  · intro finite
    exact finite _ rfl

theorem gives_number : Gives number Number.Fits := by
  refine gives_bind fun t => ?_
  have fits := t.fits_value
  generalize t.value = n at *
  cases n with
  | natural n => exact gives_pure (fits fun _ h => nomatch h)
  | negative n => exact gives_pure (fits fun _ h => nomatch h)
  | float x =>
    dsimp only
    split
    · rename_i finite
      exact gives_pure (p := Number.Fits) finite
    · exact gives_throw _

theorem gives_anyNumber (wanted : String) : Gives (anyNumber wanted) Number.Fits := by
  refine gives_bind fun c => ?_
  split
  · exact gives_number
  · exact gives_mismatch wanted

theorem isFinite_ofInt {n : Int} (small : n.natAbs < UInt64.size) :
    (Binary.Number.ofInt n : Binary64).isFinite = true := by
  refine (Binary.Number.isFinite_ofInt_iff (by decide) n).mpr ?_
  refine lt_of_lt_of_le ?_ Binary.Format.two_pow_le_double_overflow
  exact_mod_cast small

theorem gives_float : Gives float fun x => x.isFinite = true := by
  refine (gives_anyNumber "f64").bind fun n fits => ?_
  cases n with
  | natural n => exact gives_pure (isFinite_ofInt fits)
  | negative n =>
    obtain ⟨low, high⟩ := fits
    have least : Int64.minValue.toInt = -2 ^ 63 := rfl
    have size : UInt64.size = 2 ^ 64 := rfl
    exact gives_pure (isFinite_ofInt (by omega))
  | float x => exact gives_pure fits

/-! ## Lists -/

theorem gives_item? {read : Reader α} (h : Gives read p) (isFirst : Bool) :
    Gives (item? isFirst read) fun a? => ∀ a ∈ a?, p a := by
  have item : Gives (do return some (← read)) fun a? => ∀ a ∈ a?, p a :=
    h.bind fun a holds => gives_pure (by simpa using holds)
  have none : Gives (pure none) fun a? : Option α => ∀ a ∈ a?, p a := gives_pure (by simp)
  refine gives_bind fun c => ?_
  split
  · exact gives_throw _
  · exact none
  · split
    · exact item
    · split
      · refine gives_bind fun _ => gives_bind fun c => ?_
        split
        · exact gives_throw _
        · exact gives_throw _
        · exact item
      · exact gives_throw _

theorem gives_itemsWithin {read : Reader α} (h : Gives read p) (items : Nat) (isFirst : Bool) :
    Gives (itemsWithin read items isFirst) fun as => ∀ a ∈ as, p a := by
  induction items generalizing isFirst with
  | zero => exact gives_throw _
  | succ items ih =>
    refine (gives_item? h isFirst).bind fun a? holds => ?_
    cases a? with
    | none => exact gives_pure (by simp)
    | some a =>
      refine (ih false).bind fun as others => gives_pure ?_
      exact List.forall_mem_cons.mpr ⟨holds a rfl, others⟩

theorem gives_list {read : Reader α} (h : Gives read p) :
    Gives (list read) fun as => ∀ a ∈ as, p a := by
  refine gives_bind fun c => ?_
  split
  · refine gives_bind fun _ => gives_bind fun s => ?_
    exact (gives_itemsWithin h _ true).bind fun as all => gives_bind fun _ => gives_pure all
  · exact gives_mismatch _

theorem gives_require (name : String) {a? : Option α} (h : ∀ a ∈ a?, p a) :
    Gives (require name a?) p := by
  cases a? with
  | none => exact gives_throw _
  | some a => exact gives_pure (h a rfl)

theorem gives_requireItem (index : Nat) (wanted : String) {a? : Option α} (h : ∀ a ∈ a?, p a) :
    Gives (requireItem index wanted a?) p := by
  cases a? with
  | none => exact gives_throw _
  | some a => exact gives_pure (h a rfl)

/-! ## Objects -/

theorem gives_once (name : String) (previous : Option α) {read : Reader α} (h : Gives read p) :
    Gives (once name previous read) fun a? => ∀ a ∈ a?, p a := by
  have item : Gives (do return some (← read)) fun a? => ∀ a ∈ a?, p a :=
    h.bind fun a holds => gives_pure (by simpa using holds)
  unfold once
  split
  · exact gives_bind fun _ => gives_bind fun _ => item
  · exact gives_bind fun _ => item

/-- What every field keeps, the whole object keeps. -/
theorem gives_fieldsWithin {field : σ → String → Reader σ} {p : σ → Prop}
    (h : ∀ s key, p s → Gives (field s key) p) (count : Nat) (isFirst : Bool) {s : σ} (start : p s) :
    Gives (fieldsWithin field count isFirst s) p := by
  induction count generalizing isFirst s with
  | zero => exact gives_throw _
  | succ count ih =>
    refine gives_bind fun key? => ?_
    cases key? with
    | none => exact gives_pure start
    | some key => exact (h s key start).bind fun s' next => ih false next

theorem gives_fields {field : σ → String → Reader σ} {p : σ → Prop}
    (h : ∀ s key, p s → Gives (field s key) p) {s : σ} (start : p s) :
    Gives (fields field s) p := gives_bind fun _ => gives_fieldsWithin h _ true start

theorem gives_map {read : Reader α} (h : Gives read p) :
    Gives (map read) fun m => ∀ name a, m.get? name = some a → p a := by
  refine gives_bind fun c => ?_
  split
  · refine gives_bind fun _ => gives_fields (fun m key all => ?_) (by simp [NameMap.get?_empty])
    refine gives_bind fun _ => h.bind fun a holds => gives_pure fun name a' found => ?_
    rw [NameMap.get?_insert] at found
    split at found
    · cases found
      exact holds
    · exact all name a' found
  · exact gives_mismatch _

theorem gives_record {asList asObject : Reader α} (name : String) (h : Gives asList p)
    (h' : Gives asObject p) : Gives (record name asList asObject) p := by
  refine gives_bind fun c => ?_
  split
  · exact gives_bind fun _ => h.bind fun a holds => gives_bind fun _ => gives_pure holds
  · exact gives_bind fun _ => h'
  · exact gives_mismatch _

/-! ## Choices -/

theorem gives_ofCase {cases : List (String × α)} (h : ∀ c ∈ cases, p c.2) (name : String) :
    Gives (ofCase cases name) p := by
  unfold ofCase
  split
  · rename_i a found
    obtain ⟨_, _, rfl, _⟩ := List.lookup_eq_some_iff.mp found
    exact gives_pure (h (name, a) (by simp))
  · exact gives_throw _

theorem gives_choice {cases : List (String × Reader α)} (h : ∀ c ∈ cases, Gives c.2 p) :
    Gives (choice cases) p := by
  refine gives_bind fun c => ?_
  split
  · refine gives_bind fun _ => ?_
    have field : Gives (caseField cases) fun read => Gives read p := by
      refine gives_bind fun name? => ?_
      cases name? with
      | none => exact gives_throw _
      | some name =>
        exact (gives_ofCase h name).bind fun read gives => gives_bind fun _ => gives_pure gives
    exact field.bind fun read gives => gives.bind fun a holds => gives_bind fun _ => gives_pure holds
  · exact gives_bind fun _ => gives_bind fun _ => gives_bind fun _ => gives_throw _
  · exact gives_throw _

theorem Gives.run {read : Reader α} (h : Gives read p) {s : String} {a : α}
    (done : run read s = .ok a) : p a := by
  let whole : Reader α := do
    let a ← read
    if (← peek).isSome then throw .trailingText
    return a
  have gives : Gives whole p := by
    refine h.bind fun a holds => gives_bind fun next => ?_
    split
    · exact gives_bind fun _ => gives_pure holds
    · exact gives_pure holds
  obtain ⟨⟨_, rest⟩, answer, rfl⟩ := map_except_eq_ok_iff.mp (show _ = Except.ok a from done)
  exact gives s.toList _ rest (congrArg Except.toOption answer)

end OperatorGraph.Json.Reader
