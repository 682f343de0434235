import OperatorGraph.Extender.Registry
import OperatorGraph.Proofs.NameMap
import OperatorGraph.Proofs.Text.ByteOrder
import OperatorGraph.Proofs.Transcript

/-!
Registration. The first extender that is registered for an operator type is found for it ever after;
every further one is a conflict and changes nothing.
-/

namespace OperatorGraph

namespace Registry

variable {r : Registry} {e : Extender}

theorem register_of_absent (absent : r.lookup e.opType = none) :
    r.register e = .ok ⟨r.extenders.insert e.opType e⟩ := by
  have free : r.extenders.contains e.opType = false := by
    rw [NameMap.contains, ← lookup, absent, Option.isSome_none]
  simp [register, free]

theorem register_of_held {other : Extender} (held : r.lookup e.opType = some other) :
    r.register e = .error ⟨e.opType⟩ := by
  have taken : r.extenders.contains e.opType = true := by
    rw [NameMap.contains, ← lookup, held, Option.isSome_some]
  simp [register, taken]

/-- Extenders for different operator types that have none yet are registered without a conflict. -/
theorem registerAll_eq_ok {es : List Extender} (distinct : (es.map Extender.opType).Nodup)
    (absent : ∀ e ∈ es, r.lookup e.opType = none) :
    r.registerAll es = .ok ⟨r.extenders.insertAll (es.map fun e => (e.opType, e))⟩ := by
  induction es generalizing r with
  | nil => rfl
  | cons e rest ih =>
    obtain ⟨apart, tail⟩ := List.nodup_cons.mp distinct
    have later : ∀ other ∈ rest,
        lookup ⟨r.extenders.insert e.opType e⟩ other.opType = none := by
      intro other member
      have different : other.opType ≠ e.opType := fun same =>
        apart (same ▸ List.mem_map_of_mem member)
      rw [lookup, NameMap.get?_insert, if_neg different]
      exact absent other (List.mem_cons_of_mem e member)
    rw [registerAll, List.foldlM_cons, register_of_absent (absent e List.mem_cons_self)]
    exact ih tail later

/-- The built-in extenders do not conflict. -/
theorem registerAll_builtins : empty.registerAll Extender.builtins = .ok builtin :=
  registerAll_eq_ok (by decide) fun _ _ => rfl

end Registry

/-- A call that registers an extender, or a function as the extender of an operator type. -/
inductive Registration where
  | extender (e : Extender)
  | function (opType : String) (extend : Node → Extender.Outcome)

namespace Registration

/-- The extender that a call is about. -/
def subject : Registration → Extender
  | extender e => e
  | function opType extend => { opType, extend }

def opType (call : Registration) : String := call.subject.opType

/-- The registry after a call, and what the call returned. -/
def run (call : Registration) (r : Registry) : Registry × Except Conflict Unit :=
  match r.register call.subject with
  | .ok changed => (changed, .ok ())
  | .error conflict => (r, .error conflict)

/-- The registry after calls on a new one. -/
def runAll (calls : List Registration) : Registry := (runSteps run calls .empty).1

/-- Whether one of several calls on a new registry registered an extender for an operator type. -/
def Succeeds (calls : List Registration) (opType : String) : Prop :=
  ∃ before call after, calls = before ++ call :: after ∧ call.opType = opType ∧
    (call.run (runAll before)).2 = .ok ()

variable {call : Registration} {r : Registry}

theorem run_of_absent (absent : r.lookup call.opType = none) :
    call.run r = (⟨r.extenders.insert call.opType call.subject⟩, .ok ()) := by
  rw [run, Registry.register_of_absent absent]
  rfl

theorem run_of_held {e : Extender} (held : r.lookup call.opType = some e) :
    call.run r = (r, .error ⟨call.opType⟩) := by
  rw [run, Registry.register_of_held held]
  rfl

/-- What a registry holds stays; where it holds nothing, it then holds what the call brings. -/
theorem lookup_run (call : Registration) (r : Registry) (opType : String) :
    (call.run r).1.lookup opType =
      (r.lookup opType).or (if call.opType = opType then some call.subject else none) := by
  cases held : r.lookup call.opType with
  | none =>
    rw [run_of_absent held, Registry.lookup, NameMap.get?_insert]
    by_cases same : opType = call.opType
    · simp [same, held]
    · simp [same, Ne.symm same, Registry.lookup]
  | some e =>
    rw [run_of_held held]
    by_cases same : call.opType = opType
    · simp [← same, held]
    · simp [same]

theorem lookup_runSteps (calls : List Registration) (r : Registry) (opType : String) :
    (runSteps run calls r).1.lookup opType =
      (r.lookup opType).or ((calls.find? fun call => call.opType = opType).map subject) := by
  induction calls generalizing r with
  | nil => simp [runSteps]
  | cons call rest ih =>
    have later := ih (call.run r).1
    rw [lookup_run, Option.or_assoc] at later
    by_cases same : call.opType = opType
    · simpa [runSteps, same] using later
    · simpa [runSteps, same] using later

/-- The extender that is found is that of the first call for the operator type. -/
theorem lookup_runAll (calls : List Registration) (opType : String) :
    (runAll calls).lookup opType =
      (calls.find? fun call => call.opType = opType).map subject := by
  rw [runAll, lookup_runSteps]
  rfl

theorem lookup_runAll_eq_none_iff {calls : List Registration} {opType : String} :
    (runAll calls).lookup opType = none ↔ ∀ call ∈ calls, call.opType ≠ opType := by
  simp [lookup_runAll]

theorem opType_of_lookup {calls : List Registration} {opType : String} {e : Extender}
    (found : (runAll calls).lookup opType = some e) : e.opType = opType := by
  rw [lookup_runAll] at found
  obtain ⟨call, first, rfl⟩ := Option.map_eq_some_iff.mp found
  have same : call.opType = opType := by simpa using List.find?_some first
  exact same

/-- The first call for an operator type succeeds, whatever came before it. -/
theorem succeeds_iff {calls : List Registration} {opType : String} :
    Succeeds calls opType ↔ ∃ e, (runAll calls).lookup opType = some e := by
  constructor
  · rintro ⟨before, call, after, rfl, same, _⟩
    refine Option.ne_none_iff_exists'.mp fun none => ?_
    exact lookup_runAll_eq_none_iff.mp none call (by simp) same
  · rintro ⟨e, found⟩
    rw [lookup_runAll] at found
    obtain ⟨call, first, rfl⟩ := Option.map_eq_some_iff.mp found
    obtain ⟨same, before, after, split, others⟩ := List.find?_eq_some_iff_append.mp first
    have named : call.opType = opType := of_decide_eq_true same
    have fresh : (runAll before).lookup call.opType = none :=
      lookup_runAll_eq_none_iff.mpr fun other member => by
        simpa [named] using others other member
    exact ⟨before, call, after, split, named, by rw [run_of_absent fresh]⟩

/-- Registration never loses or replaces an extender. After any calls on a new registry, a further
one is a conflict exactly if one of them registered an extender for the same operator type, and then
it changes nothing. For every operator type the extender of the first call for it is found, and it
is one for that type. The types are listed in ascending order, those that were registered and no
others. -/
theorem runAll_keeps (calls : List Registration) :
    let registry := runAll calls
    (∀ call : Registration,
      (call.run registry).2 = .error ⟨call.opType⟩ ↔ Succeeds calls call.opType) ∧
    (∀ (call : Registration) (conflict : Conflict), (call.run registry).2 = .error conflict →
      conflict = ⟨call.opType⟩ ∧ (call.run registry).1 = registry) ∧
    (∀ opType, registry.lookup opType =
      (calls.find? fun call => call.opType = opType).map subject) ∧
    (∀ opType e, registry.lookup opType = some e → e.opType = opType) ∧
    registry.opTypes.Pairwise (fun a b => Text.utf8 a < Text.utf8 b) ∧
    (∀ opType, opType ∈ registry.opTypes ↔ Succeeds calls opType) ∧
    registry.size = registry.opTypes.length := by
  intro registry
  refine ⟨fun call => ?_, fun call conflict failed => ?_, lookup_runAll calls,
    fun _ _ => opType_of_lookup, ?_, fun opType => ?_, ?_⟩
  · rw [succeeds_iff]
    cases held : registry.lookup call.opType with
    | none => simp [run_of_absent held]
    | some e => simp [run_of_held held]
  · cases held : registry.lookup call.opType with
    | none =>
      rw [run_of_absent held] at failed
      cases failed
    | some e =>
      rw [run_of_held held] at failed ⊢
      exact ⟨(Except.error.inj failed).symm, rfl⟩
  · exact registry.extenders.names_ascending.imp Text.utf8_lt_utf8_iff.mpr
  · rw [succeeds_iff]
    have listed := NameMap.contains_eq_true_iff registry.extenders opType
    exact listed.symm.trans Option.isSome_iff_exists
  · exact (List.length_map Prod.fst).symm

/-- The second function for a type is a conflict, and the first one stays. -/
example (first second : Node → Extender.Outcome) :
    let calls := [Registration.function "Relu" first, .function "Relu" second]
    (runSteps run calls .empty).2 = [.ok (), .error ⟨"Relu"⟩] ∧
      ((runAll calls).lookup "Relu").map Extender.extend = some first := by
  exact ⟨rfl, rfl⟩

end Registration

end OperatorGraph
