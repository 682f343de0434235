/-!
Machines that answer every input. A run gives the last state and all answers; a view of the states
that every step agrees with is one that every run agrees with.
-/

namespace OperatorGraph

variable {ι σ τ α : Type}

/-- The state after a list of inputs, and what was answered to each. -/
def runSteps (step : ι → σ → σ × α) : List ι → σ → σ × List α
  | [], s => (s, [])
  | input :: rest, s =>
    let (next, answer) := step input s
    let (last, answers) := runSteps step rest next
    (last, answer :: answers)

theorem runSteps_view {view : σ → τ} {step : ι → σ → σ × α} {step' : ι → τ → τ × α}
    (h : ∀ input s, step' input (view s) = (view (step input s).1, (step input s).2))
    (inputs : List ι) (s : σ) :
    runSteps step' inputs (view s) =
      (view (runSteps step inputs s).1, (runSteps step inputs s).2) := by
  induction inputs generalizing s with
  | nil => rfl
  | cons input rest ih => simp only [runSteps, h, ih]

end OperatorGraph
