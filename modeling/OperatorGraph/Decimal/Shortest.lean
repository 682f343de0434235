import OperatorGraph.Decimal.Basic

/-!
The shortest decimal that reads back as a given magnitude: of the decimals with the fewest digits
that do, the one nearest to its value.
-/

namespace OperatorGraph.Decimal

open Binary (Format scaleDown)

/-- Which of two equally near decimals is taken. -/
inductive Tie where
  | toEven
  | up
deriving DecidableEq

/-- The largest `k` with `10 ^ k ≤ num / den`, for positive `num` and `den`. -/
def floorLog10 (num den : Nat) : Int :=
  let guess : Int := ((Nat.toDigits 10 num).length : Int) - (Nat.toDigits 10 den).length
  let (n, d) := scaleDown 10 num den guess
  if n < d then guess - 1 else guess

/-- The multiples of `10 ^ exponent` around `num / den` that `reads` accepts, the nearer one if
both are. -/
def nearestOnGrid (reads : Decimal → Bool) (tie : Tie) (num den : Nat) (exponent : Int) :
    Option Decimal :=
  let (n, d) := scaleDown 10 num den exponent
  let low : Decimal := ⟨n / d, exponent⟩
  let high : Decimal := ⟨n / d + 1, exponent⟩
  let doubled := 2 * (n % d)
  let lowWins :=
    if doubled = d then tie = .toEven ∧ low.coefficient % 2 = 0 else doubled < d
  if reads low && (lowWins || !reads high) then some low
  else if reads high then some high
  else none

/-- The value itself, written with as many digits as it needs. -/
def exact (f : Format) (magnitude : Nat) : Decimal :=
  let (m, k) := f.significand magnitude
  if 0 ≤ k then ⟨m * Nat.pow 2 k.toNat, 0⟩ else ⟨m * Nat.pow 5 (-k).toNat, k⟩

/-- Digit counts that suffice for every double. -/
def digitCounts : List Nat := (List.range 17).map (· + 1)

def shortest (f : Format) (tie : Tie) (magnitude : Nat) : Decimal :=
  let (num, den) := f.ratio magnitude
  let top := floorLog10 num den
  let found := digitCounts.findSome? fun (count : Nat) =>
    nearestOnGrid (fun d => f.ofDecimal d = magnitude) tie num den (top + 1 - count)
  (found.getD (exact f magnitude)).trim

end OperatorGraph.Decimal
