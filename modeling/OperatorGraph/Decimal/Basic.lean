import OperatorGraph.Binary.Number

/-!
Decimal numbers `coefficient * 10 ^ exponent`, and the binary number nearest to one.
-/

namespace OperatorGraph

structure Decimal where
  coefficient : Nat
  exponent : Int
deriving DecidableEq

namespace Decimal

def digits (d : Decimal) : List Char := Nat.toDigits 10 d.coefficient

/-- The decimal as a numerator and a denominator. -/
def ratio (d : Decimal) : Nat × Nat := Binary.scaleDown 10 d.coefficient 1 (-d.exponent)

/-- A decimal whose coefficient has no trailing zero, and equal to the given one unless that is
zero. -/
def trim (d : Decimal) : Decimal :=
  if h : d.coefficient = 0 then ⟨0, 0⟩
  else if d.coefficient % 10 = 0 then trim ⟨d.coefficient / 10, d.exponent + 1⟩
  else d
termination_by d.coefficient
decreasing_by omega

end Decimal

namespace Binary

/-- Decimals from `10 ^ decimalReach` on are infinite in every format here, and those below
`10 ^ -decimalReach` are zero. -/
def decimalReach : Int := 400

/-- The magnitude nearest to a decimal. Out of reach, the answer is given without the power of ten,
whose size would otherwise follow the exponent. -/
def Format.ofDecimal (f : Format) (d : Decimal) : Nat :=
  if d.coefficient = 0 then 0
  else if decimalReach < d.exponent then f.infinity
  else if d.exponent + (d.coefficient.log2 / 3 + 1 : Nat) < -decimalReach then 0
  else f.round d.ratio.1 d.ratio.2

def Number.ofDecimal {f : Format} (negative : Bool) (d : Decimal) : Number f :=
  ofMagnitude negative (f.ofDecimal d)

end Binary

end OperatorGraph
