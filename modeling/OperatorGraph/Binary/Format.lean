/-!
Binary interchange formats. A magnitude is the word that remains of a number's pattern without its
sign bit; magnitudes are ordered as the numbers they stand for, and the first one that stands for
no finite number is infinity.
-/

namespace OperatorGraph.Binary

structure Format where
  fractionBits : Nat
  exponentBits : Nat
deriving DecidableEq

def single : Format := ⟨23, 8⟩

def double : Format := ⟨52, 11⟩

/-- The quotient rounded to the nearest integer, a half to the even one. -/
def roundQuotient (num den : Nat) : Nat :=
  let quotient := num / den
  let doubled := 2 * (num % den)
  if doubled < den then quotient
  else if den < doubled then quotient + 1
  else quotient + quotient % 2

/-- `num / den` divided by `base ^ shift`, as a numerator and a denominator. -/
def scaleDown (base num den : Nat) (shift : Int) : Nat × Nat :=
  if 0 ≤ shift then (num, den * Nat.pow base shift.toNat)
  else (num * Nat.pow base (-shift).toNat, den)

/-- The largest `k` with `2 ^ k ≤ num / den`, for positive `num` and `den`. -/
def floorLog2 (num den : Nat) : Int :=
  let guess : Int := (num.log2 : Int) - den.log2
  let (n, d) := scaleDown 2 num den guess
  if n < d then guess - 1 else guess

namespace Format

variable (f : Format)

/-- Finite magnitudes count multiples of powers of two from `2 ^ leastExponent` on. -/
def leastExponent : Int := 2 - (Nat.pow 2 (f.exponentBits - 1) : Nat) - f.fractionBits

def fractions : Nat := Nat.pow 2 f.fractionBits

/-- The number of magnitudes; also the weight of the sign bit. -/
def magnitudes : Nat := Nat.pow 2 (f.fractionBits + f.exponentBits)

def infinity : Nat := (Nat.pow 2 f.exponentBits - 1) * f.fractions

/-- The pair `(m, k)` with value `m * 2 ^ k` of a finite magnitude. -/
def significand (magnitude : Nat) : Nat × Int :=
  let exponent := magnitude / f.fractions
  let fraction := magnitude % f.fractions
  if exponent = 0 then (fraction, f.leastExponent)
  else (f.fractions + fraction, f.leastExponent + (exponent - 1 : Nat))

/-- The value of a finite magnitude as a numerator and a denominator. -/
def ratio (magnitude : Nat) : Nat × Nat :=
  let (m, k) := f.significand magnitude
  scaleDown 2 m 1 (-k)

/-- The magnitude nearest to `num / den`, a tie going to the even one; too large a quotient is
infinity. -/
def round (num den : Nat) : Nat :=
  if num = 0 then 0
  else
    let k := max f.leastExponent (floorLog2 num den - f.fractionBits)
    let (n, d) := scaleDown 2 num den k
    min f.infinity ((k - f.leastExponent).toNat * f.fractions + roundQuotient n d)

theorem fractions_pos : 0 < f.fractions := Nat.two_pow_pos _

theorem magnitudes_pos : 0 < f.magnitudes := Nat.two_pow_pos _

end Format

end OperatorGraph.Binary
