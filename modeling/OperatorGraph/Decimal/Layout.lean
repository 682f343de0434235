import OperatorGraph.Decimal.Shortest

/-!
Written forms of decimals: positional, with the point among the digits, and scientific, with one
digit before the point and an exponent of ten.
-/

namespace OperatorGraph.Decimal

/-- The number of digits before the point; negative if zeros follow the point first. -/
def pointPlace (d : Decimal) : Int := d.digits.length + d.exponent

def positional (d : Decimal) : List Char :=
  let digits := d.digits
  if 0 ≤ d.exponent then digits ++ List.replicate d.exponent.toNat '0'
  else if 0 < d.pointPlace then
    digits.take d.pointPlace.toNat ++ '.' :: digits.drop d.pointPlace.toNat
  else '0' :: '.' :: List.replicate (-d.pointPlace).toNat '0' ++ digits

/-- As `positional`, with a digit after the point in any case. -/
def pointed (d : Decimal) : List Char :=
  if 0 ≤ d.exponent then d.positional ++ ['.', '0'] else d.positional

def scientific (d : Decimal) : List Char :=
  let mantissa :=
    match d.digits with
    | first :: second :: rest => first :: '.' :: second :: rest
    | digits => digits
  let power := d.pointPlace - 1
  let sign := if power < 0 then '-' else '+'
  mantissa ++ 'e' :: sign :: Nat.toDigits 10 power.natAbs

end OperatorGraph.Decimal

namespace OperatorGraph.Binary64

open Decimal

/-- The text of a number for a reader: positional at any size, no point in an integer, and a tie
between two shortest decimals goes up. -/
def display (x : Binary64) : List Char :=
  let body :=
    if x.isInfinite then ['i', 'n', 'f']
    else if x.isZero then ['0']
    else (shortest Binary.double .up x.magnitude).positional
  if x.isNaN then ['N', 'a', 'N']
  else if x.negative then '-' :: body
  else body

end OperatorGraph.Binary64
