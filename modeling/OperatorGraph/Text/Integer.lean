/-!
Decimal integers: how they are written, and the forms that are read.
-/

namespace OperatorGraph.Text

def integer (n : Int) : List Char :=
  if n < 0 then '-' :: Nat.toDigits 10 n.natAbs else Nat.toDigits 10 n.natAbs

/-- The number that a run of one or more digits stands for. -/
def natural? (s : List Char) : Option Nat :=
  if s = [] then none
  else if s.all Char.isDigit then some (Nat.ofDigitChars 10 s 0)
  else none

/-- Whether a minus sign leads, and the text after a sign of either kind. -/
def splitSign : List Char → Bool × List Char
  | '-' :: rest => (true, rest)
  | '+' :: rest => (false, rest)
  | s => (false, s)

def int64? (n : Int) : Option Int64 :=
  if Int64.minValue.toInt ≤ n ∧ n ≤ Int64.maxValue.toInt then some (Int64.ofInt n) else none

/-- An optional sign and digits, with a value that fits. -/
def integer? (s : List Char) : Option Int64 := do
  let (negative, digits) := splitSign s
  let n ← natural? digits
  int64? (if negative then -n else n)

end OperatorGraph.Text
