import OperatorGraph.Decimal.Basic
import OperatorGraph.Text.Integer

/-!
Numerals that stand for binary numbers: an optional sign, then `nan`, `inf` or `infinity` in any
letter case, or digits with an optional point before, among or after them and an optional power of
ten.
-/

namespace OperatorGraph.Text

inductive Numeral where
  | finite (negative : Bool) (value : Decimal)
  | infinite (negative : Bool)
  | nan (negative : Bool)
deriving DecidableEq

def Numeral.toNumber {f : Binary.Format} : Numeral → Binary.Number f
  | .finite negative value => .ofDecimal negative value
  | .infinite negative => .infinity negative
  | .nan negative => .nan negative

/-- The power of ten at the end of a numeral; nothing there is the power zero. -/
def power? : List Char → Option Int
  | [] => some 0
  | c :: rest =>
    if c = 'e' || c = 'E' then
      let (negative, digits) := splitSign rest
      (natural? digits).map fun n => if negative then -n else n
    else none

/-- The digits after a point, if one leads, and the text after them. -/
def splitFraction : List Char → List Char × List Char
  | '.' :: rest => rest.span Char.isDigit
  | s => ([], s)

def decimal? (s : List Char) : Option Decimal :=
  let (whole, rest) := s.span Char.isDigit
  let (fraction, rest) := splitFraction rest
  if whole ++ fraction = [] then none
  else (power? rest).map fun power =>
    ⟨Nat.ofDigitChars 10 (whole ++ fraction) 0, power - fraction.length⟩

def numeral? (s : List Char) : Option Numeral :=
  let (negative, body) := splitSign s
  match decimal? body with
  | some value => some (.finite negative value)
  | none =>
    match body.map Char.toLower with
    | ['i', 'n', 'f'] => some (.infinite negative)
    | ['i', 'n', 'f', 'i', 'n', 'i', 't', 'y'] => some (.infinite negative)
    | ['n', 'a', 'n'] => some (.nan negative)
    | _ => none

end OperatorGraph.Text
