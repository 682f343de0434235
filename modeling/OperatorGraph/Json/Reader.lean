import OperatorGraph.Decimal.Basic
import OperatorGraph.Json.Document
import OperatorGraph.Json.Fault
import OperatorGraph.Text.Quoted

/-!
Readers of JSON text. A reader takes a value off the front of the text that is left. It knows what
it wants, so that of several faults the first in the text is the one reported.
-/

namespace OperatorGraph.Json

abbrev Reader (α : Type) := StateT (List Char) (Except Fault) α

namespace Reader

def isBlank (c : Char) : Bool := c = ' ' || c = '\n' || c = '\t' || c = '\r'

/-- The next character, after any blanks, which stays in the text. -/
def peek : Reader (Option Char) := do
  modify (·.dropWhile isBlank)
  return (← get).head?

def advance : Reader Unit := modify List.tail

/-- The rest of a word whose first character decided what to read. -/
def word : List Char → Reader Unit
  | [] => return
  | c :: rest => do
    match (← get).head? with
    | none => throw .endInValue
    | some found => if found = c then do advance; word rest else throw .wantedWord

/-! ## Texts -/

def hexDigit? (c : Char) : Option Nat :=
  if c.isDigit then some (c.toNat - '0'.toNat)
  else if 'a' ≤ c ∧ c ≤ 'f' then some (c.toNat - 'a'.toNat + 10)
  else if 'A' ≤ c ∧ c ≤ 'F' then some (c.toNat - 'A'.toNat + 10)
  else none

/-- Four hexadecimal digits; the text ends too early if fewer than four bytes are left. -/
def hexEscape : Reader Nat := do
  let next := (← get).take 4
  if (String.ofList next).utf8ByteSize < 4 then throw .endInText
  else
    match next.mapM hexDigit? with
    | some digits =>
      modify (·.drop 4)
      return digits.foldl (fun n digit => n * 16 + digit) 0
    | none => throw .badEscape

def isLeadingSurrogate (n : Nat) : Bool := 0xd800 ≤ n && n ≤ 0xdbff

def isTrailingSurrogate (n : Nat) : Bool := 0xdc00 ≤ n && n ≤ 0xdfff

/-- The given character, which has to come next in an escape. -/
def escapePart (c : Char) : Reader Unit := do
  match (← get).head? with
  | none => throw .endInText
  | some found => if found = c then advance else throw .cutEscape

/-- A character by its number, or by two surrogates if it has more than 16 bits. -/
def numberedChar : Reader Char := do
  let n ← hexEscape
  if isTrailingSurrogate n then throw .loneSurrogate
  else if isLeadingSurrogate n then do
    escapePart '\\'
    escapePart 'u'
    let trailing ← hexEscape
    if isTrailingSurrogate trailing then
      return Char.ofNat (0x10000 + (n - 0xd800) * 0x400 + (trailing - 0xdc00))
    else throw .loneSurrogate
  else return Char.ofNat n

/-- The character that a letter after a backslash stands for. -/
def letterEscape? (c : Char) : Option Char :=
  match c with
  | '"' | '\\' | '/' => some c
  | 'b' => some '\x08'
  | 'f' => some '\x0c'
  | 'n' => some '\n'
  | 'r' => some '\r'
  | 't' => some '\t'
  | _ => none

/-- One character of a text, or none at the quote that ends it. -/
def textChar (numbered : Reader Char) : Reader (Option Char) := do
  match (← get).head? with
  | none => throw .endInText
  | some c =>
    if c.toNat < 32 then throw .controlCharacter
    advance
    if c = '"' then return none
    else if c = '\\' then
      match (← get).head? with
      | none => throw .endInText
      | some 'u' => advance; return some (← numbered)
      | some letter =>
        match letterEscape? letter with
        | some c => advance; return some c
        | none => throw .badEscape
    else return some c

def textWithin (numbered : Reader Char) : Nat → Reader (List Char)
  | 0 => throw .endInText
  | chars + 1 => do
    match ← textChar numbered with
    | none => return []
    | some c => return c :: (← textWithin numbered chars)

/-- A text after its opening quote; each of its characters takes one at least, and so does the
quote that closes it. -/
def restOfText : Reader String := do
  return String.ofList (← textWithin numberedChar ((← get).length + 1))

/-- As `restOfText`, without a look at how surrogates pair up. -/
def skipText : Reader Unit := do
  discard (textWithin (do discard hexEscape; return ' ') ((← get).length + 1))

/-! ## Numbers -/

inductive Number where
  | natural (n : Nat)
  | negative (n : Int)
  | float (x : Binary64)
deriving DecidableEq

def Number.describe : Number → String
  | natural n => s!"integer `{n}`"
  | negative n => s!"integer `{n}`"
  | float x => s!"floating point `{String.ofList (writeFloat x)}`"

def takeDigits : Reader (List Char) := do
  let (digits, rest) := (← get).span Char.isDigit
  set rest
  return digits

/-- One digit or more; `atEnd` is the fault if the text ends instead. -/
def digits (atEnd : Fault) : Reader (List Char) := do
  let first := (← get).head?
  let digits ← takeDigits
  if digits = [] then throw (if first.isNone then atEnd else .badNumber)
  else return digits

/-- Digits without a superfluous zero before them. -/
def wholeDigits (atEnd : Fault) : Reader (List Char) := do
  match ← digits atEnd with
  | '0' :: _ :: _ => throw .badNumber
  | digits => return digits

def fractionDigits (atEnd : Fault) : Reader (Option (List Char)) := do
  if (← get).head? = some '.' then
    advance
    return some (← digits atEnd)
  else return none

def power (atEnd : Fault) : Reader (Option Int) := do
  match (← get).head? with
  | some 'e' | some 'E' =>
    advance
    let negative := (← get).head? = some '-'
    if negative || (← get).head? = some '+' then advance
    let n := Nat.ofDigitChars 10 (← digits atEnd) 0
    return some (if negative then -n else n)
  | _ => return none

/-- The parts of a number as it is written. -/
structure NumberText where
  negative : Bool
  whole : List Char
  fraction : Option (List Char)
  power : Option Int

def numberText (atEnd : Fault) : Reader NumberText := do
  let negative := (← get).head? = some '-'
  if negative then advance
  return {
    negative
    whole := ← wholeDigits atEnd
    fraction := ← fractionDigits atEnd
    power := ← power atEnd }

/-- A number without fraction and power is an integer if it has at most 64 bits; minus zero is
none. -/
def NumberText.value (t : NumberText) : Number :=
  let n := Nat.ofDigitChars 10 t.whole 0
  let fraction := t.fraction.getD []
  let decimal : Decimal :=
    ⟨Nat.ofDigitChars 10 (t.whole ++ fraction) 0, t.power.getD 0 - fraction.length⟩
  if t.fraction.isNone && t.power.isNone then
    if t.negative && 0 < n && Int64.minValue.toInt ≤ -n then .negative (-n)
    else if !t.negative && n < UInt64.size then .natural n
    else .float (.ofDecimal t.negative decimal)
  else .float (.ofDecimal t.negative decimal)

def number : Reader Number := do
  match (← numberText .endInValue).value with
  | .float x => if x.isFinite then return .float x else throw .numberTooLarge
  | n => return n

def startsNumber (c : Char) : Bool := c = '-' || c.isDigit

/-- The fault of a value of another type than the one that is wanted. -/
def mismatch {α : Type} (wanted : String) : Reader α := do
  match (← get).head? with
  | some 'n' => advance; word ['u', 'l', 'l']; throw (.invalidType "null" wanted)
  | some 't' => advance; word ['r', 'u', 'e']; throw (.invalidType "boolean `true`" wanted)
  | some 'f' => advance; word ['a', 'l', 's', 'e']; throw (.invalidType "boolean `false`" wanted)
  | some '"' =>
    advance
    throw (.invalidType s!"string {Text.quoted (← restOfText)}" wanted)
  | some '[' => throw (.invalidType "sequence" wanted)
  | some '\x7b' => throw (.invalidType "map" wanted)
  | some c =>
    if startsNumber c then throw (.invalidType (← number).describe wanted)
    else throw .wantedValue
  | none => throw .wantedValue

end Reader

end OperatorGraph.Json
