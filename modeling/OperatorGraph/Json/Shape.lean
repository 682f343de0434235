import OperatorGraph.Json.Skip
import OperatorGraph.NameMap

/-!
Readers of plain values, lists, maps, structures and choices. A structure is an object or the list
of its fields in order; a choice is an object with one field, named for the case, or, for a case
without content, also a text.
-/

namespace OperatorGraph.Json.Reader

variable {α σ : Type}

/-- The next character after blanks, where a value has to begin. -/
def peekValue : Reader Char := do
  match ← peek with
  | none => throw .endInValue
  | some c => return c

def string : Reader String := do
  match ← peekValue with
  | '"' => advance; restOfText
  | _ => mismatch "a string"

def bool : Reader Bool := do
  match ← peekValue with
  | 't' => advance; word ['r', 'u', 'e']; return true
  | 'f' => advance; word ['a', 'l', 's', 'e']; return false
  | _ => mismatch "a boolean"

def unit : Reader Unit := do
  match ← peekValue with
  | 'n' => advance; word ['u', 'l', 'l']
  | _ => mismatch "unit"

def optional (read : Reader α) : Reader (Option α) := do
  match ← peek with
  | some 'n' => advance; word ['u', 'l', 'l']; return none
  | _ => return some (← read)

def anyNumber (wanted : String) : Reader Number := do
  if startsNumber (← peekValue) then number else mismatch wanted

/-- An integer between two bounds. -/
def integerBetween (least greatest : Int) (wanted : String) : Reader Int := do
  let found ← anyNumber wanted
  match found with
  | .float _ => throw (.invalidType found.describe wanted)
  | .natural n | .negative n =>
    if least ≤ n ∧ n ≤ greatest then return n
    else throw (.invalidValue found.describe wanted)

def int64 : Reader Int64 := do
  return Int64.ofInt (← integerBetween Int64.minValue.toInt Int64.maxValue.toInt "i64")

def byte : Reader UInt8 := return (← integerBetween 0 255 "u8").toNat.toUInt8

/-- A number; an integer is taken for the nearest float. -/
def float : Reader Binary64 := do
  match ← anyNumber "f64" with
  | .float x => return x
  | .natural n | .negative n => return .ofInt n

/-! ## Lists -/

/-- The next item of a list, or none before the bracket that closes it. -/
def item? (isFirst : Bool) (read : Reader α) : Reader (Option α) := do
  match ← peek with
  | none => throw .endInList
  | some ']' => return none
  | some c =>
    if isFirst then return some (← read)
    else if c = ',' then
      advance
      match ← peek with
      | none => throw .endInValue
      | some ']' => throw .trailingComma
      | some _ => return some (← read)
    else throw .wantedListEnd

/-- The end of a list all of whose wanted items were read. -/
def listEnd : Reader Unit := do
  match ← peek with
  | none => throw .endInList
  | some ']' => advance
  | some ',' =>
    advance
    throw (if (← peek) = some ']' then .trailingComma else .trailingText)
  | some _ => throw .trailingText

def itemsWithin (read : Reader α) : Nat → (isFirst : Bool) → Reader (List α)
  | 0, _ => throw .endInList
  | items + 1, isFirst => do
    match ← item? isFirst read with
    | none => return []
    | some a => return a :: (← itemsWithin read items false)

/-- The items of a list; each takes a character at least, and so does the closing bracket. -/
def list (read : Reader α) : Reader (List α) := do
  match ← peekValue with
  | '[' =>
    advance
    let items ← itemsWithin read ((← get).length + 1) true
    listEnd
    return items
  | _ => mismatch "a sequence"

/-! ## Objects -/

/-- The next key of an object, or none after the brace that closes it. -/
def key? (isFirst : Bool) : Reader (Option String) := do
  match ← peek with
  | none => throw .endInObject
  | some '\x7d' => advance; return none
  | some c =>
    if isFirst then
      if c = '"' then
        advance
        return some (← restOfText)
      else throw .wantedKey
    else if c = ',' then
      advance
      match ← peek with
      | none => throw .endInValue
      | some '"' => advance; return some (← restOfText)
      | some '\x7d' => throw .trailingComma
      | some _ => throw .wantedKey
    else throw .wantedObjectEnd

/-- Gives each key of an object in turn to `field`, which reads on from the colon. -/
def fieldsWithin (field : σ → String → Reader σ) : Nat → (isFirst : Bool) → σ → Reader σ
  | 0, _, _ => throw .endInObject
  | fields + 1, isFirst, s => do
    match ← key? isFirst with
    | none => return s
    | some key => fieldsWithin field fields false (← field s key)

/-- The fields of an object after its opening brace; each takes a character at least, and so does
the closing brace. -/
def fields (field : σ → String → Reader σ) (s : σ) : Reader σ := do
  fieldsWithin field ((← get).length + 1) true s

def map (read : Reader α) : Reader (NameMap α) := do
  match ← peekValue with
  | '\x7b' =>
    advance
    fields (fun m key => do colon; return m.insert key (← read)) .empty
  | _ => mismatch "a map"

/-- The value of a field that may occur once. -/
def once (name : String) (previous : Option α) (read : Reader α) : Reader (Option α) := do
  if previous.isSome then throw (.duplicateField name)
  colon
  return some (← read)

/-- A field that is not known. -/
def ignore : Reader Unit := do colon; skip

def require (name : String) : Option α → Reader α
  | some a => return a
  | none => throw (.missingField name)

/-- An item that a structure written as a list cannot do without. -/
def requireItem (index : Nat) (wanted : String) : Option α → Reader α
  | some a => return a
  | none => throw (.invalidLength index wanted)

/-- A structure, by readers for its two forms that begin after the bracket or brace. -/
def record (name : String) (asList asObject : Reader α) : Reader α := do
  match ← peekValue with
  | '[' =>
    advance
    let a ← asList
    listEnd
    return a
  | '\x7b' => advance; asObject
  | _ => mismatch s!"struct {name}"

/-! ## Choices -/

/-- What belongs to a case. -/
def ofCase (cases : List (String × α)) (name : String) : Reader α :=
  match cases.lookup name with
  | some a => return a
  | none => throw (.unknownCase name (cases.map (·.1)))

/-- The case that the only field of an object is named for, up to the colon. -/
def caseField (cases : List (String × α)) : Reader α := do
  match ← key? true with
  | none => throw .wantedValue
  | some name =>
    let a ← ofCase cases name
    colon
    return a

/-- The brace after the only field of an object. -/
def onlyFieldEnd : Reader Unit := do
  match ← peek with
  | none => throw .endInObject
  | some '\x7d' => advance
  | some _ => throw .wantedValue

/-- A choice between cases with content. -/
def choice (cases : List (String × Reader α)) : Reader α := do
  match ← peekValue with
  | '\x7b' =>
    advance
    let a ← (← caseField cases)
    onlyFieldEnd
    return a
  | '"' =>
    advance
    discard (ofCase cases (← restOfText))
    throw (.invalidType "unit variant" "newtype variant")
  | _ => throw .wantedValue

/-- A choice between cases without content. -/
def label (cases : List (String × α)) : Reader α := do
  match ← peekValue with
  | '\x7b' =>
    advance
    let a ← caseField cases
    unit
    onlyFieldEnd
    return a
  | '"' =>
    advance
    ofCase cases (← restOfText)
  | _ => throw .wantedValue

/-- Reads a whole text. -/
def run (read : Reader α) (s : String) : Except Fault α :=
  let whole : Reader α := do
    let a ← read
    if (← peek).isSome then throw .trailingText
    return a
  (whole s.toList).map Prod.fst

end OperatorGraph.Json.Reader
