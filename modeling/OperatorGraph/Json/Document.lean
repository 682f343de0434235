import OperatorGraph.Decimal.Layout
import OperatorGraph.Text.Integer

/-!
JSON documents and their two written forms: on one line without blanks, and with one item to a
line, indented by two blanks a level.
-/

namespace OperatorGraph.Json

inductive Document where
  | null
  | bool (b : Bool)
  | integer (n : Int)
  | float (x : Binary64)
  | text (s : String)
  | list (items : List Document)
  | object (fields : List (String × Document))

def hexDigits (n : Nat) : List Char := [(n / 16).digitChar, (n % 16).digitChar]

def escapedChar (c : Char) : List Char :=
  if c = '"' ∨ c = '\\' then ['\\', c]
  else if c = '\n' then ['\\', 'n']
  else if c = '\r' then ['\\', 'r']
  else if c = '\t' then ['\\', 't']
  else if c.toNat = 8 then ['\\', 'b']
  else if c.toNat = 12 then ['\\', 'f']
  else if c.toNat < 32 then '\\' :: 'u' :: '0' :: '0' :: hexDigits c.toNat
  else [c]

def writeText (s : String) : List Char := '"' :: s.toList.flatMap escapedChar ++ ['"']

/-- A finite magnitude has the point among its digits from `10 ^ -5` to below `10 ^ 16`. -/
def writeMagnitude (magnitude : Nat) : List Char :=
  let d := Decimal.shortest Binary.double .toEven magnitude
  if magnitude = 0 then ['0', '.', '0']
  else if -5 < d.pointPlace ∧ d.pointPlace ≤ 16 then d.pointed
  else d.scientific

/-- A number that is not finite has no JSON form and is written as null. -/
def writeFloat (x : Binary64) : List Char :=
  if x.isFinite then
    if x.negative then '-' :: writeMagnitude x.magnitude else writeMagnitude x.magnitude
  else ['n', 'u', 'l', 'l']

def writeBool (b : Bool) : List Char :=
  if b then ['t', 'r', 'u', 'e'] else ['f', 'a', 'l', 's', 'e']

/-- How the parts of a document are set apart, at each level of nesting. -/
structure Layout where
  /-- Before an item, and before the end of a list or object that has items. -/
  lineBreak : Nat → List Char
  afterColon : List Char

def Layout.compact : Layout := ⟨fun _ => [], []⟩

def Layout.indented : Layout := ⟨fun level => '\n' :: List.replicate (2 * level) ' ', [' ']⟩

/-- Items between brackets, each with a break before it. -/
def enclose (layout : Layout) (level : Nat) (opening closing : Char) : List (List Char) → List Char
  | [] => [opening, closing]
  | items =>
    opening :: [','].intercalate (items.map (layout.lineBreak (level + 1) ++ ·)) ++
      layout.lineBreak level ++ [closing]

namespace Document

mutual

def write (layout : Layout) (level : Nat) : Document → List Char
  | null => ['n', 'u', 'l', 'l']
  | bool b => writeBool b
  | integer n => Text.integer n
  | float x => writeFloat x
  | text s => writeText s
  | list items => enclose layout level '[' ']' (writeItems layout (level + 1) items)
  | object fields => enclose layout level '\x7b' '\x7d' (writeFields layout (level + 1) fields)

def writeItems (layout : Layout) (level : Nat) : List Document → List (List Char)
  | [] => []
  | item :: rest => item.write layout level :: writeItems layout level rest

def writeFields (layout : Layout) (level : Nat) : List (String × Document) → List (List Char)
  | [] => []
  | (name, value) :: rest =>
    (writeText name ++ ':' :: layout.afterColon ++ value.write layout level) ::
      writeFields layout level rest

end

def compact (d : Document) : String := String.ofList (d.write .compact 0)

def indented (d : Document) : String := String.ofList (d.write .indented 0)

end Document

end OperatorGraph.Json
