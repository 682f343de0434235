import OperatorGraph.Json.Reader

/-!
Skipping a value that nothing asks for. Lists and objects nest to any depth here, so the ones that
are open are kept in a list, the innermost first.
-/

namespace OperatorGraph.Json.Reader

inductive Frame where
  | list
  | object
deriving DecidableEq

namespace Frame

def closing : Frame → Char
  | list => ']'
  | object => '\x7d'

def atEnd : Frame → Fault
  | list => .endInList
  | object => .endInObject

def wantedEnd : Frame → Fault
  | list => .wantedListEnd
  | object => .wantedObjectEnd

end Frame

def colon : Reader Unit := do
  match ← peek with
  | none => throw .endInObject
  | some ':' => advance
  | some _ => throw .wantedColon

def skipKey : Reader Unit := do
  match ← peek with
  | none => throw .endInObject
  | some '"' => advance; skipText; colon
  | some _ => throw .wantedKey

/-- A value that holds no other, by its first character. -/
def skipScalar (c : Char) : Reader Unit := do
  match c with
  | 'n' => advance; word ['u', 'l', 'l']
  | 't' => advance; word ['r', 'u', 'e']
  | 'f' => advance; word ['a', 'l', 's', 'e']
  | '"' => advance; skipText
  | c => if startsNumber c then discard (numberText .badNumber) else throw .wantedValue

/-- Goes on to the next value in the innermost open frame that has one, and gives the frames that
are then open. `afterItem` is false right after a frame was opened. -/
def settle : (afterItem : Bool) → List Frame → Reader (List Frame)
  | _, [] => return []
  | afterItem, frame :: outer => do
    match ← peek with
    | none => throw frame.atEnd
    | some c =>
      if c = frame.closing then
        advance
        settle true outer
      else
        if afterItem then
          if c = ',' then advance else throw frame.wantedEnd
        if frame = .object then skipKey
        return frame :: outer

/-- Skips values until no frame is open; each value takes a character at least. -/
def skipWithin : Nat → List Frame → Reader Unit
  | 0, _ => throw .endInValue
  | values + 1, frames => do
    let frames ←
      match ← peek with
      | none => throw .endInValue
      | some '[' => advance; settle false (.list :: frames)
      | some '\x7b' => advance; settle false (.object :: frames)
      | some c => skipScalar c; settle true frames
    if frames = [] then return else skipWithin values frames

def skip : Reader Unit := do skipWithin ((← get).length + 1) []

end OperatorGraph.Json.Reader
