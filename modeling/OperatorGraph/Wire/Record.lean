import OperatorGraph.Wire.Fixed
import OperatorGraph.Wire.Varint

/-!
Messages as sequences of records. A record is a field number and a content, whose form is given
beside the number. A group is a sequence of records between a start and an end record.
-/

namespace OperatorGraph.Wire

inductive Content where
  | varint (n : UInt64)
  | fixed64 (n : UInt64)
  | bytes (content : List UInt8)
  | groupStart
  | groupEnd
  | fixed32 (n : UInt32)
deriving DecidableEq

def Content.form : Content → Nat
  | .varint _ => 0
  | .fixed64 _ => 1
  | .bytes _ => 2
  | .groupStart => 3
  | .groupEnd => 4
  | .fixed32 _ => 5

structure Record where
  number : Nat
  content : Content
deriving DecidableEq

/-- The first `n` bytes and what follows them. -/
def takeBytes (n : Nat) (input : List UInt8) : Option (List UInt8 × List UInt8) :=
  if n ≤ input.length then some (input.splitAt n) else none

def Content.write : Content → List UInt8
  | .varint n => writeVarint n
  | .fixed64 n => writeFixed 8 n.toNat
  | .bytes content => writeVarint content.length.toUInt64 ++ content
  | .groupStart | .groupEnd => []
  | .fixed32 n => writeFixed 4 n.toNat

def Content.read? (form : Nat) (input : List UInt8) : Option (Content × List UInt8) :=
  match form with
  | 0 => (readVarint input).map fun (n, rest) => (.varint n, rest)
  | 1 => (readFixed 8 input).map fun (n, rest) => (.fixed64 n.toUInt64, rest)
  | 2 => do
    let (length, rest) ← readVarint input
    let (content, rest) ← takeBytes length.toNat rest
    return (.bytes content, rest)
  | 3 => some (.groupStart, input)
  | 4 => some (.groupEnd, input)
  | 5 => (readFixed 4 input).map fun (n, rest) => (.fixed32 n.toUInt32, rest)
  | _ => none

namespace Record

/-- The field number and the form of the content in one number. -/
def key (r : Record) : Nat := r.number * 8 + r.content.form

def write (r : Record) : List UInt8 := writeVarint r.key.toUInt64 ++ r.content.write

/-- The record at the start of the input and what follows it. Keys have at most 32 bits, and no
field has the number zero. -/
def read? (input : List UInt8) : Option (Record × List UInt8) := do
  let (key, rest) ← readVarint input
  let key := key.toNat
  if UInt32.size ≤ key ∨ key / 8 = 0 then none
  else
    let (content, rest) ← Content.read? (key % 8) rest
    return (⟨key / 8, content⟩, rest)

end Record

abbrev Message := List Record

namespace Message

def write (m : Message) : List UInt8 := m.flatMap Record.write

def readWithin : Nat → List UInt8 → Option Message
  | _, [] => some []
  | 0, _ => none
  | records + 1, input => do
    let (r, rest) ← Record.read? input
    return r :: (← readWithin records rest)

/-- All records of an input; each takes a byte at least. -/
def read? (input : List UInt8) : Option Message := readWithin input.length input

/-- The records of declared fields. Others are dropped with the groups that they open, where every
group has to be closed in turn, and an undeclared record needs `levels` to exceed the number of
groups around it. -/
def declared (isDeclared : Nat → Bool) (levels : Nat) : List Nat → Message → Option Message
  | [], [] => some []
  | _ :: _, [] => none
  | [], r :: rest =>
    if isDeclared r.number then (declared isDeclared levels [] rest).map (r :: ·)
    else if levels = 0 then none
    else
      match r.content with
      | .groupStart => declared isDeclared levels [r.number] rest
      | .groupEnd => none
      | _ => declared isDeclared levels [] rest
  | group :: outer, r :: rest =>
    if r.content = .groupEnd then
      if r.number = group then declared isDeclared levels outer rest else none
    else if levels ≤ outer.length + 1 then none
    else if r.content = .groupStart then
      declared isDeclared levels (r.number :: group :: outer) rest
    else declared isDeclared levels (group :: outer) rest

end Message

end OperatorGraph.Wire
