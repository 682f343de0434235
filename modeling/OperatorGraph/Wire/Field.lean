import OperatorGraph.Text.Utf8
import OperatorGraph.Wire.Record

/-!
Fields of a message. A field that holds one value is written unless it has its default, and the
last record read for it counts; a field that holds many takes a record for each or, if they are
numbers, one record for all of them, and reads either.
-/

namespace OperatorGraph.Wire

namespace Field

def bytes (number : Nat) (content : List UInt8) : Message :=
  if content = [] then [] else [⟨number, .bytes content⟩]

def text (number : Nat) (s : String) : Message := bytes number (Text.utf8 s)

def int64 (number : Nat) (n : Int64) : Message :=
  if n = 0 then [] else [⟨number, .varint n.toUInt64⟩]

def int32 (number : Nat) (n : Int32) : Message := int64 number n.toInt64

def float (number : Nat) (bits : UInt32) (isZero : Bool) : Message :=
  if isZero then [] else [⟨number, .fixed32 bits⟩]

def eachBytes (number : Nat) (contents : List (List UInt8)) : Message :=
  contents.map fun content => ⟨number, .bytes content⟩

def texts (number : Nat) (ss : List String) : Message := eachBytes number (ss.map Text.utf8)

def int64s (number : Nat) (ns : List Int64) : Message :=
  bytes number (ns.flatMap fun n => writeVarint n.toUInt64)

def floats (number : Nat) (bits : List UInt32) : Message :=
  bytes number (bits.flatMap fun b => writeFixed 4 b.toNat)

end Field

namespace Content

def bytes? : Content → Option (List UInt8)
  | .bytes content => some content
  | _ => none

def text? (c : Content) : Option String := c.bytes?.bind Text.ofUtf8?

def varint? : Content → Option UInt64
  | .varint n => some n
  | _ => none

def fixed32? : Content → Option UInt32
  | .fixed32 n => some n
  | _ => none

/-- Numbers packed one after the other; each takes a byte at least. -/
def unpackWithin {α : Type} (read : List UInt8 → Option (α × List UInt8)) :
    Nat → List UInt8 → Option (List α)
  | _, [] => some []
  | 0, _ => none
  | count + 1, input => do
    let (n, rest) ← read input
    return n :: (← unpackWithin read count rest)

def varints? : Content → Option (List UInt64)
  | .bytes content => unpackWithin readVarint content.length content
  | c => c.varint?.map ([·])

def readFixed32 (input : List UInt8) : Option (UInt32 × List UInt8) :=
  (readFixed 4 input).map fun (n, rest) => (n.toUInt32, rest)

def fixed32s? : Content → Option (List UInt32)
  | .bytes content => unpackWithin readFixed32 content.length content
  | c => c.fixed32?.map ([·])

end Content

namespace Message

/-- The contents of the records of one field. -/
def contents (m : Message) (number : Nat) : List Content :=
  (m.filter fun r => r.number = number).map (·.content)

def eachBytes? (m : Message) (number : Nat) : Option (List (List UInt8)) :=
  (m.contents number).mapM Content.bytes?

def bytes? (m : Message) (number : Nat) : Option (List UInt8) :=
  (m.eachBytes? number).map fun contents => contents.getLast?.getD []

def texts? (m : Message) (number : Nat) : Option (List String) :=
  (m.contents number).mapM Content.text?

def text? (m : Message) (number : Nat) : Option String :=
  (m.texts? number).map fun ss => ss.getLast?.getD ""

def varint? (m : Message) (number : Nat) : Option UInt64 :=
  ((m.contents number).mapM Content.varint?).map fun ns => ns.getLast?.getD 0

def int64? (m : Message) (number : Nat) : Option Int64 :=
  (m.varint? number).map UInt64.toInt64

/-- The low half of the number counts. -/
def int32? (m : Message) (number : Nat) : Option Int32 :=
  (m.varint? number).map fun n => n.toUInt32.toInt32

def fixed32? (m : Message) (number : Nat) : Option UInt32 :=
  ((m.contents number).mapM Content.fixed32?).map fun ns => ns.getLast?.getD 0

def int64s? (m : Message) (number : Nat) : Option (List Int64) :=
  ((m.contents number).mapM Content.varints?).map fun ns => ns.flatten.map UInt64.toInt64

def fixed32s? (m : Message) (number : Nat) : Option (List UInt32) :=
  ((m.contents number).mapM Content.fixed32s?).map List.flatten

end Message

end OperatorGraph.Wire
