import OperatorGraph.Wire.Varint

/-!
How many bytes fields take, found from their values before anything is written.
-/

namespace OperatorGraph.Wire.Size

/-- The form of a content has no influence on the size of its key. -/
def key (number : Nat) : Nat := varintSize (number * 8).toUInt64

/-- A content of `length` bytes behind its key and its length. -/
def delimited (number length : Nat) : Nat :=
  key number + (varintSize length.toUInt64 + length)

def bytes (number : Nat) (content : List UInt8) : Nat :=
  if content = [] then 0 else delimited number content.length

def text (number : Nat) (s : String) : Nat :=
  if s = "" then 0 else delimited number s.utf8ByteSize

def int64 (number : Nat) (n : Int64) : Nat :=
  if n = 0 then 0 else key number + varintSize n.toUInt64

def int32 (number : Nat) (n : Int32) : Nat := int64 number n.toInt64

def float (number : Nat) (isZero : Bool) : Nat := if isZero then 0 else key number + 4

/-- A record for each of several contents, of which the lengths are given. -/
def each (number : Nat) : List Nat → Nat
  | [] => 0
  | length :: rest => delimited number length + each number rest

def texts (number : Nat) (ss : List String) : Nat := each number (ss.map String.utf8ByteSize)

/-- One record for all of several numbers, of which the sizes are given. -/
def packed (number : Nat) (sizes : List Nat) : Nat :=
  if sizes = [] then 0 else delimited number (sizes.foldr (· + ·) 0)

def int64s (number : Nat) (ns : List Int64) : Nat :=
  packed number (ns.map fun n => varintSize n.toUInt64)

def floats (number count : Nat) : Nat := packed number (List.replicate count 4)

end OperatorGraph.Wire.Size
