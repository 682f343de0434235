/-!
Variable-length numbers: seven bits to a byte, the lowest first, and every byte but the last with
its high bit set. A number has at most 64 bits, so at most ten bytes, and the tenth is 0 or 1.
-/

namespace OperatorGraph.Wire

def varintBytes : Nat := 10

def writeVarintWithin : Nat → Nat → List UInt8
  | 0, _ => []
  | bytes + 1, n =>
    if n < 128 then [n.toUInt8]
    else (n % 128 + 128).toUInt8 :: writeVarintWithin bytes (n / 128)

def writeVarint (n : UInt64) : List UInt8 := writeVarintWithin varintBytes n.toNat

/-- The number of bytes that `writeVarint` takes. -/
def varintSize (n : UInt64) : Nat := n.toNat.log2 / 7 + 1

/-- The number at the start of the input and what follows it; `bytes` are left for it. -/
def readVarintWithin : Nat → List UInt8 → Option (Nat × List UInt8)
  | 0, _ => none
  | _, [] => none
  | bytes + 1, b :: rest =>
    if bytes = 0 ∧ 2 ≤ b.toNat then none
    else if b.toNat < 128 then some (b.toNat, rest)
    else (readVarintWithin bytes rest).map fun (n, rest) => (b.toNat - 128 + 128 * n, rest)

def readVarint (input : List UInt8) : Option (UInt64 × List UInt8) :=
  (readVarintWithin varintBytes input).map fun (n, rest) => (n.toUInt64, rest)

end OperatorGraph.Wire
