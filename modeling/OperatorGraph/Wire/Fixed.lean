/-!
Numbers of fixed width, lowest byte first.
-/

namespace OperatorGraph.Wire

def writeFixed : Nat → Nat → List UInt8
  | 0, _ => []
  | width + 1, n => (n % 256).toUInt8 :: writeFixed width (n / 256)

/-- The number in the first `width` bytes and what follows them. -/
def readFixed : Nat → List UInt8 → Option (Nat × List UInt8)
  | 0, input => some (0, input)
  | _ + 1, [] => none
  | width + 1, b :: rest =>
    (readFixed width rest).map fun (n, rest) => (b.toNat + 256 * n, rest)

end OperatorGraph.Wire
