import OperatorGraph.Binary.Format

/-!
Numbers of a binary format: a sign and a magnitude. Two numbers are equal as terms when their
patterns are; `agrees` is the comparison of arithmetic, where zeros of both signs agree and a NaN
agrees with nothing.
-/

namespace OperatorGraph.Binary

structure Number (f : Format) where
  negative : Bool
  magnitude : Nat
  bounded : magnitude < f.magnitudes
deriving DecidableEq

namespace Number

variable {f : Format}

def ofMagnitude (negative : Bool) (magnitude : Nat) : Number f :=
  ⟨negative, magnitude % f.magnitudes, Nat.mod_lt _ f.magnitudes_pos⟩

def ofBits (bits : Nat) : Number f :=
  ofMagnitude (bits / f.magnitudes % 2 = 1) bits

def bits (x : Number f) : Nat :=
  (if x.negative then f.magnitudes else 0) + x.magnitude

def zero : Number f := ofMagnitude false 0

def infinity (negative : Bool) : Number f := ofMagnitude negative f.infinity

/-- The quiet NaN without further payload. -/
def nan (negative : Bool) : Number f :=
  ofMagnitude negative (f.infinity + Nat.pow 2 (f.fractionBits - 1))

def isNaN (x : Number f) : Bool := f.infinity < x.magnitude

def isInfinite (x : Number f) : Bool := x.magnitude = f.infinity

def isFinite (x : Number f) : Bool := x.magnitude < f.infinity

def isZero (x : Number f) : Bool := x.magnitude = 0

def agrees (x y : Number f) : Bool :=
  !x.isNaN && !y.isNaN && (x = y || x.isZero && y.isZero)

def ofInt (n : Int) : Number f := ofMagnitude (n < 0) (f.round n.natAbs 1)

/-- A NaN keeps its sign and the leading bits of its payload and turns quiet; any other number
goes to the nearest one. -/
def convert (g : Format) (x : Number f) : Number g :=
  if x.isNaN then
    let payload := x.magnitude - f.infinity
    let aligned := payload * g.fractions / f.fractions
    ofMagnitude x.negative (g.infinity + (aligned ||| Nat.pow 2 (g.fractionBits - 1)))
  else if x.isInfinite then infinity x.negative
  else
    let (num, den) := f.ratio x.magnitude
    ofMagnitude x.negative (g.round num den)

end Number

end OperatorGraph.Binary

namespace OperatorGraph

abbrev Binary32 := Binary.Number Binary.single

abbrev Binary64 := Binary.Number Binary.double

def Binary32.widen (x : Binary32) : Binary64 := x.convert Binary.double

def Binary64.narrow (x : Binary64) : Binary32 := x.convert Binary.single

end OperatorGraph
