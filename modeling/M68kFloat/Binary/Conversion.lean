import M68kFloat.Binary.Double

/-!
# Conversions between doubles, integers and singles

Integers and singles become doubles exactly.  A double becomes an integer by
truncation toward zero and clamping, and a single by rounding to nearest, ties to
even.  A NaN becomes the integer `0`, and between the two floating-point layouts
it keeps its sign and the upper part of its payload and is made quiet.
-/

namespace M68kFloat

/-- A single-precision pattern. -/
structure Single where
  bits : Long
  deriving DecidableEq

namespace Single

def sign (s : Single) : Bool := s.bits.msb

/-- The magnitude word: all bits below the sign. -/
def magnitude (s : Single) : Nat := (s.bits.setWidth 31).toNat

def ofParts (sign : Bool) (magnitude : Nat) : Single :=
  ⟨BitVec.cons sign (BitVec.ofNat 31 magnitude)⟩

def isNaN (s : Single) : Bool := Layout.single.infinity < s.magnitude

/-- The magnitude, counted in least subnormals of the single layout. -/
def absUnits (s : Single) : Nat := Layout.single.units s.magnitude

end Single

/-- The least subnormal single, counted in least subnormal doubles. -/
def Single.unit : Nat := 1 <<< 925

namespace Double

/-- The double that stands for an integer. -/
def ofInt (n : Int) : Double := round (n < 0) (n.natAbs * one) 1

/-- The value without its fraction.  What it gives for an infinity lies beyond
every integer operand. -/
def truncate (d : Double) : Int :=
  let whole : Nat := d.absUnits / one
  if d.sign then -(whole : Int) else whole

/-- The value truncated toward zero and clamped to the signed integers of a width;
`0` for a NaN. -/
def toSigned (width : Nat) (d : Double) : BitVec width :=
  if d.isNaN then BitVec.ofNat width 0
  else
    let limit : Int := (1 <<< (width - 1) : Nat)
    BitVec.ofInt width (max (-limit) (min (limit - 1) d.truncate))

/-- The single that a double rounds to. -/
def toSingle (d : Double) : Single :=
  if d.isNaN then
    ⟨BitVec.ofBool d.sign ++ 0xFF#8 ++ (d.bits.extractLsb' 29 23 ||| 0x400000#23)⟩
  else if d.isInfinite then .ofParts d.sign Layout.single.infinity
  else .ofParts d.sign (Layout.single.round d.absUnits Single.unit)

def ofSingle (s : Single) : Double :=
  if s.isNaN then
    ⟨BitVec.ofBool s.sign ++ 0x7FF#11 ++ (s.bits.setWidth 23 ||| 0x400000#23) ++ 0#29⟩
  else if s.magnitude = Layout.single.infinity then infinity s.sign
  else round s.sign (s.absUnits * Single.unit) 1

end Double

end M68kFloat
