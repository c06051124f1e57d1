import M68kFloat.Word
import M68kFloat.Binary.Layout

/-!
# Doubles

A `Double` is the 64-bit pattern held by a floating-point register.  It is a
pattern and not a number: zeros have signs and NaNs have payloads, and both can
be seen from outside.  `Double.sign` and `Double.magnitude` take it apart,
`Double.ofParts` puts it together, and `Double.units` is the number it stands
for, counted in least subnormals.
-/

namespace M68kFloat

structure Double where
  bits : Quad
  deriving DecidableEq

namespace Double

/-- Whether the sign bit is set. -/
def sign (d : Double) : Bool := d.bits.msb

/-- The magnitude word: all bits below the sign. -/
def magnitude (d : Double) : Nat := (d.bits.setWidth 63).toNat

/-- The double with the given sign and magnitude word. -/
def ofParts (sign : Bool) (magnitude : Nat) : Double :=
  ⟨BitVec.cons sign (BitVec.ofNat 63 magnitude)⟩

@[simp] theorem sign_ofParts (sign : Bool) (magnitude : Nat) :
    (ofParts sign magnitude).sign = sign := by
  simp [Double.sign, ofParts]

theorem magnitude_ofParts (sign : Bool) {magnitude : Nat} (h : magnitude < 0x8000000000000000) :
    (ofParts sign magnitude).magnitude = magnitude := by
  have : BitVec.setWidth 63 (BitVec.cons sign (BitVec.ofNat 63 magnitude)) =
      BitVec.ofNat 63 magnitude := BitVec.setWidth_cons
  simp only [Double.magnitude, ofParts, this, BitVec.toNat_ofNat]
  omega

/-- A double is its sign and its magnitude word. -/
@[simp] theorem ofParts_sign_magnitude (d : Double) : ofParts d.sign d.magnitude = d := by
  obtain ⟨bits⟩ := d
  simp only [ofParts, Double.sign, Double.magnitude, BitVec.ofNat_toNat, BitVec.setWidth_eq]
  congr 1
  exact BitVec.cons_msb_setWidth bits

def zero : Double := ⟨0⟩

def infinity (sign : Bool) : Double := ofParts sign Layout.double.infinity

/-- The NaN that an invalid operation gives: negative, quiet, without payload. -/
def invalid : Double := ⟨0xFFF8000000000000⟩

def isZero (d : Double) : Bool := d.magnitude = 0

def isInfinite (d : Double) : Bool := d.magnitude = Layout.double.infinity

def isNaN (d : Double) : Bool := Layout.double.infinity < d.magnitude

/-- One, counted in least subnormals. -/
def one : Nat := 1 <<< 1074

/-- The magnitude, counted in least subnormals. -/
def absUnits (d : Double) : Nat := Layout.double.units d.magnitude

/-- The value, counted in least subnormals; both zeros are `0`. -/
def units (d : Double) : Int := if d.sign then -(d.absUnits : Int) else d.absUnits

/-- The double of a sign nearest to a quotient of least subnormals. -/
def round (sign : Bool) (numerator denominator : Nat) : Double :=
  ofParts sign (Layout.double.round numerator denominator)

/-- A NaN with its quiet bit set, sign and payload kept. -/
def quiet (d : Double) : Double := ⟨d.bits ||| 0x0008000000000000⟩

/-- The sign reversed, all other bits kept, whatever the pattern stands for. -/
def neg (d : Double) : Double := ⟨d.bits ^^^ 0x8000000000000000⟩

/-- The sign cleared, all other bits kept, whatever the pattern stands for. -/
def abs (d : Double) : Double := ⟨d.bits &&& 0x7FFFFFFFFFFFFFFF⟩

end Double

end M68kFloat
