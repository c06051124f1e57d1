import M68kFloat.Binary.Double

/-!
# The shortest decimal of a double

A decimal reads back as a double when it lies between the midpoints to the two
neighbouring magnitudes, the midpoints themselves included where the magnitude
word is even, since a tie goes to the even word.  `Double.shortest` tries the
decimal grids from one digit upward and takes the first one with a point in this
interval.  If a grid has a point there, then one of the two points next to the
value is in it, so only these two are tried.

All comparisons are between natural numbers: quotients are compared after both
sides have been multiplied by their denominators and by the power of ten of the
grid.
-/

namespace M68kFloat

/-- The number `coefficient * 10 ^ exponent`. -/
structure Decimal where
  /-- The digits, read as one number. -/
  coefficient : Nat
  /-- The place of the last digit. -/
  exponent : Int

/-- The magnitudes that round to one magnitude word, as quotients over `unit`. -/
structure RoundingInterval where
  /-- The magnitude of the word. -/
  value : Nat
  /-- The midpoint to the word before it. -/
  lower : Nat
  /-- The midpoint to the word after it. -/
  upper : Nat
  /-- The common denominator. -/
  unit : Nat
  /-- Whether the midpoints round to the word too. -/
  closed : Bool

namespace RoundingInterval

/-- The interval of a magnitude word that is not zero.  In halves of a least
subnormal a midpoint is the sum of the two magnitudes. -/
def ofWord (word : Nat) : RoundingInterval where
  value := 2 * Layout.double.units word
  lower := Layout.double.units word + Layout.double.units (word - 1)
  upper := Layout.double.units word + Layout.double.units (word + 1)
  unit := 2 * Double.one
  closed := word % 2 = 0

/-- The place of the leading decimal digit of the value: the number `e` with
`10 ^ e ≤ value < 10 ^ (e + 1)`. -/
def leadingPlace (interval : RoundingInterval) : Int :=
  if interval.unit ≤ interval.value then
    ((toString (interval.value / interval.unit)).length : Int) - 1
  else
    -((toString ((interval.unit - 1) / interval.value)).length : Int)

/-- The multiple of `10 ^ place` in the interval that is nearest to the value, if
there is one.  Of two that are equally near it is the larger. -/
def onGrid? (interval : RoundingInterval) (place : Int) : Option Decimal :=
  let step := interval.unit * Nat.pow 10 place.toNat
  let scaled (quotient : Nat) := quotient * Nat.pow 10 (-place).toNat
  let inside (coefficient : Nat) : Bool :=
    if interval.closed then
      scaled interval.lower ≤ coefficient * step && coefficient * step ≤ scaled interval.upper
    else scaled interval.lower < coefficient * step && coefficient * step < scaled interval.upper
  let below := scaled interval.value / step
  let rest := scaled interval.value % step
  if inside below && (2 * rest < step || !inside (below + 1)) then some ⟨below, place⟩
  else if inside (below + 1) then some ⟨below + 1, place⟩
  else none

end RoundingInterval

/-- The same number with one digit less, if it ends in a zero. -/
def Decimal.dropZero (d : Decimal) : Decimal :=
  if d.coefficient % 10 = 0 then ⟨d.coefficient / 10, d.exponent + 1⟩ else d

/-- The decimal with the fewest digits that reads back as a finite magnitude, the
nearest of these.  Seventeen digits always suffice; the exact value is a multiple
of `10 ^ -1074` and stands for the case that does not arise.

A point that ends in a zero lies on the grid before too, so it can only be the
first power of ten beyond the one-digit grid, and one zero is all there is to drop. -/
def Double.shortest (magnitude : Nat) : Decimal :=
  if magnitude = 0 then ⟨0, 0⟩
  else
    let interval := RoundingInterval.ofWord magnitude
    let leading := interval.leadingPlace
    match (List.range 17).findSome? fun (n : Nat) => interval.onGrid? (leading - n) with
    | some d => d.dropZero
    | none => ⟨Layout.double.units magnitude * Nat.pow 5 1074, -1074⟩

end M68kFloat
