import M68kFloat.Binary.Double

/-!
# Arithmetic on doubles

The four operations and the square root, each the exact result rounded once to
nearest, ties to even.  An operand that is a NaN is the result, made quiet, the
destination's before the source's; an operation that has no value on its operands
gives `Double.invalid`.
-/

namespace M68kFloat.Double

/-- The result of a binary operation where an operand may be a NaN; `otherwise`
is the result where neither is. -/
def propagate (destination source otherwise : Double) : Double :=
  if destination.isNaN then destination.quiet
  else if source.isNaN then source.quiet
  else otherwise

/-- The sum of two doubles that are not NaNs.  Infinities of opposite signs have
none.  A sum that is exactly zero is negative only where both operands are. -/
def sum (a b : Double) : Double :=
  if a.isInfinite then
    if b.isInfinite && a.sign != b.sign then invalid else a
  else if b.isInfinite then b
  else
    let exact := a.units + b.units
    let negative := if exact = 0 then a.sign && b.sign else decide (exact < 0)
    round negative exact.natAbs 1

def add (destination source : Double) : Double :=
  propagate destination source (sum destination source)

/-- Subtraction of the source from the destination. -/
def sub (destination source : Double) : Double :=
  propagate destination source (sum destination source.neg)

/-- Multiplication.  An infinity times a zero has no value. -/
def mul (destination source : Double) : Double :=
  propagate destination source <|
    let sign := destination.sign != source.sign
    if destination.isInfinite || source.isInfinite then
      if destination.isZero || source.isZero then invalid else infinity sign
    else round sign (destination.absUnits * source.absUnits) one

/-- Division of the destination by the source.  Two infinities and two zeros have
no quotient; anything else over a zero is infinite. -/
def div (destination source : Double) : Double :=
  propagate destination source <|
    let sign := destination.sign != source.sign
    if destination.isInfinite then
      if source.isInfinite then invalid else infinity sign
    else if source.isInfinite then ofParts sign 0
    else if source.isZero then
      if destination.isZero then invalid else infinity sign
    else round sign (destination.absUnits * one) source.absUnits

/-- The square root.  A zero keeps its sign and every other negative number has
no root.

The root of `n` units is the root of `n * one` counted in units.  Its integer part
has far more bits than a fraction, so one further bit that tells whether the root
is an integer decides how it rounds. -/
def sqrt (a : Double) : Double :=
  if a.isNaN then a.quiet
  else if a.isZero then a
  else if a.sign then invalid
  else if a.isInfinite then a
  else
    let square := a.absUnits * one
    let root := square.sqrt
    let inexact := if root * root = square then 0 else 1
    round false (2 * root + inexact) 2

end M68kFloat.Double
