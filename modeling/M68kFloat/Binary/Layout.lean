/-!
# Binary layouts and rounding

A binary floating-point pattern is a sign bit and a *magnitude word*, the
exponent field followed by the fraction field, read as one natural number.  A
`Layout` gives the widths of the two fields.

Magnitude words are ordered as the magnitudes they stand for.  All magnitudes of
a layout are multiples of its least subnormal, so `Layout.units` gives the
magnitude of a word as a natural number of these units, and the arithmetic above
it is exact arithmetic on natural numbers followed by one call of `Layout.round`,
which gives back the word nearest to a quotient, ties to even.

The word of an infinity is the one after the largest finite word.  Its `units`
are what the next finite magnitude would be if the exponent had one more step,
which is the value that overflow is measured against.
-/

namespace M68kFloat

/-- The quotient of two natural numbers rounded to the nearest one, a tie to the even one. -/
def nearestEven (numerator denominator : Nat) : Nat :=
  let quotient := numerator / denominator
  let rest := numerator % denominator
  if 2 * rest < denominator ∨ 2 * rest = denominator ∧ quotient % 2 = 0 then quotient
  else quotient + 1

/-- The widths of the two fields of a magnitude word. -/
structure Layout where
  fraction : Nat
  exponent : Nat

namespace Layout

def single : Layout := ⟨23, 8⟩

def double : Layout := ⟨52, 11⟩

/-- The leading one that a fraction does not show, in its place above the fraction
field. -/
def lead (layout : Layout) : Nat := 1 <<< layout.fraction

/-- The magnitude word of an infinity; the words above it are NaNs. -/
def infinity (layout : Layout) : Nat := ((1 <<< layout.exponent) - 1) * layout.lead

/-- The magnitude of a word, counted in least subnormals.  A word without an exponent
is its own magnitude; otherwise the fraction has a leading one and every step of the
exponent after the first doubles the unit. -/
def units (layout : Layout) (word : Nat) : Nat :=
  if word < layout.lead then word
  else (layout.lead + word % layout.lead) <<< (word / layout.lead - 1)

/-- The word whose magnitude is nearest to a quotient of least subnormals, a tie
to the even word, and the infinity where the nearest word would lie beyond it.

The quotient is divided by the least power of two that makes it fit the fraction
with its leading one, and is rounded there.  A carry out of the fraction runs into
the exponent field, where it is the next power of two. -/
def round (layout : Layout) (numerator denominator : Nat) : Nat :=
  let shift := (numerator / denominator).log2 - layout.fraction
  min (shift * layout.lead + nearestEven numerator (denominator <<< shift)) layout.infinity

end Layout

end M68kFloat
