import Mathlib.Algebra.Order.Field.Power
import Mathlib.Algebra.Order.Field.Rat
import Mathlib.Order.WithBotTop
import Mathlib.Tactic.FieldSimp
import Mathlib.Tactic.Ring
import M68kFloat.Binary.Double

/-!
# The numbers that doubles stand for

A pattern has a sign, an exponent field and a fraction field, and these give its value: an
infinity or a NaN where the exponent field is full, and otherwise the rational number of
`Layout.valueOf`.  `Double.value?` takes it from the bits and knows nothing of the
arithmetic, which counts in least subnormals.

The two agree: `Layout.valueOf_eq_units` says that a magnitude word counted in least
subnormals is its value, and `Double.rational_lt_iff` that doubles are ordered as their
counts are.
-/

namespace M68kFloat

namespace Layout

/-- What the exponent field of one has. -/
def bias (layout : Layout) : ℤ := 2 ^ (layout.exponent - 1) - 1

/-- The number of an exponent field and a fraction field.  A zero exponent is that of the
least normal number, without the leading one. -/
def valueOf (layout : Layout) (exponent fraction : ℕ) : ℚ :=
  if exponent = 0 then fraction / 2 ^ layout.fraction * 2 ^ (1 - layout.bias)
  else (1 + fraction / 2 ^ layout.fraction) * 2 ^ (exponent - layout.bias)

/-- The least subnormal. -/
def least (layout : Layout) : ℚ := 2 ^ (1 - layout.bias - layout.fraction)

theorem least_pos (layout : Layout) : 0 < layout.least := zpow_pos (by decide) _

theorem lead_eq (layout : Layout) : layout.lead = 2 ^ layout.fraction := Nat.one_shiftLeft _

theorem units_of_lt {layout : Layout} {word : ℕ} (h : word < layout.lead) :
    layout.units word = word := if_pos h

theorem units_of_le {layout : Layout} {word : ℕ} (h : layout.lead ≤ word) :
    layout.units word =
      (layout.lead + word % layout.lead) * 2 ^ (word / layout.lead - 1) := by
  rw [units, if_neg (by omega), Nat.shiftLeft_eq]

/-- **A magnitude word is its count of least subnormals.** -/
theorem valueOf_eq_units (layout : Layout) (word : ℕ) :
    layout.valueOf (word / layout.lead) (word % layout.lead) =
      layout.units word * layout.least := by
  have hTwo : (2 : ℚ) ≠ 0 := by decide
  have hLeast : layout.least = 2 ^ (1 - layout.bias) / 2 ^ layout.fraction := by
    rw [least, zpow_sub₀ hTwo (1 - layout.bias), zpow_natCast]
  by_cases h : word < layout.lead
  · rw [valueOf, Nat.div_eq_of_lt h, if_pos rfl, Nat.mod_eq_of_lt h, units_of_lt h, hLeast]
    ring
  · have hPos : 0 < layout.lead := by rw [lead_eq]; exact Nat.two_pow_pos _
    have hExponent : 1 ≤ word / layout.lead := (Nat.one_le_div_iff hPos).mpr (by omega)
    obtain ⟨e, he⟩ : ∃ e, word / layout.lead = e + 1 := ⟨_, (Nat.sub_add_cancel hExponent).symm⟩
    rw [valueOf, if_neg (by omega), units_of_le (by omega), hLeast, he, lead_eq]
    have hPower : (2 : ℚ) ^ (((e + 1 : ℕ) : ℤ) - layout.bias) =
        2 ^ e * 2 ^ (1 - layout.bias) := by
      rw [← zpow_natCast, ← zpow_add₀ hTwo]
      congr 1
      push_cast
      ring
    rw [hPower, Nat.add_sub_cancel]
    push_cast
    field_simp

end Layout

namespace Double

/-! ### The fields of a pattern -/

/-- The exponent field. -/
def exponentField (d : Double) : ℕ := (d.bits.extractLsb' 52 11).toNat

/-- The fraction field. -/
def fractionField (d : Double) : ℕ := (d.bits.extractLsb' 0 52).toNat

/-- The number of a finite double. -/
def rational (d : Double) : ℚ :=
  (if d.sign then -1 else 1) * Layout.double.valueOf d.exponentField d.fractionField

/-- The end of the line that an infinity stands for. -/
def endOfLine (sign : Bool) : WithBotTop ℚ := if sign then ⊥ else ⊤

/-- The value of a double: none for a NaN, and otherwise a number or an infinity. -/
def value? (d : Double) : Option (WithBotTop ℚ) :=
  if d.exponentField = 2047 then
    if d.fractionField = 0 then some (endOfLine d.sign) else none
  else some (d.rational : WithBotTop ℚ)

theorem endOfLine_injective : Function.Injective endOfLine := by
  intro a b h
  cases a <;> cases b <;> simp [endOfLine] at h ⊢

theorem endOfLine_ne_coe (sign : Bool) (q : ℚ) : endOfLine sign ≠ (q : WithBotTop ℚ) := by
  cases sign with
  | false => exact (WithBotTop.coe_ne_top q).symm
  | true => exact (WithBotTop.coe_ne_bot q).symm

theorem lead_double : Layout.double.lead = 2 ^ 52 := by decide

theorem infinity_double : Layout.double.infinity = 2047 * 2 ^ 52 := by decide

theorem exponentField_eq (d : Double) : d.exponentField = d.magnitude / Layout.double.lead := by
  simp only [exponentField, magnitude, BitVec.extractLsb'_toNat, BitVec.toNat_setWidth,
    Nat.shiftRight_eq_div_pow, lead_double]
  omega

theorem fractionField_eq (d : Double) : d.fractionField = d.magnitude % Layout.double.lead := by
  simp only [fractionField, magnitude, BitVec.extractLsb'_toNat, BitVec.toNat_setWidth,
    Nat.shiftRight_eq_div_pow, lead_double]
  omega

theorem magnitude_lt (d : Double) : d.magnitude < 2 ^ 63 := (d.bits.setWidth 63).isLt

/-- What the pattern is, by its magnitude word. -/
theorem exponentField_eq_full_iff (d : Double) :
    d.exponentField = 2047 ↔ Layout.double.infinity ≤ d.magnitude := by
  have hLess := magnitude_lt d
  rw [exponentField_eq, infinity_double, lead_double]
  omega

theorem fractionField_eq_zero_iff {d : Double} (h : d.exponentField = 2047) :
    d.fractionField = 0 ↔ d.magnitude = Layout.double.infinity := by
  have hLess := magnitude_lt d
  rw [exponentField_eq, lead_double] at h
  rw [fractionField_eq, infinity_double, lead_double]
  omega

theorem value?_of_isNaN {d : Double} (h : d.isNaN = true) : d.value? = none := by
  have hGreater : Layout.double.infinity < d.magnitude := of_decide_eq_true h
  have hFull := (exponentField_eq_full_iff d).mpr (by omega)
  rw [value?, if_pos hFull, if_neg]
  rw [fractionField_eq_zero_iff hFull]
  omega

theorem value?_of_isInfinite {d : Double} (h : d.isInfinite = true) :
    d.value? = some (endOfLine d.sign) := by
  have hEqual : d.magnitude = Layout.double.infinity := of_decide_eq_true h
  have hFull := (exponentField_eq_full_iff d).mpr (by omega)
  rw [value?, if_pos hFull, if_pos ((fractionField_eq_zero_iff hFull).mpr hEqual)]

theorem value?_of_finite {d : Double} (hNaN : d.isNaN = false) (hInfinite : d.isInfinite = false) :
    d.value? = some (d.rational : WithBotTop ℚ) := by
  have hNotGreater : ¬ Layout.double.infinity < d.magnitude := of_decide_eq_false hNaN
  have hNotEqual : ¬ d.magnitude = Layout.double.infinity := of_decide_eq_false hInfinite
  rw [value?, if_neg]
  rw [exponentField_eq_full_iff]
  omega

example : value? ⟨0xC008000000000000⟩ = some ((-3 : ℚ) : WithBotTop ℚ) := by decide +kernel

theorem exists_value? {d : Double} (hNaN : d.isNaN = false) : ∃ x, d.value? = some x := by
  cases hInfinite : d.isInfinite with
  | false => exact ⟨_, value?_of_finite hNaN hInfinite⟩
  | true => exact ⟨_, value?_of_isInfinite hInfinite⟩

/-! ### Least subnormals -/

theorem rational_eq (d : Double) : d.rational = d.units * Layout.double.least := by
  rw [rational, exponentField_eq, fractionField_eq, Layout.valueOf_eq_units, units, absUnits]
  by_cases h : d.sign = true
  · rw [if_pos h, if_pos h]
    push_cast
    ring
  · rw [if_neg h, if_neg h]
    push_cast
    ring

theorem rational_lt_iff (a b : Double) : a.rational < b.rational ↔ a.units < b.units := by
  rw [rational_eq, rational_eq, mul_lt_mul_iff_left₀ Layout.double.least_pos, Int.cast_lt]

theorem rational_eq_iff (a b : Double) : a.rational = b.rational ↔ a.units = b.units := by
  rw [rational_eq, rational_eq, mul_left_inj' Layout.double.least_pos.ne', Int.cast_inj]

end Double

end M68kFloat
