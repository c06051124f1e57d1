import M68kFloat.Operand.Format
import M68kFloat.Proofs.Binary.Single
import M68kFloat.Proofs.Binary.Testing

/-!
# Doubles as singles

A double that is stored as a single is rounded once, to the nearest single and from a tie to the
even one (`nearest_toSingle`).  The numbers from the middle between the largest single and the next
power of two on become infinities, and the smallest ones subnormals or zeros, always with the sign
of the double.

A larger double never becomes a smaller single.  `single_stores_round` has all of this, and the bits
of a NaN.
-/

namespace M68kFloat

/-- A single is nearest to a number: no other is nearer, and where another one is as near, the
significand is even. -/
structure Single.Nearest (s : Single) (x : ℚ) : Prop where
  value : s.value? = some (s.rational : WithBotTop ℚ)
  closest : ∀ (t : Single) (y : ℚ), t.value? = some (y : WithBotTop ℚ) → |x - s.rational| ≤ |x - y|
  even : ∀ (t : Single) (y : ℚ), t.value? = some (y : WithBotTop ℚ) → y ≠ s.rational →
    |x - y| = |x - s.rational| → s.fractionField % 2 = 0

theorem Layout.least_single : single.least = Single.unit * double.least := by decide +kernel

/-- Two numbers with one sign are as far apart as their magnitudes. -/
theorem abs_sub_of_sign (sign : Bool) (a b : ℚ) :
    |(if sign then -1 else 1) * a - (if sign then -1 else 1) * b| = |a - b| := by
  rw [← mul_sub, abs_mul]
  cases sign <;> simp

/-- A number is not as near to two opposite ones unless these are zero or it is. -/
theorem eq_of_tie {x a b : ℚ} (hAbs : |b| = |a|) (hTie : |x - b| = |x - a|) (hNear : |x - a| ≤ |x|) :
    b = a := by
  rcases abs_eq_abs.mp hAbs with hSame | rfl
  · exact hSame
  · rcases abs_eq_abs.mp hTie with hEqual | hOpposite
    · linarith
    · have hZero : x = 0 := by linarith
      rw [hZero, zero_sub, abs_neg, abs_zero, abs_nonpos_iff] at hNear
      rw [hNear, neg_zero]

namespace Double

variable {d d' : Double}

theorem unit_pos : 0 < Single.unit := by decide

/-! ### The word of the single -/

/-- The magnitude of a double, counted in least subnormal singles. -/
def singleUnits (d : Double) : ℚ := (d.absUnits : ℚ) / Single.unit

/-- The magnitude word of the single that a double becomes. -/
def singleWord (d : Double) : ℕ := Layout.single.round d.absUnits Single.unit

theorem singleWord_le (d : Double) : d.singleWord ≤ Layout.single.infinity :=
  Layout.single.round_le_infinity _ _

theorem singleWord_of_isInfinite (h : d.isInfinite = true) :
    d.singleWord = Layout.single.infinity := by
  have hMagnitude : d.magnitude = Layout.double.infinity := of_decide_eq_true h
  rw [singleWord, absUnits, hMagnitude]
  decide +kernel

/-- An infinity is rounded like any other magnitude. -/
theorem toSingle_eq (h : d.isNaN = false) : d.toSingle = .ofParts d.sign d.singleWord := by
  rw [toSingle, h, if_neg Bool.false_ne_true]
  cases hInfinite : d.isInfinite with
  | false => rfl
  | true =>
    rw [singleWord_of_isInfinite hInfinite]
    rfl

theorem value?_toSingle (h : d.isNaN = false) :
    d.toSingle.value? = some (Single.valueAt d.sign d.singleWord) := by
  rw [toSingle_eq h]
  exact Single.value?_ofParts d.sign (singleWord_le d)

theorem magnitude_toSingle (h : d.isNaN = false) : d.toSingle.magnitude = d.singleWord := by
  rw [toSingle_eq h]
  exact Single.magnitude_ofParts d.sign (singleWord_le d)

theorem sign_toSingle (d : Double) : d.toSingle.sign = d.sign := by
  cases h : d.isNaN with
  | false => rw [toSingle_eq h, Single.sign_ofParts]
  | true =>
    rw [toSingle, if_pos h]
    show BitVec.msb (n := 1 + 8 + 23) _ = _
    rw [BitVec.msb_append, if_neg (by decide), BitVec.msb_append, if_neg (by decide),
      BitVec.msb_ofBool]

/-! ### To the nearest -/

theorem nearest_unboundedWord (d : Double) :
    Layout.single.Nearest d.singleUnits (Layout.single.unbounded d.absUnits Single.unit) :=
  Layout.nearest_unbounded (by decide) d.absUnits unit_pos

theorem rational_eq_singleUnits (d : Double) :
    d.rational = (if d.sign then -1 else 1) * (d.singleUnits * Layout.single.least) := by
  have hUnit : (Single.unit : ℚ) ≠ 0 := Nat.cast_ne_zero.mpr unit_pos.ne'
  have hScaled : d.singleUnits * Layout.single.least = d.absUnits * Layout.double.least := by
    rw [singleUnits, Layout.least_single]
    field_simp
  rw [hScaled, rational_eq, units]
  cases d.sign <;> simp

theorem singleUnits_nonneg (d : Double) : 0 ≤ d.singleUnits :=
  div_nonneg (Nat.cast_nonneg _) (Nat.cast_nonneg _)

theorem abs_rational (d : Double) : |d.rational| = d.singleUnits * Layout.single.least := by
  have hNonneg := mul_nonneg (singleUnits_nonneg d) Layout.single.least_pos.le
  rw [rational_eq_singleUnits]
  cases d.sign <;> simp [abs_of_nonneg hNonneg]

/-- Singles overflow from the middle between the largest one and the next power of two on. -/
theorem singleWord_lt_iff (d : Double) :
    d.singleWord < Layout.single.infinity ↔ |d.rational| < 2 ^ 128 - 2 ^ 103 := by
  have hMiddle : ((Layout.single.units (Layout.single.infinity - 1) : ℚ) +
      Layout.single.units Layout.single.infinity) / 2 * Layout.single.least = 2 ^ 128 - 2 ^ 103 := by
    decide +kernel
  rw [singleWord, Layout.round_eq_min, min_lt_iff, or_iff_left (lt_irrefl _), ← not_le,
    (nearest_unboundedWord d).le_iff (by decide) (by decide), not_le, abs_rational, ← hMiddle,
    mul_lt_mul_iff_left₀ Layout.single.least_pos]

/-- A single with the sign of a double is as far from it as their magnitudes are from one another, -/
theorem abs_sub_rational (d : Double) {t : Single} (hSign : t.sign = d.sign) :
    |d.rational - t.rational| =
      |d.singleUnits - Layout.single.units t.magnitude| * Layout.single.least := by
  rw [rational_eq_singleUnits, Single.rational_eq, hSign, Single.absUnits, abs_sub_of_sign,
    ← sub_mul, abs_mul, abs_of_pos Layout.single.least_pos]

/-- and with the other sign it is no nearer. -/
theorem le_abs_sub (d : Double) (t : Single) :
    |d.singleUnits - Layout.single.units t.magnitude| * Layout.single.least ≤
      |d.rational - t.rational| := by
  have hMagnitudes := abs_abs_sub_abs_le d.rational t.rational
  rwa [abs_rational, Single.abs_rational, ← sub_mul, abs_mul, abs_of_pos Layout.single.least_pos]
    at hMagnitudes

theorem nearest_singleWord (hRange : |d.rational| < 2 ^ 128 - 2 ^ 103) :
    Layout.single.Nearest d.singleUnits d.singleWord := by
  have hFinite := (singleWord_lt_iff d).mpr hRange
  have hWord : d.singleWord = Layout.single.unbounded d.absUnits Single.unit := by
    have hMin := Layout.single.round_eq_min d.absUnits Single.unit
    rw [singleWord] at hFinite ⊢
    omega
  rw [hWord]
  exact nearest_unboundedWord d

theorem abs_sub_toSingle (h : d.isNaN = false) :
    |d.rational - d.toSingle.rational| =
      |d.singleUnits - Layout.single.units d.singleWord| * Layout.single.least := by
  rw [abs_sub_rational d (sign_toSingle d), magnitude_toSingle h]

theorem abs_sub_toSingle_le (h : d.isNaN = false) (hRange : |d.rational| < 2 ^ 128 - 2 ^ 103)
    (t : Single) : |d.rational - d.toSingle.rational| ≤ |d.rational - t.rational| := by
  calc |d.rational - d.toSingle.rational|
      = |d.singleUnits - Layout.single.units d.singleWord| * Layout.single.least :=
        abs_sub_toSingle h
    _ ≤ |d.singleUnits - Layout.single.units t.magnitude| * Layout.single.least :=
        mul_le_mul_of_nonneg_right ((nearest_singleWord hRange).closest _)
          Layout.single.least_pos.le
    _ ≤ |d.rational - t.rational| := le_abs_sub d t

/-- Singles that are equally near have different words. -/
theorem magnitude_ne_of_tie (h : d.isNaN = false) (hRange : |d.rational| < 2 ^ 128 - 2 ^ 103)
    {t : Single} (hNe : t.rational ≠ d.toSingle.rational)
    (hTie : |d.rational - t.rational| = |d.rational - d.toSingle.rational|) :
    t.magnitude ≠ d.singleWord := by
  intro hSame
  have hZero : Single.rational ⟨0⟩ = 0 := by decide +kernel
  have hNear := abs_sub_toSingle_le h hRange ⟨0⟩
  rw [hZero, sub_zero] at hNear
  refine hNe (eq_of_tie ?_ hTie hNear)
  rw [Single.abs_rational, Single.abs_rational, Single.absUnits, Single.absUnits, hSame,
    magnitude_toSingle h]

/-- **A double is stored as the nearest single.** -/
theorem nearest_toSingle (h : d.isNaN = false) (hRange : |d.rational| < 2 ^ 128 - 2 ^ 103) :
    d.toSingle.Nearest d.rational := by
  have hMagnitude := magnitude_toSingle h
  constructor
  case value =>
    have hFinite := (singleWord_lt_iff d).mpr hRange
    exact Single.value?_of_finite (by omega)
  case closest =>
    intro t y hy
    obtain ⟨-, rfl⟩ := Single.of_value?_coe hy
    exact abs_sub_toSingle_le h hRange t
  case even =>
    intro t y hy hNe hTie
    obtain ⟨-, rfl⟩ := Single.of_value?_coe hy
    have hNearest := nearest_singleWord hRange
    have hAsNear : |d.singleUnits - Layout.single.units t.magnitude| =
        |d.singleUnits - Layout.single.units d.singleWord| := by
      have hNoFurther := le_abs_sub d t
      rw [hTie, abs_sub_toSingle h] at hNoFurther
      exact (le_of_mul_le_mul_right hNoFurther Layout.single.least_pos).antisymm
        (hNearest.closest _)
    have hEven := hNearest.even t.magnitude (magnitude_ne_of_tie h hRange hNe hTie) hAsNear
    rw [Single.fractionField_eq, hMagnitude, Single.lead_single]
    omega

/-- **There is one nearest single with the sign of the double.** -/
theorem eq_toSingle_of_nearest (h : d.isNaN = false) (hRange : |d.rational| < 2 ^ 128 - 2 ^ 103)
    {t : Single} (hSign : t.sign = d.sign) (ht : t.Nearest d.rational) : t = d.toSingle := by
  have hLeast := Layout.single.least_pos
  have hNearest := nearest_singleWord hRange
  have hDistance : |d.rational - t.rational| = |d.rational - d.toSingle.rational| :=
    (ht.closest _ _ (nearest_toSingle h hRange).value).antisymm (abs_sub_toSingle_le h hRange t)
  have hAsNear : |d.singleUnits - Layout.single.units t.magnitude| =
      |d.singleUnits - Layout.single.units d.singleWord| := by
    rw [abs_sub_rational d hSign, abs_sub_toSingle h] at hDistance
    exact mul_right_cancel₀ hLeast.ne' hDistance
  have hWord : t.magnitude = d.singleWord := by
    by_contra hNe
    -- the word of such a single is even, and so it is a nearest word itself
    have hEven : t.magnitude % 2 = 0 := by
      have hOther : d.toSingle.rational ≠ t.rational := by
        intro hSame
        have hAbs : |d.toSingle.rational| = |t.rational| := by rw [hSame]
        rw [Single.abs_rational, Single.abs_rational, mul_left_inj' hLeast.ne', Nat.cast_inj,
          Single.absUnits, Single.absUnits, magnitude_toSingle h] at hAbs
        exact hNe ((Layout.units_strictMono _).injective hAbs.symm)
      have hField := ht.even _ _ (nearest_toSingle h hRange).value hOther hDistance.symm
      rw [Single.fractionField_eq, Single.lead_single] at hField
      omega
    have hNearest' : Layout.single.Nearest d.singleUnits t.magnitude :=
      ⟨fun other => hAsNear ▸ hNearest.closest other, fun _ _ _ => hEven⟩
    exact hNe ((hNearest'.mono hNearest le_rfl).antisymm (hNearest.mono hNearest' le_rfl))
  rw [toSingle_eq h, ← hWord, ← hSign, Single.ofParts_sign_magnitude]

/-! ### In order -/

theorem units_bounds (h : d.isNaN = false) :
    -(Layout.double.units Layout.double.infinity : ℤ) ≤ d.units ∧
      d.units ≤ Layout.double.units Layout.double.infinity := by
  have hWord : d.magnitude ≤ Layout.double.infinity := Nat.le_of_not_lt (of_decide_eq_false h)
  have hAbs : d.absUnits ≤ Layout.double.units Layout.double.infinity :=
    (Layout.units_strictMono _).monotone hWord
  rw [units]
  split <;> omega

theorem rational_of_value? {x : ℚ} (h : d.value? = some (x : WithBotTop ℚ)) : d.rational = x := by
  cases hInfinite : d.isInfinite with
  | true =>
    rw [value?_of_isInfinite hInfinite] at h
    exact absurd (Option.some.inj h) (endOfLine_ne_coe _ _)
  | false =>
    rw [value?_of_finite (isNaN_eq_false h) hInfinite] at h
    exact WithBotTop.coe_injective (Option.some.inj h)

theorem of_value?_endOfLine {sign : Bool} (h : d.value? = some (endOfLine sign)) :
    d.isInfinite = true ∧ d.sign = sign := by
  cases hInfinite : d.isInfinite with
  | true =>
    rw [value?_of_isInfinite hInfinite] at h
    exact ⟨rfl, endOfLine_injective (Option.some.inj h)⟩
  | false =>
    rw [value?_of_finite (isNaN_eq_false h) hInfinite] at h
    exact absurd (Option.some.inj h).symm (endOfLine_ne_coe _ _)

/-- The count of an infinity is the last one on its side. -/
theorem units_of_endOfLine {sign : Bool} (h : d.value? = some (endOfLine sign)) :
    d.units = if sign then -(Layout.double.units Layout.double.infinity : ℤ)
      else Layout.double.units Layout.double.infinity := by
  obtain ⟨hInfinite, rfl⟩ := of_value?_endOfLine h
  have hMagnitude : d.magnitude = Layout.double.infinity := of_decide_eq_true hInfinite
  rw [units, absUnits, hMagnitude]

/-- Doubles are ordered as their counts of least subnormals are, infinities among them. -/
theorem units_le (h : d.Compares (· ≤ ·) d') : d.units ≤ d'.units := by
  obtain ⟨x, x', hx, hx', hLe⟩ := h
  have hBounds := units_bounds (isNaN_eq_false hx)
  have hBounds' := units_bounds (isNaN_eq_false hx')
  cases x using WithBotTop.rec with
  | bot =>
    have hEnd : d.value? = some (endOfLine true) := hx
    have hUnits : d.units = -Layout.double.units _ := units_of_endOfLine hEnd
    omega
  | top =>
    obtain rfl := top_le_iff.mp hLe
    have hEnd' : d'.value? = some (endOfLine false) := hx'
    have hUnits' : d'.units = Layout.double.units _ := units_of_endOfLine hEnd'
    omega
  | coe q =>
    cases x' using WithBotTop.rec with
    | bot => exact absurd (le_bot_iff.mp hLe) (WithBotTop.coe_ne_bot q)
    | top =>
      have hEnd' : d'.value? = some (endOfLine false) := hx'
      have hUnits' : d'.units = Layout.double.units _ := units_of_endOfLine hEnd'
      omega
    | coe q' =>
      have hRational : d.rational ≤ d'.rational := by
        rw [rational_of_value? hx, rational_of_value? hx']
        exact WithBotTop.coe_le_coe.mp hLe
      exact not_lt.mp (mt (rational_lt_iff d' d).mpr hRational.not_gt)

/-- A larger magnitude never becomes a smaller word. -/
theorem singleWord_mono (h : d.absUnits ≤ d'.absUnits) : d.singleWord ≤ d'.singleWord := by
  have hUnits : d.singleUnits ≤ d'.singleUnits :=
    div_le_div_of_nonneg_right (Nat.cast_le.mpr h) (Nat.cast_nonneg _)
  rw [singleWord, singleWord, Layout.round_eq_min, Layout.round_eq_min]
  exact min_le_min_right _ ((nearest_unboundedWord d).mono (nearest_unboundedWord d') hUnits)

theorem singleWord_eq_zero (h : d.absUnits = 0) : d.singleWord = 0 := by
  rw [singleWord, h]
  decide +kernel

/-- A larger double never becomes a smaller single. -/
theorem valueAt_singleWord_le (h : d.units ≤ d'.units) :
    Single.valueAt d.sign d.singleWord ≤ Single.valueAt d'.sign d'.singleWord := by
  rw [units, units] at h
  cases hSign : d.sign <;> cases hSign' : d'.sign <;> rw [hSign, hSign'] at h
  case false.false =>
    exact Single.valueAt_mono (singleWord_mono (Int.ofNat_le.mp h)) (singleWord_le d')
  case false.true =>
    -- a double without the sign is at most one with it only if both are zeros
    have hLe : (d.absUnits : ℤ) ≤ -d'.absUnits := h
    rw [singleWord_eq_zero (d := d) (by omega), singleWord_eq_zero (d := d') (by omega),
      Single.valueAt_zero, Single.valueAt_zero]
  case true.false =>
    calc Single.valueAt true d.singleWord
        ≤ Single.valueAt true 0 := Single.valueAt_anti (Nat.zero_le _) (singleWord_le d)
      _ = Single.valueAt false 0 := by rw [Single.valueAt_zero, Single.valueAt_zero]
      _ ≤ Single.valueAt false d'.singleWord :=
          Single.valueAt_mono (Nat.zero_le _) (singleWord_le d')
  case true.true =>
    exact Single.valueAt_anti (singleWord_mono (Int.ofNat_le.mp (Int.neg_le_neg_iff.mp h)))
      (singleWord_le d)

/-! ### The format -/

/-- The single that a double is stored as. -/
def storedSingle (d : Double) : Single := ⟨(Format.single.store d).setWidth 32⟩

theorem storedSingle_eq (d : Double) : d.storedSingle = d.toSingle := by
  rw [storedSingle, Format.store, BitVec.setWidth_setWidth_of_le _ (by decide), BitVec.setWidth_eq]

/-- The sign of a NaN and the upper part of its payload are kept. -/
theorem bits_toSingle_of_isNaN (h : d.isNaN = true) :
    d.toSingle.bits = BitVec.ofBool d.sign ++ 0xFF#8 ++ 1#1 ++ d.bits.extractLsb' 29 22 := by
  rw [toSingle, if_pos h]
  apply BitVec.eq_of_getLsbD_eq
  intro k hk
  have hQuiet : (0x400000#23).getLsbD k = decide (k = 22) := by
    rw [show (0x400000#23) = BitVec.twoPow 23 22 by decide, BitVec.getLsbD_twoPow]
    by_cases h22 : k = 22 <;> simp [h22, eq_comm]
  simp only [BitVec.getLsbD_append, BitVec.getLsbD_or, BitVec.getLsbD_extractLsb', hQuiet]
  by_cases hPayload : k < 22
  · simp [hPayload, show k < 23 by omega, show k ≠ 22 by omega]
  · by_cases h22 : k = 22
    · simp [h22]
    · simp [hPayload, show ¬ k < 23 by omega, show ¬ k - 22 < 1 by omega, Nat.sub_sub]

/-- From the middle between the largest single and the next power of two on, a double is stored as
an infinity. -/
theorem value?_toSingle_of_overflow {x : WithBotTop ℚ} (hx : d.value? = some x)
    (h : x ≤ (-(2 ^ 128 - 2 ^ 103) : ℚ) ∨ (2 ^ 128 - 2 ^ 103 : ℚ) ≤ x) :
    d.toSingle.value? = some (endOfLine d.sign) := by
  have hWord : d.singleWord = Layout.single.infinity := by
    cases x using WithBotTop.rec with
    | bot => exact singleWord_of_isInfinite ((isInfinite_iff d).mpr (Or.inr hx))
    | top => exact singleWord_of_isInfinite ((isInfinite_iff d).mpr (Or.inl hx))
    | coe q =>
      rw [WithBotTop.coe_le_coe, WithBotTop.coe_le_coe, ← rational_of_value? hx, ← le_abs'] at h
      exact (singleWord_le d).antisymm (not_lt.mp (mt (singleWord_lt_iff d).mp (not_lt.mpr h)))
  rw [value?_toSingle (isNaN_eq_false hx), hWord, Single.valueAt, if_pos rfl]

/-- **Single stores round to nearest even.**  The sign is always that of the double and the upper
half of the operand is clear.  A NaN keeps the upper part of its payload and is quiet.  A finite
double below the middle between the largest single and the next power of two becomes the nearest
single, of two that are equally near the even one, be it subnormal or a zero, and only one single
with the sign is nearest; any other double becomes an infinity.  So singles are in the order of the doubles. -/
theorem single_stores_round (d : Double) :
    Format.single.store d = d.storedSingle.bits.setWidth 64 ∧
      d.storedSingle.sign = d.sign ∧
      (d.value? = none → d.storedSingle.bits =
        BitVec.ofBool d.sign ++ 0xFF#8 ++ 1#1 ++ d.bits.extractLsb' 29 22) ∧
      (∀ x : ℚ, d.value? = some (x : WithBotTop ℚ) → |x| < 2 ^ 128 - 2 ^ 103 →
        d.storedSingle.Nearest x ∧
          ∀ t : Single, t.sign = d.sign → t.Nearest x → t = d.storedSingle) ∧
      (∀ x : WithBotTop ℚ, d.value? = some x →
        x ≤ (-(2 ^ 128 - 2 ^ 103) : ℚ) ∨ (2 ^ 128 - 2 ^ 103 : ℚ) ≤ x →
        d.storedSingle.value? = some (endOfLine d.sign)) ∧
      ∀ d' : Double, d.Compares (· ≤ ·) d' →
        ∃ y y', d.storedSingle.value? = some y ∧ d'.storedSingle.value? = some y' ∧ y ≤ y' := by
  rw [storedSingle_eq]
  refine ⟨rfl, sign_toSingle d, fun h => ?_, fun x hx hRange => ?_, fun x hx hRange => ?_,
    fun d' h => ?_⟩
  · exact bits_toSingle_of_isNaN ((isNaN_iff d).mpr h)
  · obtain rfl := rational_of_value? hx
    have hNaN := isNaN_eq_false hx
    exact ⟨nearest_toSingle hNaN hRange, fun t => eq_toSingle_of_nearest hNaN hRange⟩
  · exact value?_toSingle_of_overflow hx hRange
  · have hValues := valueAt_singleWord_le (units_le h)
    obtain ⟨x, x', hx, hx', -⟩ := h
    rw [storedSingle_eq]
    exact ⟨_, _, value?_toSingle (isNaN_eq_false hx), value?_toSingle (isNaN_eq_false hx'), hValues⟩

/-- Half of the least subnormal is a tie that a zero wins, the middle above the largest single one
that an infinity wins. -/
theorem single_stores_round_ties :
    Format.single.store ⟨0xB690000000000000⟩ = 0x80000000 ∧
      (storedSingle ⟨0xB690000000000000⟩).Nearest (-1 / 2 ^ 150) ∧
      (storedSingle ⟨0x47EFFFFFF0000000⟩).value? = some ⊤ ∧
      (storedSingle ⟨0xFFF0000020000001⟩).bits = 0xFFC00001 ∧
      ∃ y y', (storedSingle ⟨0xB690000000000000⟩).value? = some y ∧
        (storedSingle ⟨0x47EFFFFFF0000000⟩).value? = some y' ∧ y ≤ y' := by
  have hHalf : value? ⟨0xB690000000000000⟩ = some ((-1 / 2 ^ 150 : ℚ) : WithBotTop ℚ) := by
    decide +kernel
  have hMiddle : value? ⟨0x47EFFFFFF0000000⟩ = some ((2 ^ 128 - 2 ^ 103 : ℚ) : WithBotTop ℚ) := by
    decide +kernel
  obtain ⟨hStore, -, -, hNearest, -, hOrder⟩ := single_stores_round ⟨0xB690000000000000⟩
  obtain ⟨-, -, -, -, hInfinite, -⟩ := single_stores_round ⟨0x47EFFFFFF0000000⟩
  obtain ⟨-, -, hNaN, -, -, -⟩ := single_stores_round ⟨0xFFF0000020000001⟩
  refine ⟨?_, (hNearest _ hHalf (by decide +kernel)).1, hInfinite _ hMiddle (Or.inr le_rfl),
    hNaN (by decide), hOrder _ ⟨_, _, hHalf, hMiddle, ?_⟩⟩
  · rw [hStore]
    decide +kernel
  · exact WithBotTop.coe_le_coe.mpr (by decide +kernel)

end Double

end M68kFloat
