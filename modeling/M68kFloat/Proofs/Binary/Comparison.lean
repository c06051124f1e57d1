import M68kFloat.Proofs.Binary.Rounding
import M68kFloat.Proofs.Machine.Steps

/-!
# Comparison by subtraction

A comparison sets the condition codes from the rounded difference of its operands.  The
codes tell the order of the operands nevertheless (`order_sub`): a difference that is not
zero does not round to zero, since every difference is a whole number of least subnormals;
rounding keeps the sign, also where it gives an infinity; and an infinite operand decides
the sign by itself.  Only two infinities of the same sign have no difference.

`comparison_decides_order` puts this together with the conditions: after a comparison a
condition holds exactly when the operands are in the relation that it names.
-/

namespace M68kFloat

namespace Double

/-! ### Signs and NaNs -/

theorem magnitude_neg (d : Double) : d.neg.magnitude = d.magnitude := by
  have hMask : BitVec.setWidth 63 (0x8000000000000000 : Quad) = 0 := by decide
  rw [magnitude, neg, BitVec.setWidth_xor, hMask]
  exact congrArg BitVec.toNat BitVec.xor_zero

theorem sign_neg (d : Double) : d.neg.sign = !d.sign := by
  rw [sign, neg, BitVec.msb_xor]
  exact Bool.xor_true _

theorem units_neg (d : Double) : d.neg.units = -d.units := by
  rw [units, units, absUnits, absUnits, magnitude_neg, sign_neg]
  cases d.sign <;> simp

theorem isInfinite_neg (d : Double) : d.neg.isInfinite = d.isInfinite := by
  rw [isInfinite, isInfinite, magnitude_neg]

theorem isNaN_quiet {d : Double} (h : d.isNaN = true) : d.quiet.isNaN = true := by
  have hLess : Layout.double.infinity < d.magnitude := of_decide_eq_true h
  have hMore : d.magnitude ≤ d.quiet.magnitude := by
    rw [magnitude, magnitude, quiet, BitVec.setWidth_or, BitVec.toNat_or]
    exact Nat.left_le_or
  exact decide_eq_true (by omega)

theorem isNaN_sub {d s : Double} (h : d.isNaN = true ∨ s.isNaN = true) :
    (d.sub s).isNaN = true := by
  rw [sub, propagate]
  by_cases hd : d.isNaN = true
  · rw [if_pos hd]
    exact isNaN_quiet hd
  · have hs : s.isNaN = true := h.resolve_left hd
    rw [if_neg hd, if_pos hs]
    exact isNaN_quiet hs

theorem isZero_of_isNaN {d : Double} (h : d.isNaN = true) : d.isZero = false := by
  have hLess : Layout.double.infinity < d.magnitude := of_decide_eq_true h
  exact decide_eq_false (by omega)

end Double

/-! ### The codes of a difference -/

/-- The codes say how two values are ordered. -/
structure ConditionCodes.Order (codes : ConditionCodes) (x y : WithBotTop ℚ) : Prop where
  nan : codes.nan = false
  zero : codes.zero = true ↔ x = y
  negative : x ≠ y → (codes.negative = true ↔ x < y)

namespace Double

/-- The difference of finite doubles is rounded once. -/
theorem sub_of_finite {d s : Double} (hd : d.isNaN = false) (hs : s.isNaN = false)
    (hd' : d.isInfinite = false) (hs' : s.isInfinite = false) :
    d.sub s = round (if d.units - s.units = 0 then d.sign && s.neg.sign
      else decide (d.units - s.units < 0)) (d.units - s.units).natAbs 1 := by
  rw [sub_eq_add_neg, ← units_neg, sub, propagate, hd, hs, sum, hd', isInfinite_neg, hs']
  rfl

theorem order_sub_of_finite {d s : Double} (hd : d.isNaN = false) (hs : s.isNaN = false)
    (hd' : d.isInfinite = false) (hs' : s.isInfinite = false) :
    (ConditionCodes.ofDouble (d.sub s)).Order d.rational s.rational := by
  have hSub := sub_of_finite hd hs hd' hs'
  have hEqual : (d.rational : WithBotTop ℚ) = s.rational ↔ d.units - s.units = 0 := by
    rw [WithBotTop.coe_injective.eq_iff, rational_eq_iff, sub_eq_zero]
  constructor
  · rw [hSub]
    exact isNaN_round _ _ _
  · rw [hSub, hEqual, ConditionCodes.ofDouble, isZero_round, decide_eq_true_iff, Int.natAbs_eq_zero]
  · intro hNe
    rw [Ne, hEqual] at hNe
    rw [hSub, ConditionCodes.ofDouble, sign_round, if_neg hNe, decide_eq_true_iff,
      WithBotTop.coe_lt_coe, rational_lt_iff, sub_neg]

theorem codes_of_isInfinite {d : Double} (h : d.isInfinite = true) :
    ConditionCodes.ofDouble d = ⟨d.sign, false, true, false⟩ := by
  have hMagnitude : d.magnitude = Layout.double.infinity := of_decide_eq_true h
  have hZero : d.isZero = false := by
    rw [isZero, hMagnitude]
    decide
  have hNaN : d.isNaN = false := by
    rw [isNaN, hMagnitude]
    decide
  rw [ConditionCodes.ofDouble, hZero, h, hNaN]

theorem order_endOfLine_left (sign : Bool) {y : WithBotTop ℚ} (h : endOfLine sign ≠ y) :
    ConditionCodes.Order ⟨sign, false, true, false⟩ (endOfLine sign) y := by
  refine ⟨rfl, iff_of_false Bool.false_ne_true h, fun _ => ?_⟩
  cases sign with
  | false => exact iff_of_false Bool.false_ne_true not_top_lt
  | true => exact iff_of_true rfl (bot_lt_iff_ne_bot.mpr h.symm)

theorem order_endOfLine_right (sign : Bool) {x : WithBotTop ℚ} (h : x ≠ endOfLine sign) :
    ConditionCodes.Order ⟨!sign, false, true, false⟩ x (endOfLine sign) := by
  refine ⟨rfl, iff_of_false Bool.false_ne_true h, fun _ => ?_⟩
  cases sign with
  | false => exact iff_of_true rfl (lt_top_iff_ne_top.mpr h)
  | true => exact iff_of_false Bool.false_ne_true not_lt_bot

theorem isNaN_eq_false {d : Double} {x : WithBotTop ℚ} (h : d.value? = some x) :
    d.isNaN = false := by
  by_contra hNaN
  rw [value?_of_isNaN (Bool.eq_true_of_not_eq_false hNaN)] at h
  cases h

/-- Two infinities of one sign are the same. -/
theorem eq_of_isInfinite {d s : Double} (hd : d.isInfinite = true) (hs : s.isInfinite = true)
    (hSign : d.sign = s.sign) : d = s := by
  have hd' : d.magnitude = Layout.double.infinity := of_decide_eq_true hd
  have hs' : s.magnitude = Layout.double.infinity := of_decide_eq_true hs
  rw [← ofParts_sign_magnitude d, ← ofParts_sign_magnitude s, hd', hs', hSign]

theorem sum_of_isInfinite_left {d s : Double} (hd : d.isInfinite = true)
    (h : s.isInfinite = true → d.sign = s.sign) : sum d s = d := by
  rw [sum, if_pos hd, if_neg]
  intro hOpposite
  rw [Bool.and_eq_true, bne_iff_ne] at hOpposite
  exact hOpposite.2 (h hOpposite.1)

theorem sum_of_isInfinite_right {d s : Double} (hd : d.isInfinite = false)
    (hs : s.isInfinite = true) : sum d s = s := by
  rw [sum, hd, hs]
  rfl

/-- **The codes of a difference say how the operands are ordered.** -/
theorem order_sub {d s : Double} {x y : WithBotTop ℚ} (hx : d.value? = some x)
    (hy : s.value? = some y) (hInfinite : ¬ (d.isInfinite = true ∧ d = s)) :
    (ConditionCodes.ofDouble (d.sub s)).Order x y := by
  have hdNaN := isNaN_eq_false hx
  have hsNaN := isNaN_eq_false hy
  have hSub : d.sub s = sum d s.neg := by
    rw [sub, propagate, hdNaN, hsNaN]
    rfl
  cases hd : d.isInfinite with
  | true =>
    have hSign : s.isInfinite = true → d.sign ≠ s.sign :=
      fun hs h => hInfinite ⟨hd, eq_of_isInfinite hd hs h⟩
    have hSum : sum d s.neg = d := by
      refine sum_of_isInfinite_left hd fun hs => ?_
      rw [isInfinite_neg] at hs
      rw [sign_neg]
      exact Bool.eq_not.mpr (hSign hs)
    rw [value?_of_isInfinite hd] at hx
    obtain rfl := Option.some.inj hx
    rw [hSub, hSum, codes_of_isInfinite hd]
    refine order_endOfLine_left d.sign ?_
    cases hs : s.isInfinite with
    | true =>
      rw [value?_of_isInfinite hs] at hy
      rw [← Option.some.inj hy]
      exact endOfLine_injective.ne (hSign hs)
    | false =>
      rw [value?_of_finite hsNaN hs] at hy
      rw [← Option.some.inj hy]
      exact endOfLine_ne_coe _ _
  | false =>
    rw [value?_of_finite hdNaN hd] at hx
    obtain rfl := Option.some.inj hx
    cases hs : s.isInfinite with
    | true =>
      have hs' : s.neg.isInfinite = true := (isInfinite_neg s).trans hs
      rw [value?_of_isInfinite hs] at hy
      obtain rfl := Option.some.inj hy
      rw [hSub, sum_of_isInfinite_right hd hs', codes_of_isInfinite hs', sign_neg]
      exact order_endOfLine_right s.sign (endOfLine_ne_coe _ _).symm
    | false =>
      rw [value?_of_finite hsNaN hs] at hy
      obtain rfl := Option.some.inj hy
      exact order_sub_of_finite hdNaN hsNaN hd hs

end Double

/-! ### Conditions -/

/-- Both doubles have values, and these are in a relation. -/
def Double.Compares (d : Double) (r : WithBotTop ℚ → WithBotTop ℚ → Prop) (s : Double) : Prop :=
  ∃ x y, d.value? = some x ∧ s.value? = some y ∧ r x y

/-- The relation of two doubles that a condition names. -/
def Condition.Relates (condition : Condition) (d s : Double) : Prop :=
  match condition with
  | never => False
  | always => True
  | equal => d.Compares (· = ·) s
  | notEqual => ¬ d.Compares (· = ·) s
  | greater => d.Compares (· > ·) s
  | notGreater => ¬ d.Compares (· > ·) s
  | greaterOrEqual => d.Compares (· ≥ ·) s
  | notGreaterOrEqual => ¬ d.Compares (· ≥ ·) s
  | less => d.Compares (· < ·) s
  | notLess => ¬ d.Compares (· < ·) s
  | lessOrEqual => d.Compares (· ≤ ·) s
  | notLessOrEqual => ¬ d.Compares (· ≤ ·) s

theorem Double.compares_iff {d s : Double} {x y : WithBotTop ℚ} (hx : d.value? = some x)
    (hy : s.value? = some y) (r : WithBotTop ℚ → WithBotTop ℚ → Prop) :
    d.Compares r s ↔ r x y := by
  constructor
  · rintro ⟨x', y', hx', hy', h⟩
    rw [hx] at hx'
    rw [hy] at hy'
    rwa [Option.some.inj hx', Option.some.inj hy']
  · intro h
    exact ⟨x, y, hx, hy, h⟩

theorem Condition.holds_iff_of_order {codes : ConditionCodes} {d s : Double} {x y : WithBotTop ℚ}
    (hx : d.value? = some x) (hy : s.value? = some y) (h : codes.Order x y)
    (condition : Condition) : condition.holds codes = true ↔ condition.Relates d s := by
  have hCompares := Double.compares_iff hx hy
  have hNaN := h.nan
  rcases lt_trichotomy x y with hLess | hEqual | hGreater
  · have hZero : codes.zero = false := Bool.eq_false_of_not_eq_true (mt h.zero.mp hLess.ne)
    have hNegative : codes.negative = true := (h.negative hLess.ne).mpr hLess
    cases condition <;>
      simp [holds, Relates, hCompares, hNaN, hZero, hNegative, hLess, hLess.ne, hLess.le]
  · have hZero : codes.zero = true := h.zero.mpr hEqual
    subst hEqual
    cases condition <;> simp [holds, Relates, hCompares, hNaN, hZero]
  · have hZero : codes.zero = false := Bool.eq_false_of_not_eq_true (mt h.zero.mp hGreater.ne')
    have hNegative : codes.negative = false :=
      Bool.eq_false_of_not_eq_true (mt (h.negative hGreater.ne').mp hGreater.not_gt)
    cases condition <;>
      simp [holds, Relates, hCompares, hNaN, hZero, hNegative, hGreater, hGreater.ne', hGreater.le]

theorem Condition.holds_iff_of_unordered {codes : ConditionCodes} {d s : Double}
    (h : d.value? = none ∨ s.value? = none) (hNaN : codes.nan = true) (hZero : codes.zero = false)
    (condition : Condition) : condition.holds codes = true ↔ condition.Relates d s := by
  have hCompares : ∀ r, ¬ d.Compares r s := by
    rintro r ⟨x, y, hx, hy, -⟩
    rcases h with h | h
    · rw [h] at hx
      cases hx
    · rw [h] at hy
      cases hy
  cases condition <;> simp [holds, Relates, hCompares, hNaN, hZero]

/-- **A difference tells every relation of its operands.** -/
theorem Condition.holds_sub {d s : Double} (hInfinite : ¬ (d.isInfinite = true ∧ d = s))
    (condition : Condition) :
    condition.holds (.ofDouble (d.sub s)) = true ↔ condition.Relates d s := by
  by_cases hNaN : d.isNaN = true ∨ s.isNaN = true
  · have hValue : d.value? = none ∨ s.value? = none :=
      hNaN.imp Double.value?_of_isNaN Double.value?_of_isNaN
    have hSub := Double.isNaN_sub hNaN
    exact holds_iff_of_unordered hValue hSub (Double.isZero_of_isNaN hSub) condition
  · rw [not_or] at hNaN
    obtain ⟨x, hx⟩ := Double.exists_value? (Bool.eq_false_of_not_eq_true hNaN.1)
    obtain ⟨y, hy⟩ := Double.exists_value? (Bool.eq_false_of_not_eq_true hNaN.2)
    exact holds_iff_of_order hx hy (Double.order_sub hx hy hInfinite) condition

/-! ### The instruction -/

namespace Exec

variable {β : Type} [Bus β]

/-- **A comparison decides the order.**  On any bus and whatever the status register was:
after a comparison of two registers each of the twelve conditions holds exactly when the
values of the registers are in the relation that it names, where a NaN is in none.  The
only operands left out are twice the same infinity. -/
theorem comparison_decides_order {m : Machine β} {source destination : RegisterNumber}
    (hClass : m.cpu.ir.extractLsb' 6 2 = 0)
    (hWord : Operation.ofExtension (Bus.readWord m.cpu.pc m.bus).1 =
      .ok (.general (.register source) destination .cmp))
    (hInfinite : ¬ ((m.cpu.fp.get destination).isInfinite = true ∧
      m.cpu.fp.get destination = m.cpu.fp.get source)) :
    (generalGroup m).1 = .ok () ∧ ∀ condition : Condition,
      condition.holds (generalGroup m).2.cpu.codes = true ↔
        condition.Relates (m.cpu.fp.get destination) (m.cpu.fp.get source) := by
  rw [generalGroup_of_operation hClass hWord rfl]
  refine ⟨rfl, fun condition => ?_⟩
  have hCodes : (operation (.general (.register source) destination .cmp)
      (decoded m (.general (.register source) destination .cmp))).2.cpu.codes =
      .ofDouble ((m.cpu.fp.get destination).sub (m.cpu.fp.get source)) :=
    ConditionCodes.ofStatus_replace _ _
  rw [hCodes]
  exact Condition.holds_sub hInfinite condition

/-- The least subnormal in FP1 about to be compared with the zero in FP0. -/
def comparesLeast : Machine Ram :=
  let m := Machine.begun 0xF200 [0x00B8]
  { m with cpu := m.cpu.setFp 1 ⟨1⟩ }

/-- The least difference that there is does not vanish. -/
theorem comparison_decides_order_least :
    (generalGroup comparesLeast).1 = .ok () ∧
      Condition.greater.holds (generalGroup comparesLeast).2.cpu.codes = true ∧
      Double.Compares ⟨1⟩ (· > ·) .zero := by
  obtain ⟨hOk, hHolds⟩ :=
    comparison_decides_order (m := comparesLeast) (by decide) rfl (by decide)
  have hGreater : Condition.greater.holds (generalGroup comparesLeast).2.cpu.codes = true := by
    decide +kernel
  exact ⟨hOk, hGreater, (hHolds .greater).mp hGreater⟩

end Exec

end M68kFloat
