import M68kFloat.Proofs.Binary.Reflexivity
import M68kFloat.Proofs.Machine.Status

/-!
# Tests of one value

A test sets the condition codes from its source and does nothing else.  The codes are read off the
pattern, yet they tell on which side of zero the value lies: `order_zero` says that they order it
and zero, so a condition holds where the value is in the relation to zero that the condition names
(`Condition.holds_ofDouble`).  Here a negative zero is no less than zero though N is set, and a NaN
is in no relation to zero though it has a sign.

The other two codes tell the class: `isInfinite_iff` and `isNaN_iff` are about the value and not
about the pattern.
-/

namespace M68kFloat

theorem Layout.units_eq_zero_iff (layout : Layout) (word : ℕ) : layout.units word = 0 ↔ word = 0 := by
  have hPos : 0 < layout.lead := lead_pos layout
  by_cases h : word < layout.lead
  · rw [units_of_lt h]
  · -- a normal number has its leading one
    have hPower : 0 < 2 ^ (word / layout.lead - 1) := Nat.two_pow_pos _
    rw [units_of_le (by omega)]
    constructor
    · intro hZero
      rcases Nat.mul_eq_zero.mp hZero with hSum | hZero
      · omega
      · omega
    · intro hZero
      omega

namespace Double

variable {d : Double}

/-! ### Zero -/

theorem units_zero : zero.units = 0 := by decide

theorem rational_zero : zero.rational = 0 := by
  rw [rational_eq, units_zero, Int.cast_zero, zero_mul]

theorem value?_zero : zero.value? = some ((0 : ℚ) : WithBotTop ℚ) := by
  rw [← rational_zero]
  exact value?_of_finite (by decide) (by decide)

theorem units_eq_zero_iff (d : Double) : d.units = 0 ↔ d.isZero = true := by
  have hAbs : d.absUnits = 0 ↔ d.isZero = true := by
    rw [absUnits, Layout.units_eq_zero_iff, isZero, decide_eq_true_iff]
  rw [← hAbs, units]
  split <;> omega

theorem units_neg_iff (h : d.units ≠ 0) : d.units < 0 ↔ d.sign = true := by
  rw [units] at h ⊢
  by_cases hSign : d.sign = true
  · rw [if_pos hSign] at h ⊢
    exact iff_of_true (by omega) hSign
  · rw [if_neg hSign] at h ⊢
    exact iff_of_false (by omega) hSign

/-! ### What the codes of a double tell -/

theorem order_zero_of_finite (hNaN : d.isNaN = false) :
    (ConditionCodes.ofDouble d).Order d.rational (0 : ℚ) := by
  have hEqual : (d.rational : WithBotTop ℚ) = (0 : ℚ) ↔ d.units = 0 := by
    rw [WithBotTop.coe_injective.eq_iff, ← rational_zero, rational_eq_iff, units_zero]
  constructor
  · exact hNaN
  · rw [hEqual, units_eq_zero_iff]
    rfl
  · intro hNe
    rw [Ne, hEqual] at hNe
    rw [WithBotTop.coe_lt_coe, ← rational_zero, rational_lt_iff, units_zero, units_neg_iff hNe]
    rfl

/-- **The codes of a double order it and zero.** -/
theorem order_zero {x : WithBotTop ℚ} (hx : d.value? = some x) :
    (ConditionCodes.ofDouble d).Order x (0 : ℚ) := by
  have hNaN := isNaN_eq_false hx
  cases hInfinite : d.isInfinite with
  | true =>
    rw [value?_of_isInfinite hInfinite] at hx
    obtain rfl := Option.some.inj hx
    rw [codes_of_isInfinite hInfinite]
    exact order_endOfLine_left d.sign (endOfLine_ne_coe _ _)
  | false =>
    rw [value?_of_finite hNaN hInfinite] at hx
    obtain rfl := Option.some.inj hx
    exact order_zero_of_finite hNaN

theorem isNaN_iff (d : Double) : d.isNaN = true ↔ d.value? = none := by
  constructor
  · exact value?_of_isNaN
  · intro hNone
    by_contra hNaN
    obtain ⟨x, hx⟩ := exists_value? (Bool.eq_false_of_not_eq_true hNaN)
    rw [hNone] at hx
    cases hx

theorem isInfinite_iff (d : Double) :
    d.isInfinite = true ↔ d.value? = some ⊤ ∨ d.value? = some ⊥ := by
  constructor
  · intro h
    rw [value?_of_isInfinite h]
    cases d.sign with
    | false => exact Or.inl rfl
    | true => exact Or.inr rfl
  · intro h
    by_contra hInfinite
    have hNaN : d.isNaN = false := by
      rcases h with h | h <;> exact isNaN_eq_false h
    rw [value?_of_finite hNaN (Bool.eq_false_of_not_eq_true hInfinite)] at h
    rcases h with h | h
    · exact WithBotTop.coe_ne_top _ (Option.some.inj h)
    · exact WithBotTop.coe_ne_bot _ (Option.some.inj h)

end Double

/-- **The codes of a double tell every relation to zero.** -/
theorem Condition.holds_ofDouble (d : Double) (condition : Condition) :
    condition.holds (.ofDouble d) = true ↔ condition.Relates d .zero := by
  cases hNaN : d.isNaN with
  | true =>
    have hNone : d.value? = none := Double.value?_of_isNaN hNaN
    exact holds_iff_of_unordered (Or.inl hNone) hNaN (Double.isZero_of_isNaN hNaN) condition
  | false =>
    obtain ⟨x, hx⟩ := Double.exists_value? hNaN
    exact holds_iff_of_order hx Double.value?_zero (Double.order_zero hx) condition

/-! ### The instruction -/

/-- A double has been tested: the codes tell its relation to zero, its class and its sign, and the
floating-point registers and all other bits of the status register are as before. -/
structure Cpu.Tested (before after : Cpu) (d : Double) : Prop where
  order : ∀ condition : Condition, condition.holds after.codes = true ↔ condition.Relates d .zero
  infinite : after.codes.infinite = true ↔ d.value? = some ⊤ ∨ d.value? = some ⊥
  nan : after.codes.nan = true ↔ d.value? = none
  negative : after.codes.negative = d.sign
  fp : after.fp = before.fp
  rest : ∀ k, k < 24 ∨ 28 ≤ k → after.fpsr.getLsbD k = before.fpsr.getLsbD k

theorem Cpu.tested_of_classifies {before after : Cpu} {d : Double}
    (h : Classifies d before.fpsr after.fpsr) (hFp : after.fp = before.fp) :
    before.Tested after d := by
  have hCodes : after.codes = .ofDouble d := h.codes
  constructor
  · rw [hCodes]
    exact Condition.holds_ofDouble d
  · rw [hCodes]
    exact d.isInfinite_iff
  · rw [hCodes]
    exact d.isNaN_iff
  · rw [hCodes]
    rfl
  · exact hFp
  · exact h.rest

namespace Exec

variable {β : Type} [Bus β]

/-- **A test tells the sign and the class of a value.**  On any bus and whatever the status
register was, test the double of a register or of an operand that is not refused.  After it each
condition holds exactly when the value is in the relation to zero that it names, where a NaN is in
none, and a branch that finds the status register like this is taken just then. -/
theorem test_tells_sign_and_class {m : Machine β} {source : Source RegisterNumber}
    {destination : RegisterNumber} {d : Double} (hClass : m.cpu.ir.extractLsb' 6 2 = 0)
    (hWord : Operation.ofExtension (Bus.readWord m.cpu.pc m.bus).1 =
      .ok (.general source destination .tst))
    (hSource : sourced (decoded m (.general source destination .tst)) source = some d) :
    (generalGroup m).1 = .ok () ∧ m.cpu.Tested (generalGroup m).2.cpu d ∧
    ∀ (next : Machine β) (condition : Condition) (form : BranchForm),
      next.cpu.fpsr = (generalGroup m).2.cpu.fpsr →
      next.instruction? .general = some (.branch condition form) →
      ∃ taken, next.Branches form taken ∧ (taken = true ↔ condition.Relates d .zero) := by
  obtain ⟨hOk, hUnit⟩ := general_of_sourced hSource destination .tst
  have hRun := generalGroup_of_operation hClass hWord hOk
  have hAfter : (generalGroup m).2.cpu.unit = m.cpu.unit.operate .tst destination d := by
    rw [hRun]
    exact hUnit
  have hTested : m.cpu.Tested (generalGroup m).2.cpu d := by
    refine Cpu.tested_of_classifies ?_ (congrArg UnitRegisters.fp hAfter)
    have hStatus : (generalGroup m).2.cpu.fpsr = (m.cpu.unit.operate .tst destination d).fpsr :=
      congrArg UnitRegisters.fpsr hAfter
    have hSets : Opmode.tst.setsCodes = true := rfl
    rw [hStatus]
    exact classifies_operate hSets m.cpu.unit destination d
  refine ⟨hRun ▸ hOk, hTested, fun next condition form hStatus hBranch => ?_⟩
  have hCodes : next.cpu.codes = (generalGroup m).2.cpu.codes :=
    congrArg ConditionCodes.ofStatus hStatus
  refine ⟨_, Machine.branches_of_instruction hBranch, ?_⟩
  rw [hCodes]
  exact hTested.order condition

/-- A negative zero in FP1 about to be tested, with all codes set, and then a branch on "less". -/
def testsNegativeZero : Machine Ram :=
  let m := Machine.begun 0xF200 [0x043A, 0xF294, 0x0010]
  { m with cpu := { m.cpu.setFp 1 (Double.ofParts true 0) with fpsr := 0x0F0000F8 } }

/-- A negative zero has its sign in the codes and is not less than zero. -/
theorem test_tells_sign_and_class_negative_zero :
    (generalGroup testsNegativeZero).1 = .ok () ∧
    (generalGroup testsNegativeZero).2.cpu.fpsr = 0x0C0000F8 ∧
    ¬ Condition.less.Relates (Double.ofParts true 0) .zero ∧
    (fetchOpcode (generalGroup testsNegativeZero).2).2.Branches .word false := by
  have hSource : sourced (decoded testsNegativeZero (.general (.register 1) 0 .tst)) (.register 1) =
      some (Double.ofParts true 0) := by decide
  obtain ⟨hOk, hTested, hBranches⟩ := test_tells_sign_and_class (by decide) rfl hSource
  have hStatus : (generalGroup testsNegativeZero).2.cpu.fpsr = 0x0C0000F8 := by decide +kernel
  have hNotLess : ¬ Condition.less.Relates (Double.ofParts true 0) .zero := by
    rw [← hTested.order .less, Cpu.codes, hStatus]
    decide
  obtain ⟨taken, hTaken, hIff⟩ :=
    hBranches (fetchOpcode (generalGroup testsNegativeZero).2).2 .less .word rfl (by decide +kernel)
  obtain rfl : taken = false := Bool.eq_false_of_not_eq_true (mt hIff.mp hNotLess)
  exact ⟨hOk, hStatus, hNotLess, hTaken⟩

end Exec

end M68kFloat
