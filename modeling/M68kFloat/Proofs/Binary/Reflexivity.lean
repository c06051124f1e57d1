import M68kFloat.Proofs.Binary.Comparison
import M68kFloat.Proofs.Machine.Execution
import M68kFloat.Proofs.Operand.RoundTrip

/-!
# Comparison of equal patterns

A comparison computes a difference.  The difference of a finite double from itself is the positive
zero, whose only code is Z, so equal finite doubles compare as equal.  Equal infinities do not: an
infinity has no difference from itself, and the codes are those of `Double.invalid`, which is a
negative NaN.  `comparison_of_equal_patterns` carries both cases to the branches that follow.
-/

namespace M68kFloat

namespace Double

variable {d : Double}

theorem sub_self_of_finite (hNaN : d.isNaN = false) (hFinite : d.isInfinite = false) :
    d.sub d = .zero := by
  have hSign : (d.sign && d.neg.sign) = false := by
    rw [sign_neg]
    exact Bool.and_not_self d.sign
  rw [sub_of_finite hNaN hNaN hFinite hFinite, sub_self, if_pos rfl, hSign]
  rfl

theorem sub_self_of_isInfinite (h : d.isInfinite = true) : d.sub d = invalid := by
  have hNaN : d.isNaN = false := congrArg ConditionCodes.nan (codes_of_isInfinite h)
  have hOpposite : (d.sign != d.neg.sign) = true := by
    rw [sign_neg]
    cases d.sign <;> rfl
  rw [sub, propagate, hNaN, sum, h, isInfinite_neg, h, hOpposite]
  rfl

/-- The codes of the difference of a double from itself. -/
theorem codes_sub_self (hNaN : d.isNaN = false) :
    ConditionCodes.ofDouble (d.sub d) =
      if d.isInfinite then ⟨true, false, false, true⟩ else ⟨false, true, false, false⟩ := by
  cases h : d.isInfinite with
  | true =>
    rw [sub_self_of_isInfinite h]
    decide
  | false =>
    rw [sub_self_of_finite hNaN h]
    decide

end Double

/-- Of the conditions that hold for equal values, none holds for equal infinities. -/
theorem Condition.holds_codes_sub_self (infinite : Bool) :
    ∀ condition ∈ [equal, greaterOrEqual, lessOrEqual],
      condition.holds (if infinite then ⟨true, false, false, true⟩ else ⟨false, true, false, false⟩) =
        !infinite := by
  revert infinite
  decide

/-! ### Branches -/

open Exec BusCall

variable {β : Type} [Bus β]

/-- The branch at which a machine stands is carried out, and it is taken or not.  A branch that is
taken cancels the trace, and its displacement counts from where it stands itself. -/
structure Machine.Branches (m : Machine β) (form : BranchForm) (taken : Bool) : Prop where
  ok : (generalGroup m).1 = .ok ()
  pc : (generalGroup m).2.cpu.pc = m.cpu.pc +
    if taken then (fetchDisplacement form.width m).1 else BitVec.ofNat 32 form.width.bytes
  trace : .cancelTrace ∈ (generalGroup m).2.callsSince m ↔ taken = true

/-- A branch has its form from the class of the opcode and its condition from the field. -/
theorem Machine.generalGroup_of_branch {m : Machine β} {condition : Condition}
    {form : BranchForm} (h : m.instruction? .general = some (.branch condition form)) :
    Condition.ofCode? m.cpu.field = some condition ∧ generalGroup m = reporting (branch form) m := by
  rcases class_cases (m.cpu.ir.extractLsb' 6 2) with hClass | hClass | hClass | hClass
  all_goals simp only [instruction?, Instruction.ofWords?, hClass] at h
  · obtain ⟨op, -, h⟩ := Option.map_eq_some_iff.mp h
    cases h
  · cases h
  all_goals
    obtain ⟨condition', hCondition, h⟩ := Option.map_eq_some_iff.mp h
    cases h
    rw [generalGroup_apply, hClass]
    exact ⟨hCondition, rfl⟩

theorem Machine.generalGroup_eq_prepared {m : Machine β} {condition : Condition}
    {form : BranchForm} (h : m.instruction? .general = some (.branch condition form)) :
    let prepared := (Instruction.branch condition form).prepared m
    generalGroup m = (.ok (), { prepared with cpu := prepared.cpu.charge m.cpu.costs.branch }) := by
  obtain ⟨hCondition, hGroup⟩ := generalGroup_of_branch h
  have hBranch := branch_of_condition form hCondition
  rw [hGroup, reporting_of_ok (congrArg Prod.fst hBranch), hBranch]

theorem Machine.branches_of_instruction {m : Machine β} {condition : Condition}
    {form : BranchForm} (h : m.instruction? .general = some (.branch condition form)) :
    m.Branches form (condition.holds m.cpu.codes) := by
  have hRun := generalGroup_eq_prepared h
  obtain ⟨stream, hPrepares⟩ := (Instruction.branch condition form).exists_prepares m
  constructor
  · rw [hRun]
  · rw [hRun]
    cases hHolds : condition.holds m.cpu.codes with
    | true => exact Instruction.pc_prepared_of_jumps hHolds form
    | false => exact hPrepares.pc hHolds
  · have hStream : .cancelTrace ∉ stream := hPrepares.tiles.stream _
    have hCalls := Machine.callsSince_eq hPrepares.made.recorded
    rw [hRun]
    show .cancelTrace ∈ ((Instruction.branch condition form).prepared m).callsSince m ↔ _
    rw [hCalls, List.mem_append, or_iff_right hStream, Instruction.cancels]
    show _ ∈ (if condition.holds m.cpu.codes then _ else _) ↔ _
    cases condition.holds m.cpu.codes with
    | true => simp
    | false => simp

/-! ### The instruction -/

namespace Exec

/-- **Equal finite doubles compare as equal, equal infinities do not.**  On any bus and whatever
the status register was, compare two registers with the same pattern, or a register with itself.
For a finite double the codes are Z alone, so a branch on "equal", "greater or equal" or "less or
equal" that finds the status register like this is taken and one on "not equal" is not.  For an
infinity the codes are N and NAN, and it is the other way round. -/
theorem comparison_of_equal_patterns {m : Machine β} {source destination : RegisterNumber}
    (hClass : m.cpu.ir.extractLsb' 6 2 = 0)
    (hWord : Operation.ofExtension (Bus.readWord m.cpu.pc m.bus).1 =
      .ok (.general (.register source) destination .cmp))
    (hSame : m.cpu.fp.get source = m.cpu.fp.get destination)
    (hNaN : (m.cpu.fp.get destination).isNaN = false) :
    let infinite := (m.cpu.fp.get destination).isInfinite
    (generalGroup m).1 = .ok () ∧
    (generalGroup m).2.cpu.codes =
      (if infinite then ⟨true, false, false, true⟩ else ⟨false, true, false, false⟩) ∧
    ∀ (next : Machine β) (condition : Condition) (form : BranchForm),
      next.cpu.fpsr = (generalGroup m).2.cpu.fpsr →
      next.instruction? .general = some (.branch condition form) →
      (condition ∈ [.equal, .greaterOrEqual, .lessOrEqual] → next.Branches form (!infinite)) ∧
      (condition = .notEqual → next.Branches form infinite) := by
  intro infinite
  have hCodes : (generalGroup m).2.cpu.codes =
      if infinite then ⟨true, false, false, true⟩ else ⟨false, true, false, false⟩ := by
    rw [generalGroup_of_operation hClass hWord rfl, ← Double.codes_sub_self hNaN]
    nth_rewrite 2 [← hSame]
    exact ConditionCodes.ofStatus_replace _ _
  refine ⟨?_, hCodes, fun next condition form hStatus hBranch => ?_⟩
  · rw [generalGroup_of_operation hClass hWord rfl]
    rfl
  · have hBranches := Machine.branches_of_instruction hBranch
    have hNext : next.cpu.codes = (generalGroup m).2.cpu.codes :=
      congrArg ConditionCodes.ofStatus hStatus
    rw [hNext, hCodes] at hBranches
    constructor
    · intro hCondition
      rwa [Condition.holds_codes_sub_self infinite condition hCondition] at hBranches
    · rintro rfl
      cases h : infinite <;> rw [h] at hBranches <;> exact hBranches

/-- A negative zero in FP1 about to be compared with itself, with all codes set, and then a branch
on "equal". -/
def comparesNegativeZero : Machine Ram :=
  let m := Machine.begun 0xF200 [0x04B8, 0xF281, 0x0010]
  { m with cpu := { m.cpu.setFp 1 (Double.ofParts true 0) with fpsr := 0x0F0000F8 } }

theorem comparison_of_equal_patterns_negative_zero :
    (generalGroup comparesNegativeZero).1 = .ok () ∧
    (generalGroup comparesNegativeZero).2.cpu.codes = ⟨false, true, false, false⟩ ∧
    (fetchOpcode (generalGroup comparesNegativeZero).2).2.Branches .word true := by
  have hFinite : (comparesNegativeZero.cpu.fp.get 1).isInfinite = false := by decide
  have hWord : Operation.ofExtension
      (Bus.readWord comparesNegativeZero.cpu.pc comparesNegativeZero.bus).1 =
        .ok (.general (.register 1) 1 .cmp) := rfl
  obtain ⟨hOk, hCodes, hBranches⟩ := comparison_of_equal_patterns (by decide) hWord rfl (by decide)
  rw [hFinite] at hCodes hBranches
  obtain ⟨hEqual, -⟩ := hBranches (fetchOpcode (generalGroup comparesNegativeZero).2).2 .equal .word
    rfl (by decide +kernel)
  exact ⟨hOk, hCodes, hEqual (by decide)⟩

/-- Positive infinities in FP0 and FP1 about to be compared. -/
def comparesInfinities : Machine Ram :=
  let m := Machine.begun 0xF200 [0x0438]
  { m with cpu := (m.cpu.setFp 0 (.infinity false)).setFp 1 (.infinity false) }

theorem equal_infinities_compare_unequal :
    comparesInfinities.cpu.fp.get 0 = comparesInfinities.cpu.fp.get 1 ∧
    (comparesInfinities.cpu.fp.get 0).isNaN = false ∧
    (generalGroup comparesInfinities).1 = .ok () ∧
    (generalGroup comparesInfinities).2.cpu.codes = ⟨true, false, false, true⟩ ∧
    (∀ condition ∈ [Condition.equal, .greaterOrEqual, .lessOrEqual],
      condition.holds (generalGroup comparesInfinities).2.cpu.codes = false) ∧
    Condition.notEqual.holds (generalGroup comparesInfinities).2.cpu.codes = true := by
  have hCodes : (generalGroup comparesInfinities).2.cpu.codes = ⟨true, false, false, true⟩ := by
    decide +kernel
  rw [hCodes]
  exact ⟨rfl, by decide, rfl, rfl, by decide, rfl⟩

end Exec

end M68kFloat
