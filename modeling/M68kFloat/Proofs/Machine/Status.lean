import M68kFloat.Proofs.Machine.Arithmetic
import M68kFloat.Proofs.Machine.Refusal
import M68kFloat.Proofs.Machine.Runs

/-!
# The status register over runs

An arithmetic operation may put the class of a double into the condition codes, and a load of
the status register replaces all of it.  Nothing else changes it, whether an instruction is
carried out or refused.  `Operation.LeavesStatus` says so for every operation, in terms of
the double that is classified and not of how it has been computed.

A double is of one class, so codes that only ever come from doubles are exclusive
(`ConditionCodes.Exclusive`), and on exclusive codes the twelve conditions fall into six pairs
of opposites (`Condition.holds_opposite`).  `status_over_runs` carries this through runs.
-/

namespace M68kFloat

/-! ### Exclusive codes and opposite conditions -/

/-- At most one of zero, infinity and NaN. -/
def ConditionCodes.Exclusive (codes : ConditionCodes) : Prop :=
  [codes.zero, codes.infinite, codes.nan].count true ≤ 1

instance (codes : ConditionCodes) : Decidable codes.Exclusive := inferInstanceAs (Decidable (_ ≤ _))

theorem ConditionCodes.exclusive_ofDouble (d : Double) : (ofDouble d).Exclusive := by
  have hInfinity : 0 < Layout.double.infinity := by decide
  show [decide (d.magnitude = 0), decide (d.magnitude = Layout.double.infinity),
    decide (Layout.double.infinity < d.magnitude)].count true ≤ 1
  rcases Nat.lt_trichotomy d.magnitude Layout.double.infinity with h | h | h
  · rw [decide_eq_false (Nat.ne_of_lt h), decide_eq_false (Nat.lt_asymm h)]
    cases decide (d.magnitude = 0) <;> decide
  · rw [h, decide_eq_false (Nat.ne_of_gt hInfinity), decide_eq_false (Nat.lt_irrefl _)]
    cases decide (Layout.double.infinity = Layout.double.infinity) <;> decide
  · rw [decide_eq_false (Nat.ne_of_gt (Nat.lt_trans hInfinity h)), decide_eq_false (Nat.ne_of_gt h)]
    cases decide (Layout.double.infinity < d.magnitude) <;> decide

namespace Condition

/-- The condition that is meant to hold where this one does not. -/
def opposite : Condition → Condition
  | never => always
  | always => never
  | equal => notEqual
  | notEqual => equal
  | greater => notGreater
  | notGreater => greater
  | greaterOrEqual => notGreaterOrEqual
  | notGreaterOrEqual => greaterOrEqual
  | less => notLess
  | notLess => less
  | lessOrEqual => notLessOrEqual
  | notLessOrEqual => lessOrEqual

theorem holds_opposite {codes : ConditionCodes} (h : codes.Exclusive) (condition : Condition) :
    condition.opposite.holds codes = !condition.holds codes := by
  obtain ⟨n, z, i, nan⟩ := codes
  have hCount : [z, i, nan].count true ≤ 1 := h
  have hNaN : (z && nan) = false := by
    clear h
    revert z i nan
    decide
  cases condition <;> cases n <;> cases z <;> cases nan <;> first | rfl | cases hNaN

end Condition

/-- The codes in `status'` are the class of a double, and its other bits are those of
`status`. -/
structure Classifies (d : Double) (status status' : Long) : Prop where
  codes : ConditionCodes.ofStatus status' = .ofDouble d
  rest : ∀ k, k < 24 ∨ 28 ≤ k → status'.getLsbD k = status.getLsbD k

theorem classifies_operate {opmode : Opmode} (h : opmode.setsCodes = true) (unit : UnitRegisters)
    (destination : RegisterNumber) (source : Double) :
    Classifies (opmode.value (unit.fp.get destination) source) unit.fpsr
      (unit.operate opmode destination source).fpsr := by
  rw [UnitRegisters.operate, h]
  exact ⟨ConditionCodes.ofStatus_replace _ _, fun _ => ConditionCodes.getLsbD_replace _ _⟩

namespace Exec

variable {β : Type} [Bus β]

theorem control_read_of_ok {register : ControlRegister} {m : Machine β}
    (h : (control .read register m).1 = .ok ()) :
    ∃ operand, (readOperand m.cpu.field .long m).1 = .ok operand ∧
      (control .read register m).2.cpu.control register = operand.setWidth 32 := by
  rw [control, bind_apply, getCpu_apply] at h ⊢
  dsimp only at h ⊢
  cases hRoute : Mode.route? m.cpu.field .long .read with
  | none =>
    rw [withOperand_of_refused hRoute] at h
    cases h
  | some mode =>
    refine ⟨(readThrough .long mode m).1, ?_, ?_⟩
    · rw [readOperand, withOperand_of_route hRoute]
      rfl
    · rw [withOperand_of_route hRoute]
      cases register <;> rfl

end Exec

open Exec

variable {β : Type} [Bus β]

/-! ### The status register after an operation -/

/-- What an operation that has been carried out makes of the status register.  The machine
`m` has decoded the operation, `before` and `after` are the processor at its start and at its
end. -/
def Operation.LeavesStatus (op : Operation RegisterNumber) (m : Machine β) (before after : Cpu) :
    Prop :=
  match op with
  | general source destination opmode =>
    match opmode with
    | .move | .div => after.fpsr = before.fpsr
    | .cmp => ∃ value, sourced m source = some value ∧
      Classifies ((before.fp.get destination).sub value) before.fpsr after.fpsr
    | .tst => ∃ value, sourced m source = some value ∧ Classifies value before.fpsr after.fpsr
    | .sqrt | .abs | .neg | .add | .mul | .sub =>
      Classifies (after.fp.get destination) before.fpsr after.fpsr
  | control .read .fpsr => ∃ operand, (readOperand m.cpu.field .long m).1 = .ok operand ∧
    after.fpsr = operand.setWidth 32
  | control _ _ | store _ _ | multiple _ _ => after.fpsr = before.fpsr

/-- An operation other than the load of the register keeps it or classifies some double. -/
theorem Operation.LeavesStatus.cases {op : Operation RegisterNumber} {m : Machine β}
    {before after : Cpu} (h : op.LeavesStatus m before after) :
    after.fpsr = before.fpsr ∨ (∃ d, Classifies d before.fpsr after.fpsr) ∨
      op = .control .read .fpsr := by
  cases op with
  | general source destination opmode =>
    cases opmode with
    | move | div => exact Or.inl h
    | cmp | tst =>
      obtain ⟨value, -, hStatus⟩ := h
      exact Or.inr (Or.inl ⟨_, hStatus⟩)
    | sqrt | abs | neg | add | mul | sub => exact Or.inr (Or.inl ⟨_, h⟩)
  | store source format => exact Or.inl h
  | multiple access list => exact Or.inl h
  | control access register =>
    cases access <;> cases register <;> first | exact Or.inl h | exact Or.inr (Or.inr rfl)

theorem leavesStatus_general {source : Source RegisterNumber} {destination : RegisterNumber}
    {opmode : Opmode} {m : Machine β} (h : (general source destination opmode m).1 = .ok ()) :
    (Operation.general source destination opmode).LeavesStatus m m.cpu
      (general source destination opmode m).2.cpu := by
  obtain ⟨value, hSource⟩ := exists_sourced_of_ok h
  obtain ⟨-, hUnit⟩ := general_of_sourced hSource destination opmode
  have hFp : (general source destination opmode m).2.cpu.fp =
      (m.cpu.unit.operate opmode destination value).fp := congrArg UnitRegisters.fp hUnit
  have hFpsr : (general source destination opmode m).2.cpu.fpsr =
      (m.cpu.unit.operate opmode destination value).fpsr := congrArg UnitRegisters.fpsr hUnit
  have hClass (hSets : opmode.setsCodes = true) :
      Classifies (opmode.value (m.cpu.fp.get destination) value) m.cpu.fpsr
        (general source destination opmode m).2.cpu.fpsr := by
    rw [hFpsr]
    exact classifies_operate hSets m.cpu.unit destination value
  cases opmode with
  | move | div => exact hFpsr
  | cmp | tst => exact ⟨value, hSource, hClass rfl⟩
  | sqrt | abs | neg | add | mul | sub =>
    show Classifies _ _ _
    rw [hFp, UnitRegisters.get_operate rfl]
    exact hClass rfl

theorem leavesStatus_operation {op : Operation RegisterNumber} {m : Machine β}
    (h : (operation op m).1 = .ok ()) : op.LeavesStatus m m.cpu (operation op m).2.cpu := by
  cases op with
  | general source destination opmode => exact leavesStatus_general h
  | store source format => exact keeps_store Cpu.apart_fpsr source format m
  | multiple access list => exact keeps_multiple Cpu.apart_fpsr (fun _ _ => rfl) access list m
  | control access register =>
    cases access with
    | write =>
      have hKept : Keeps Cpu.fpsr (control .write register : Exec β _) :=
        keeps_control Cpu.apart_fpsr fun hAccess => nomatch hAccess
      cases register <;> exact hKept m
    | read =>
      cases register with
      | fpsr => exact control_read_of_ok h
      | fpiar => exact keeps_control Cpu.apart_fpsr (fun _ _ _ => rfl) m
      | fpcr => exact keeps_control Cpu.apart_fpsr (fun _ _ _ => rfl) m

/-! ### Transitions -/

/-- An instruction of the general group that carries out no operation leaves the status
register alone. -/
theorem fpsr_generalGroup {m : Machine β}
    (h : ¬ (m.cpu.ir.extractLsb' 6 2 = 0 ∧ (generalGroup m).1.isOk)) :
    (generalGroup m).2.cpu.fpsr = m.cpu.fpsr := by
  cases hResult : (generalGroup m).1 with
  | ok a =>
    rw [hResult] at h
    exact keeps_generalGroup Cpu.apart_fpsr fun hClass => h ⟨hClass, rfl⟩
  | error fault =>
    obtain ⟨-, hLeft⟩ := generalGroup_error hResult
    split at hLeft
    · rw [hLeft.cpu]
    · rw [hLeft.cpu]

namespace Transition

/-- The operation that has been carried out.  There is none where the instruction is refused,
is a branch or moves a state frame. -/
def operation? (t : Transition β) : Option (Operation RegisterNumber) :=
  if t.turn.group = .general ∧ t.begun.cpu.ir.extractLsb' 6 2 = 0 ∧ t.result.isOk then
    (Operation.ofExtension (Bus.readWord t.begun.cpu.pc t.begun.bus).1).toOption
  else none

/-- What a transition makes of the status register. -/
def LeavesStatus (t : Transition β) : Prop :=
  match t.operation? with
  | some op => op.LeavesStatus (decoded t.begun op) t.before.cpu t.after.cpu
  | none => t.after.cpu.fpsr = t.before.cpu.fpsr

/-- A transition that carries out an operation does nothing else. -/
theorem operation_of_some {t : Transition β} {op : Operation RegisterNumber}
    (h : t.operation? = some op) :
    (operation op (decoded t.begun op)).1 = .ok () ∧
      t.after = (operation op (decoded t.begun op)).2 := by
  rw [operation?] at h
  by_cases hCarried :
    t.turn.group = .general ∧ t.begun.cpu.ir.extractLsb' 6 2 = 0 ∧ t.result.isOk
  · rw [if_pos hCarried] at h
    obtain ⟨hGroup, hClass, hOk⟩ := hCarried
    rw [result, hGroup] at hOk
    obtain ⟨op', hWord, hDone, hRun⟩ := exists_operation_of_ok hClass hOk
    rw [hWord] at h
    obtain rfl : op' = op := Option.some.inj h
    rw [after, hGroup]
    exact ⟨hDone, congrArg Prod.snd hRun⟩
  · rw [if_neg hCarried] at h
    cases h

theorem fpsr_of_none {t : Transition β} (h : t.operation? = none) :
    t.after.cpu.fpsr = t.before.cpu.fpsr := by
  have hBegun : t.begun.cpu.fpsr = t.before.cpu.fpsr := rfl
  rw [operation?] at h
  cases hGroup : t.turn.group with
  | frame =>
    rw [after, hGroup]
    exact (keeps_frameGroup Cpu.apart_fpsr t.begun).trans hBegun
  | general =>
    rw [result, hGroup, Group.execute] at h
    rw [after, hGroup, Group.execute]
    by_cases hCarried : t.begun.cpu.ir.extractLsb' 6 2 = 0 ∧ (generalGroup t.begun).1.isOk
    · obtain ⟨op, hWord, -, -⟩ := exists_operation_of_ok hCarried.1 hCarried.2
      rw [if_pos ⟨rfl, hCarried⟩, hWord] at h
      cases h
    · -- what is refused or has no extension word
      exact (fpsr_generalGroup hCarried).trans hBegun

theorem leavesStatus (t : Transition β) : t.LeavesStatus := by
  rw [LeavesStatus]
  cases hOp : t.operation? with
  | some op =>
    obtain ⟨hOk, hAfter⟩ := operation_of_some hOp
    rw [hAfter]
    exact leavesStatus_operation hOk
  | none => exact fpsr_of_none hOp

/-- Codes that are exclusive stay so until the status register is loaded. -/
theorem exclusive_after {t : Transition β} (hLoad : t.operation? ≠ some (.control .read .fpsr))
    (h : t.before.cpu.codes.Exclusive) : t.after.cpu.codes.Exclusive := by
  have hSame (hStatus : t.after.cpu.fpsr = t.before.cpu.fpsr) : t.after.cpu.codes.Exclusive := by
    rwa [Cpu.codes, hStatus]
  have hLeaves := t.leavesStatus
  rw [LeavesStatus] at hLeaves
  cases hOp : t.operation? with
  | none =>
    rw [hOp] at hLeaves
    exact hSame hLeaves
  | some op =>
    rw [hOp] at hLeaves hLoad
    rcases hLeaves.cases with hStatus | ⟨d, hStatus⟩ | rfl
    · exact hSame hStatus
    · rw [Cpu.codes, hStatus.codes]
      exact ConditionCodes.exclusive_ofDouble d
    · exact absurd rfl hLoad

end Transition

/-- **The status register over runs.**  On any bus and from any machine, every transition
of a run changes the status register as `Operation.LeavesStatus` says of the operation that
it carries out, and not at all if it carries out none.  So a run that starts with clear codes
and does not load the register only meets exclusive codes, under which each condition holds
where its opposite does not. -/
theorem status_over_runs (m : Machine β) (turns : List (Turn β)) :
    (∀ t ∈ m.history turns, t.LeavesStatus) ∧
    (m.cpu.codes = ⟨false, false, false, false⟩ →
      (∀ t ∈ m.history turns, t.operation? ≠ some (.control .read .fpsr)) →
      ∀ m' ∈ m.reached turns, m'.cpu.codes.Exclusive ∧
        ∀ condition : Condition,
          condition.opposite.holds m'.cpu.codes = !condition.holds m'.cpu.codes) := by
  refine ⟨fun t _ => t.leavesStatus, fun hClear hLoads => ?_⟩
  have hFirst : m.cpu.codes.Exclusive := by
    rw [hClear]
    decide
  have hExclusive : ∀ m' ∈ m.reached turns, m'.cpu.codes.Exclusive :=
    Machine.forall_mem_reached hFirst fun t ht => Transition.exclusive_after (hLoads t ht)
  intro m' hm
  exact ⟨hExclusive m' hm, Condition.holds_opposite (hExclusive m' hm)⟩

/-- A sum of zeros, a refused instruction, a quotient of zeros, its test and a frame. -/
def testsQuotient : Machine Ram :=
  .begun 0 [0xF200, 0x0022, 0xF240, 0xF200, 0x0020, 0xF200, 0x003A, 0xF350]

def testsQuotientTurns : List (Turn Ram) :=
  [⟨id, .general⟩, ⟨id, .general⟩, ⟨id, .general⟩, ⟨id, .general⟩, ⟨id, .frame⟩]

/-- The zero of the sum stays in the codes until the test puts the NaN there. -/
theorem status_over_runs_quotient :
    ((testsQuotient.reached testsQuotientTurns).map fun m => (m.cpu.codes.zero, m.cpu.codes.nan)) =
      [(false, false), (true, false), (true, false), (true, false), (false, true), (false, true)] ∧
    (∀ t ∈ testsQuotient.history testsQuotientTurns, t.LeavesStatus) ∧
    ∀ m' ∈ testsQuotient.reached testsQuotientTurns, m'.cpu.codes.Exclusive ∧
      ∀ condition : Condition,
        condition.opposite.holds m'.cpu.codes = !condition.holds m'.cpu.codes := by
  obtain ⟨hEvery, hExclusive⟩ := status_over_runs testsQuotient testsQuotientTurns
  have hLoads : ∀ t ∈ testsQuotient.history testsQuotientTurns,
      t.operation? ≠ some (.control .read .fpsr) := by
    decide +kernel
  exact ⟨by decide +kernel, hEvery, hExclusive rfl hLoads⟩

end M68kFloat
