import M68kFloat.Proofs.Binary.Reflexivity
import M68kFloat.Proofs.Operand.Fetching

/-!
# Where branches lead

A displacement is relative to its own address, but a branch jumps when the program counter is
behind it.  So the bytes of the displacement are taken off first, from a word among the signed
numbers and from a long modulo `2 ^ 32`, and what remains is added to the program counter.  Both
ways the target is the address of the displacement plus the displacement, with the sign of a word
extended (`Instruction.bytes_add_fetchOffset`), and the sum wraps only at the end of the address
space (`Machine.Branched`).  The trace is cancelled before the jump.

A displacement that is a word can be given as a long as well.  Where the branch is taken, this
makes no difference (`Machine.Branched.forms_agree`): the form shows in the program counter only
where it is not taken.
-/

namespace M68kFloat

open Exec BusCall

/-- The processor apart from the opcode that it executes. -/
def Cpu.withoutOpcode (cpu : Cpu) : Cpu := { cpu with ir := 0 }

namespace Machine

variable {m m' after after' : Machine Ram} {form : BranchForm} {condition : Condition}

/-- The displacement at the program counter, as a long. -/
def displacement (m : Machine Ram) : BranchForm → Long
  | .word => (m.bus.memory.peekWord m.cpu.pc).signExtend 32
  | .long => m.bus.memory.peekLong m.cpu.pc

/-- The read of a displacement. -/
def displacementReads (m : Machine Ram) : BranchForm → List BusCall
  | .word => [wordRead m]
  | .long => [longRead m]

theorem fetchDisplacement_eq (m : Machine Ram) (form : BranchForm) :
    fetchDisplacement form.width m = (m.displacement form,
      fetched m (BitVec.ofNat 32 form.width.bytes) (m.displacementReads form)) := by
  cases form with
  | word => rfl
  | long => exact fetchLong_ram m

theorem fetchOffset_left (m : Machine Ram) (form : BranchForm) : (fetchOffset form m).2 =
    fetched m (BitVec.ofNat 32 form.width.bytes) (m.displacementReads form) := by
  rw [fetchOffset_snd, fetchDisplacement_eq]

/-- A branch has been carried out.  Of the processor only the program counter and the cycles differ,
and of the bus only the count of cancelled traces. -/
structure Branched (before after : Machine Ram) (form : BranchForm) (taken : Bool) : Prop where
  cpu : after.cpu = { before.cpu with
    pc := before.cpu.pc +
      if taken then before.displacement form else BitVec.ofNat 32 form.width.bytes
    cycles := before.cpu.cycles + before.cpu.costs.branch.setWidth 64 }
  bus : after.bus = { before.bus with
    traceCancels := before.bus.traceCancels + if taken then 1 else 0 }
  calls : after.calls =
    before.calls ++ before.displacementReads form ++ if taken then [.cancelTrace] else []
  /-- When the trace is cancelled, the program counter is behind the displacement. -/
  hook : taken = true → ∃ hooked : Machine Ram,
    cancelTrace (fetchOffset form before).2 = ((), hooked) ∧
      hooked.cpu.pc = before.cpu.pc + BitVec.ofNat 32 form.width.bytes ∧
      hooked.calls = after.calls ∧ hooked.bus = after.bus

theorem branched_prepared (m : Machine Ram) (condition : Condition) (form : BranchForm) :
    let prepared := (Instruction.branch condition form).prepared m
    m.Branched { prepared with cpu := prepared.cpu.charge m.cpu.costs.branch } form
      (condition.holds m.cpu.codes) := by
  have hLeft := m.fetchOffset_left form
  cases h : condition.holds m.cpu.codes with
  | true =>
    have hTarget := Instruction.pc_prepared_of_jumps h form
    rw [fetchDisplacement_eq] at hTarget
    rw [Instruction.prepared_branch_of_holds h, hLeft] at hTarget ⊢
    refine ⟨?_, rfl, rfl, fun _ => ?_⟩
    · rw [if_pos rfl, ← hTarget]
      rfl
    · rw [hLeft]
      exact ⟨_, rfl, rfl, rfl, rfl⟩
  | false =>
    rw [Instruction.prepared_branch_of_not h, hLeft]
    have hCount : m.bus.traceCancels + 0 = m.bus.traceCancels := BitVec.add_zero _
    refine ⟨rfl, ?_, (List.append_nil _).symm, fun hTaken => absurd hTaken Bool.false_ne_true⟩
    show m.bus = { m.bus with traceCancels := m.bus.traceCancels + 0 }
    rw [hCount]

theorem branched_of_instruction (h : m.instruction? .general = some (.branch condition form)) :
    (generalGroup m).1 = .ok () ∧
      m.Branched (generalGroup m).2 form (condition.holds m.cpu.codes) := by
  rw [generalGroup_eq_prepared h]
  exact ⟨rfl, branched_prepared m condition form⟩

/-! ### Words and longs -/

theorem Branched.cancels_of_taken (h : m.Branched after form true) :
    (after.callsSince m).filter (· = .cancelTrace) = [.cancelTrace] := by
  have hCalls : after.calls = m.calls ++ (m.displacementReads form ++ [.cancelTrace]) := by
    rw [h.calls, if_pos rfl, List.append_assoc]
  rw [callsSince_eq hCalls, List.filter_append]
  cases form <;> rfl

/-- **A branch that is taken does not show its form.** -/
theorem Branched.forms_agree (h : m.Branched after .word true) (h' : m'.Branched after' .long true)
    (hCpu : m'.cpu.withoutOpcode = m.cpu.withoutOpcode)
    (hSame : m'.displacement .long = m.displacement .word) :
    after'.cpu.withoutOpcode = after.cpu.withoutOpcode := by
  have hPc : m'.cpu.pc = m.cpu.pc := (congrArg Cpu.pc hCpu :)
  have hCycles : m'.cpu.cycles = m.cpu.cycles := (congrArg Cpu.cycles hCpu :)
  have hCosts : m'.cpu.costs = m.cpu.costs := (congrArg Cpu.costs hCpu :)
  calc after'.cpu.withoutOpcode
      = { m'.cpu.withoutOpcode with
          pc := m'.cpu.pc + m'.displacement .long
          cycles := m'.cpu.cycles + m'.cpu.costs.branch.setWidth 64 } := by rw [h'.cpu]; rfl
    _ = { m.cpu.withoutOpcode with
          pc := m.cpu.pc + m.displacement .word
          cycles := m.cpu.cycles + m.cpu.costs.branch.setWidth 64 } := by
        rw [hCpu, hPc, hSame, hCycles, hCosts]
    _ = after.cpu.withoutOpcode := by rw [h.cpu]; rfl

end Machine

namespace Exec

/-- **Branches reach their target, in either form.**  Whatever the state, a branch whose condition
is implemented is carried out.  It is taken if the condition holds on the codes of the status
register.  Then the program counter is where it was plus the displacement, as a long sum, and the
trace has been cancelled once, before the jump.  Otherwise the program counter is behind the
displacement and nothing was cancelled.  Apart from the cycles nothing else of the processor
changes, and no memory.  The offset from behind the displacement, with which the target is
computed, is a signed long even where nothing wraps.

A word and the long with its value, at the same place on processors that differ in the opcode only,
leave such processors again when they are taken, with the same cancelled trace. -/
theorem branches_reach_target {m : Machine Ram} {condition : Condition} {form : BranchForm}
    (h : m.instruction? .general = some (.branch condition form)) :
    (generalGroup m).1 = .ok () ∧
    m.Branched (generalGroup m).2 form (condition.holds m.cpu.codes) ∧
    (-0x80000000 ≤ (fetchOffset form m).1 ∧ (fetchOffset form m).1 < 0x80000000) ∧
    ∀ m' : Machine Ram, form = .word →
      m'.instruction? .general = some (.branch condition .long) →
      m'.cpu.withoutOpcode = m.cpu.withoutOpcode →
      m'.bus.memory.peekLong m'.cpu.pc = (m.bus.memory.peekWord m.cpu.pc).signExtend 32 →
      condition.holds m.cpu.codes = true →
      (generalGroup m').2.cpu.withoutOpcode = (generalGroup m).2.cpu.withoutOpcode ∧
      ((generalGroup m').2.callsSince m').filter (· = .cancelTrace) =
        ((generalGroup m).2.callsSince m).filter (· = .cancelTrace) ∧
      (generalGroup m').2.bus.traceCancels - m'.bus.traceCancels =
        (generalGroup m).2.bus.traceCancels - m.bus.traceCancels := by
  obtain ⟨hOk, hBranched⟩ := Machine.branched_of_instruction h
  refine ⟨hOk, hBranched, fetchOffset_bounds form m, fun m' hForm h' hCpu hSame hHolds => ?_⟩
  subst hForm
  have hStatus : m'.cpu.fpsr = m.cpu.fpsr := (congrArg Cpu.fpsr hCpu :)
  have hCodes : m'.cpu.codes = m.cpu.codes := congrArg ConditionCodes.ofStatus hStatus
  obtain ⟨-, hBranched'⟩ := Machine.branched_of_instruction h'
  rw [hCodes, hHolds] at hBranched'
  rw [hHolds] at hBranched
  refine ⟨hBranched.forms_agree hBranched' hCpu hSame, ?_, ?_⟩
  · rw [hBranched.cancels_of_taken, hBranched'.cancels_of_taken]
  · rw [hBranched.bus, hBranched'.bus]
    show m'.bus.traceCancels + 1 - m'.bus.traceCancels = m.bus.traceCancels + 1 - m.bus.traceCancels
    bv_omega

/-- A branch on "always" at the least word displacement. -/
def branchesBack : Machine Ram := .begun 0xF28F [0x8000]

/-- The same displacement as a long. -/
def branchesBackLong : Machine Ram := .begun 0xF2CF [0xFFFF, 0x8000]

/-- The least word displacement leads below the first address. -/
theorem branches_reach_target_below_zero :
    (generalGroup branchesBack).2.cpu.pc = 0xFFFF9002 ∧
      (generalGroup branchesBack).2.bus.traceCancels = 1 ∧
      (generalGroup branchesBackLong).2.cpu.withoutOpcode =
        (generalGroup branchesBack).2.cpu.withoutOpcode := by
  have hWord : branchesBack.instruction? .general = some (.branch .always .word) := by
    decide +kernel
  have hLong : branchesBackLong.instruction? .general = some (.branch .always .long) := by
    decide +kernel
  have hSame : branchesBackLong.bus.memory.peekLong branchesBackLong.cpu.pc =
      (branchesBack.bus.memory.peekWord branchesBack.cpu.pc).signExtend 32 := by decide +kernel
  obtain ⟨-, hBranched, -, hAgree⟩ := branches_reach_target hWord
  refine ⟨?_, ?_, (hAgree branchesBackLong rfl hLong rfl hSame rfl).1⟩
  · rw [hBranched.cpu]
    decide +kernel
  · rw [hBranched.bus]
    rfl

end Exec

end M68kFloat
