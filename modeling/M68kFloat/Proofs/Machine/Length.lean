import M68kFloat.Proofs.Machine.Execution

/-!
# How long instructions are

`Instruction.length` is the number of bytes of an instruction as the encoding has it: two for
the opcode, those of an extension word or a displacement, and those that the mode of the operand
takes.  `length_of_accepted` says that an instruction that is accepted leaves the program
counter that many bytes further on, unless it jumps, and that it has read these bytes one after
the other and each of them once.  The operand counts only where there is one: the field of an
operation between registers, or of a branch, may hold any mode and takes nothing.
-/

namespace M68kFloat

open BusCall Exec

/-- The number of bytes of an instruction with a field, where `next` is the word that follows
the opcode and the extension word. -/
def Instruction.length (ins : Instruction) (field : Byte) (next : Word) : Nat :=
  2 + ins.wordBytes + (ins.operandThrough? field).elim 0 fun operand =>
    operand.mode.streamBytes operand.size next

/-- An instruction with an opcode has begun at the program counter of `m`, which has moved past
the opcode. -/
structure Machine.Begins (m : Machine Ram) (opcode : Word) (begun : Machine Ram) : Prop where
  cpu : begun.cpu = (m.cpu.advance 2).setup opcode
  bus : begun.bus = m.bus

theorem Machine.begins_fetchOpcode (m : Machine Ram) :
    m.Begins (m.bus.memory.peekWord m.cpu.pc) (fetchOpcode m).2 := by
  have hCpu : (fetchOpcode m).2.cpu = { m.cpu.advance 2 with
      ir := m.bus.memory.peekWord m.cpu.pc
      start := m.cpu.pc } := rfl
  have hStart : (m.cpu.advance 2).pc - 2 = m.cpu.pc := BitVec.add_sub_cancel _ _
  refine ⟨?_, rfl⟩
  rw [hCpu, Cpu.setup, hStart]

/-! ### What is read from the stream -/

namespace BusCall

theorem replay_of_isStream {call : BusCall} (h : call.IsStream) (ram : Ram) :
    call.replay ram = ram := by
  obtain ⟨width, a, value, rfl⟩ := h.exists_eq
  cases width <;> rfl

theorem foldl_replay_of_isStream {calls : List BusCall} (h : ∀ call ∈ calls, call.IsStream)
    (ram : Ram) : calls.foldl replay ram = ram := by
  induction calls with
  | nil => rfl
  | cons call calls ih =>
    rw [List.forall_mem_cons] at h
    rw [List.foldl_cons, replay_of_isStream h.1, ih h.2]

end BusCall

namespace Instruction

variable {ins : Instruction} {m m' : Machine Ram} {values : List Quad} {stream : List BusCall}

/-- The word at which the mode of an operand begins. -/
theorem nextWord_prepared (h : ins.Prepares m (ins.prepared m) stream)
    (hJumps : ins.jumps m.cpu.codes = false) : (ins.prepared m).nextWord =
      m.bus.memory.peekWord (m.cpu.pc + BitVec.ofNat 32 ins.wordBytes) := by
  have hBus : (ins.prepared m).bus = m.bus := by
    rw [h.made.bus, cancels, hJumps, if_neg Bool.false_ne_true, List.append_nil]
    exact foldl_replay_of_isStream h.tiles.stream m.bus
  rw [Machine.nextWord, h.pc hJumps, hBus]
  rfl

/-- The words of the operand, counted from the memory. -/
theorem streamBytes_prepared (h : ins.Prepares m (ins.prepared m) stream) :
    (ins.operandThrough? m.cpu.field).elim 0 (fun operand => operand.streamBytes (ins.prepared m)) =
      (ins.operandThrough? m.cpu.field).elim 0 fun operand =>
        operand.mode.streamBytes operand.size
          (m.bus.memory.peekWord (m.cpu.pc + BitVec.ofNat 32 ins.wordBytes)) := by
  cases hOperand : ins.operandThrough? m.cpu.field with
  | none => rfl
  | some operand =>
    rw [Option.elim_some, Option.elim_some, Operand.streamBytes,
      nextWord_prepared h (jumps_of_operand hOperand _)]

/-- The bytes that an instruction has read from the stream. -/
theorem Executed.flatMap_streamed (h : ins.Prepares m (ins.prepared m) stream)
    (hExecuted : ins.Executed values (ins.prepared m) m') :
    (m'.callsSince m).flatMap streamed = addressesFrom m.cpu.pc (ins.wordBytes +
      (ins.operandThrough? m.cpu.field).elim 0 fun operand =>
        operand.streamBytes (ins.prepared m)) := by
  obtain ⟨words, pointer, hCalls, hTiles, hPointer⟩ := hExecuted.exists_calls h
  have hOperands : ((ins.operandThrough? m.cpu.field).elim [] fun operand =>
      operand.calls (ins.prepared m) values).flatMap streamed = [] := by
    cases ins.operandThrough? m.cpu.field with
    | none => rfl
    | some operand =>
      refine List.flatMap_eq_nil_iff.mpr fun call hCall => ?_
      exact streamed_of_movesOperand (operand.movesOperand_calls _ values call hCall)
  have hRest : pointer.flatMap streamed = [] ∧ (ins.cancels m.cpu.codes).flatMap streamed = [] := by
    constructor
    · rcases hPointer.eq_nil_or with rfl | ⟨a, value, rfl⟩ <;> rfl
    · rcases ins.cancels_eq_nil_or m.cpu.codes with hNone | hOne
      · rw [hNone]; rfl
      · rw [hOne]; rfl
  rw [Machine.callsSince_eq hCalls.recorded, List.flatMap_append, List.flatMap_append,
    List.flatMap_append, hTiles.bytes, hRest.1, hOperands, hRest.2]
  simp only [List.append_nil]

/-- Where an instruction that does not jump leaves the program counter. -/
theorem Executed.pc (h : ins.Prepares m (ins.prepared m) stream)
    (hExecuted : ins.Executed values (ins.prepared m) m')
    (hJumps : ins.jumps m.cpu.codes = false) :
    m'.cpu.pc = m.cpu.pc + BitVec.ofNat 32 (ins.wordBytes +
      (ins.operandThrough? m.cpu.field).elim 0 fun operand =>
        operand.streamBytes (ins.prepared m)) := by
  rw [hExecuted.reached.pc, h.kept.1, h.pc hJumps, BitVec.ofNat_add, BitVec.add_assoc]

end Instruction

/-- **Instructions are as long as they are encoded.**  An instruction begins by the fetch of its
opcode, or the host moves the program counter past the opcode and sets the processor up, which
leaves the same processor.  If it is accepted then and does not jump, the program counter ends
behind it.  The bytes that it has read from the stream are those that follow the opcode, in this
order and each of them once. -/
theorem length_of_accepted {m begun : Machine Ram} {opcode : Word} {group : Group}
    (hBegun : m.Begins opcode begun) (hOk : (group.execute begun).1 = .ok ()) :
    let after := (group.execute begun).2
    m.Begins (m.bus.memory.peekWord m.cpu.pc) (fetchOpcode m).2 ∧
    ∃ ins, Instruction.ofWords? group opcode (m.bus.memory.peekWord (m.cpu.pc + 2)) = some ins ∧
      let length := ins.length begun.cpu.field
        (m.bus.memory.peekWord (m.cpu.pc + 2 + BitVec.ofNat 32 ins.wordBytes))
      (ins.jumps m.cpu.codes = false → after.cpu.pc = m.cpu.pc + BitVec.ofNat 32 length) ∧
      (after.callsSince begun).flatMap streamed =
        addressesFrom (m.cpu.pc + 2) (length - 2) := by
  intro after
  obtain ⟨ins, values, hWords, hExecuted⟩ := group.exists_executed hOk
  obtain ⟨stream, hPrepares⟩ := ins.exists_prepares begun
  have hPc : begun.cpu.pc = m.cpu.pc + 2 := by rw [hBegun.cpu]; rfl
  have hCodes : begun.cpu.codes = m.cpu.codes := by rw [hBegun.cpu]; rfl
  have hBytes := Instruction.streamBytes_prepared hPrepares
  have hRead := hExecuted.flatMap_streamed hPrepares
  rw [hBytes, hBegun.bus, hPc] at hRead
  refine ⟨m.begins_fetchOpcode, ins, ?_, ?_, ?_⟩
  · rw [Machine.instruction?, Machine.nextWord, hPc, hBegun.bus, hBegun.cpu] at hWords
    exact hWords
  · intro hJumps
    rw [← hCodes] at hJumps
    have hEnd := hExecuted.pc hPrepares hJumps
    rw [hBytes, hBegun.bus, hPc] at hEnd
    rw [Instruction.length, Nat.add_assoc, BitVec.ofNat_add, ← BitVec.add_assoc]
    exact hEnd
  · rw [Instruction.length, Nat.add_assoc, Nat.add_sub_cancel_left]
    exact hRead

/-- The move of a long from four above the pointer at A0 and D0 and 0x2000, with a full index
word that has both displacements. -/
def movesThroughPointer : Machine Ram :=
  .begun 0 [0xF230, 0x4000, 0x0132, 0x0000, 0x2000, 0x0004]

theorem length_of_accepted_through_pointer :
    let begun := (fetchOpcode movesThroughPointer).2
    let after := (generalGroup begun).2
    (generalGroup begun).1 = .ok () ∧ after.cpu.pc = 0x1002 + 12 ∧
      (after.callsSince begun).flatMap streamed = addressesFrom 0x1004 10 := by
  have hOk : (Group.general.execute (fetchOpcode movesThroughPointer).2).1 = .ok () := rfl
  obtain ⟨-, ins, hWords, hPc, hBytes⟩ :=
    length_of_accepted movesThroughPointer.begins_fetchOpcode hOk
  obtain rfl : Instruction.operation (.general (.memory .long) 0 .move) = ins :=
    Option.some.inj hWords
  exact ⟨hOk, hPc rfl, hBytes⟩

end M68kFloat
