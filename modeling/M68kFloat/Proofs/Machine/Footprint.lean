import M68kFloat.Proofs.Machine.Execution
import M68kFloat.Proofs.RegisterList.Restore

/-!
# The footprint of an instruction

What an accepted instruction can change at all, and where.  The registers of the unit are
changed by its moves alone, the data and address registers by the access to its operand, and the
memory by its writes, which lie in the operands.  `footprint_of_accepted` puts this together for
every instruction and every addressing mode.
-/

namespace M68kFloat

open Memory BusCall

namespace Instruction

/-- The instructions that put operands down. -/
def stores : Instruction → Bool
  | operation (.store _ _) => true
  | operation (.control access _) => access = .write
  | operation (.multiple access _) => access = .write
  | saveFrame => true
  | _ => false

/-- The floating-point register `n` is one that an instruction writes.  A load of registers
counts them from the other end of the list. -/
def WritesFp (n : RegisterNumber) : Instruction → Prop
  | operation (.general _ destination opmode) => n = destination ∧ opmode ≠ .cmp ∧ opmode ≠ .tst
  | operation (.multiple .read list) =>
    ∃ bit : RegisterNumber, list.getLsbD bit.toNat = true ∧ n = 7 - bit
  | _ => False

/-- The number of operands of an instruction that has any. -/
def operandCount : Instruction → Nat
  | operation (.multiple _ list) => list.cpop.toNat
  | _ => 1

/-- What an instruction that has been carried out leaves alone.  Data registers keep the bytes
above an operand that is put there.  An address register changes where the mode steps over its
operands, by their widths, or where it is the operand itself. -/
structure Footprint (ins : Instruction) (m after : Machine Ram) : Prop where
  fp : ∀ n, after.cpu.fp.get n ≠ m.cpu.fp.get n → ins.WritesFp n
  control : ∀ register, register ≠ .fpsr →
    after.cpu.control register ≠ m.cpu.control register →
    ins = .operation (.control .read register)
  d : ∀ n, after.cpu.d.get n ≠ m.cpu.d.get n → ins.stores = true ∧
    ∃ size, ins.operandThrough? m.cpu.field = some ⟨.dataRegister n, size, .write⟩ ∧
      (size = .byte ∨ size = .word ∨ size = .long) ∧
      ∀ k, 8 * size.bytes ≤ k → (after.cpu.d.get n).getLsbD k = (m.cpu.d.get n).getLsbD k
  a : (after.cpu.a = (ins.operandThrough? m.cpu.field).elim m.cpu.a fun operand =>
      operand.mode.stepped (operand.size.bytes * ins.operandCount) m.cpu.a) ∨
    ins.stores = true ∧ ∃ n value, after.cpu.a = m.cpu.a.set n value ∧
      ins.operandThrough? m.cpu.field = some ⟨.addressRegister n, .long, .write⟩
  memory : ∀ b, after.bus.memory.peek b ≠ m.bus.memory.peek b → ins.stores = true ∧
    ∃ operand a, ins.operandThrough? m.cpu.field = some operand ∧
      a ∈ operand.addresses (ins.prepared m) ins.operandCount ∧ Within a operand.size.bytes b
  kept : after.cpu.ir = m.cpu.ir ∧ after.cpu.start = m.cpu.start ∧ after.cpu.costs = m.cpu.costs

/-! ### The registers of the unit -/

variable {ins : Instruction}

theorem fp_operate {n destination : RegisterNumber} {opmode : Opmode}
    (h : ¬ (n = destination ∧ opmode ≠ .cmp ∧ opmode ≠ .tst)) (unit : UnitRegisters) (d : Double) :
    (unit.operate opmode destination d).fp.get n = unit.fp.get n := by
  rw [UnitRegisters.operate]
  by_cases hDestination : n = destination
  · have hWrites : opmode.writes = false := by
      cases opmode <;> first | rfl | exact absurd ⟨hDestination, by decide, by decide⟩ h
    rw [hWrites]
    rfl
  · dsimp only
    split
    · exact Table.get_set_ne _ _ hDestination
    · rfl

theorem moves_keep_fp {n : RegisterNumber} (h : ¬ ins.WritesFp n) :
    ∀ move ∈ ins.moves, ∀ value unit, (move.finish value unit).fp.get n = unit.fp.get n := by
  intro move hMove value unit
  cases ins.finishes hMove with
  | arithmetic hIns hFinish =>
    subst hIns
    obtain ⟨d, hFinish⟩ := hFinish value unit
    rw [hFinish]
    exact fp_operate h unit d
  | @control register hIns hFinish =>
    obtain ⟨x, hFinish⟩ := hFinish value unit
    rw [hFinish]
    cases register <;> rfl
  | @register list bit hIns hBit hFinish =>
    subst hIns
    obtain ⟨d, hFinish⟩ := hFinish value unit
    rw [hFinish]
    exact Table.get_set_ne _ _ fun hn => h ⟨bit, (mem_listed list bit).mp hBit, hn⟩
  | nothing hFinish => rw [hFinish]

theorem moves_keep_control {register : ControlRegister} (hStatus : register ≠ .fpsr)
    (h : ins ≠ .operation (.control .read register)) :
    ∀ move ∈ ins.moves, ∀ value unit,
      (move.finish value unit).control register = unit.control register := by
  intro move hMove value unit
  cases ins.finishes hMove with
  | arithmetic hIns hFinish =>
    obtain ⟨d, hFinish⟩ := hFinish value unit
    rw [hFinish]
    cases register <;> first | rfl | exact absurd rfl hStatus
  | @control loaded hIns hFinish =>
    obtain ⟨x, hFinish⟩ := hFinish value unit
    rw [hFinish]
    subst hIns
    cases register <;> cases loaded <;> first | rfl | exact absurd rfl h
  | register hIns hBit hFinish =>
    obtain ⟨d, hFinish⟩ := hFinish value unit
    rw [hFinish]
    cases register <;> rfl
  | nothing hFinish => rw [hFinish]

/-! ### The operand -/

theorem stores_of_write {size : Size} (h : ins.operand? = some (size, .write)) :
    ins.stores = true := by
  cases ins with
  | operation op =>
    cases op with
    | general source destination opmode => cases source <;> cases h
    | store source format => rfl
    | control access register =>
      obtain rfl : access = .write := congrArg Prod.snd (Option.some.inj h)
      rfl
    | multiple access list =>
      rw [operand?, Operation.operand?] at h
      split at h
      · cases h
      · obtain rfl : access = .write := congrArg Prod.snd (Option.some.inj h)
        rfl
  | branch condition form => cases h
  | saveFrame => rfl
  | restoreFrame => cases h

theorem length_moves (ins : Instruction) : ins.moves.length = ins.operandCount := by
  cases ins with
  | operation op =>
    cases op with
    | general source destination opmode => cases source <;> rfl
    | store source format => rfl
    | control access register => cases access <;> rfl
    | multiple access list =>
      rw [moves, Operation.moves, List.length_map, length_listed]
      rfl
  | branch condition form | saveFrame | restoreFrame => rfl

/-- What writes the byte at `b` among the calls of operands is the write of an operand that the
byte belongs to. -/
theorem exists_address_of_writes {operand : Operand} {m : Machine Ram} {values : List Quad}
    {call : BusCall} {b : Long} (hCall : call ∈ operand.calls m values) (h : call.Writes b) :
    operand.access = .write ∧
      ∃ a ∈ operand.addresses m values.length, Within a operand.size.bytes b := by
  obtain ⟨⟨a, value⟩, hPair, hCall⟩ := List.mem_flatMap.mp hCall
  have hMoves := movesOperand_operandCalls _ _ _ _ call hCall
  have hWrite : operand.access = .write := by
    obtain ⟨width, a, value, ⟨-, rfl⟩ | ⟨hWrite, -⟩⟩ := hMoves.exists_eq
    · exact h.elim
    · exact hWrite
  rw [hWrite] at hCall
  exact ⟨hWrite, a, (List.of_mem_zip hPair).1,
    (Exec.exists_operandWrites_writes a operand.size value b).mp ⟨call, hCall, h⟩⟩

section

variable {m m' : Machine Ram} {values : List Quad} {stream : List BusCall}
  (hPrepares : ins.Prepares m (ins.prepared m) stream)
  (h : ins.Executed values (ins.prepared m) m')

include hPrepares h

theorem Executed.footprint_d (n : RegisterNumber) (hn : m'.cpu.d.get n ≠ m.cpu.d.get n) :
    ins.stores = true ∧
      ∃ size, ins.operandThrough? m.cpu.field = some ⟨.dataRegister n, size, .write⟩ ∧
        (size = .byte ∨ size = .word ∨ size = .long) ∧
        ∀ k, 8 * size.bytes ≤ k →
          (m'.cpu.d.get n).getLsbD k = (m.cpu.d.get n).getLsbD k := by
  have hD : (ins.prepared m).cpu.d = m.cpu.d := by rw [hPrepares.cpu]
  have hReached := h.reached
  rw [hPrepares.kept.1] at hReached
  rcases hReached.d with hSame | ⟨n', size, value, hOperand, hSet⟩
  · rw [hSame, hD] at hn
    exact absurd rfl hn
  · rw [hD] at hSet
    obtain rfl : n = n' := by
      by_contra hNe
      rw [hSet, Table.get_set_ne _ _ hNe] at hn
      exact hn rfl
    obtain ⟨hAsked, -, hAllowed⟩ := operandThrough?_eq_some hOperand
    have hSize : size = .byte ∨ size = .word ∨ size = .long := by
      cases size <;> first | decide | cases hAllowed
    -- so the operand fits into the register, and what is above it can be kept
    have hBytes : size.bytes ≤ 4 := by
      rcases hSize with rfl | rfl | rfl <;> decide
    refine ⟨stores_of_write hAsked, size, hOperand, hSize, fun k hk => ?_⟩
    rw [hSet, Table.get_set_self, getLsbD_withPart _ _ hBytes hk]

theorem Executed.footprint_a :
    (m'.cpu.a = (ins.operandThrough? m.cpu.field).elim m.cpu.a fun operand =>
        operand.mode.stepped (operand.size.bytes * ins.operandCount) m.cpu.a) ∨
      ins.stores = true ∧ ∃ n value, m'.cpu.a = m.cpu.a.set n value ∧
        ins.operandThrough? m.cpu.field = some ⟨.addressRegister n, .long, .write⟩ := by
  have hA : (ins.prepared m).cpu.a = m.cpu.a := by rw [hPrepares.cpu]
  have hLength : values.length = ins.operandCount :=
    h.performed.length_values.trans ins.length_moves
  have hReached := h.reached
  rw [hPrepares.kept.1] at hReached
  rcases hReached.a with hStepped | ⟨n, size, value, hOperand, hSet⟩
  · rw [hA, hLength] at hStepped
    exact Or.inl hStepped
  · rw [hA] at hSet
    obtain ⟨hAsked, -, hAllowed⟩ := operandThrough?_eq_some hOperand
    obtain rfl : size = .long := by
      cases size <;> first | rfl | cases hAllowed
    exact Or.inr ⟨stores_of_write hAsked, n, value, hSet, hOperand⟩

theorem Executed.footprint_memory (b : Long)
    (hb : m'.bus.memory.peek b ≠ m.bus.memory.peek b) :
    ins.stores = true ∧
      ∃ operand a, ins.operandThrough? m.cpu.field = some operand ∧
        a ∈ operand.addresses (ins.prepared m) ins.operandCount ∧
        Within a operand.size.bytes b := by
  obtain ⟨words, pointer, hCalls, hTiles, hPointer⟩ := h.exists_calls hPrepares
  have hWritten : ∃ call ∈ words ++ (pointer ++ ((ins.operandThrough? m.cpu.field).elim []
      (fun operand => operand.calls (ins.prepared m) values) ++ ins.cancels m.cpu.codes)),
      call.Writes b := by
    by_contra hNone
    rw [hCalls.bus, peek_replay m.bus fun call hCall hWrites => hNone ⟨call, hCall, hWrites⟩] at hb
    exact hb rfl
  obtain ⟨call, hCall, hWrites⟩ := hWritten
  simp only [List.mem_append] at hCall
  -- reads write nothing, so the call is one of those of the operands
  rcases hCall with hCall | hCall | hCall | hCall
  · exact absurd hWrites ((hTiles.stream call hCall).not_writes b)
  · rcases hPointer.eq_nil_or with rfl | ⟨a, value, rfl⟩
    · cases hCall
    · obtain rfl := List.mem_singleton.mp hCall
      exact hWrites.elim
  · cases hOperand : ins.operandThrough? m.cpu.field with
    | none =>
      rw [hOperand] at hCall
      cases hCall
    | some operand =>
      rw [hOperand] at hCall
      obtain ⟨hWrite, a, ha, hWithin⟩ := exists_address_of_writes hCall hWrites
      have hAsked := (operandThrough?_eq_some hOperand).1
      rw [hWrite] at hAsked
      rw [h.performed.length_values, ins.length_moves] at ha
      exact ⟨stores_of_write hAsked, operand, a, rfl, ha, hWithin⟩
  · rcases ins.cancels_eq_nil_or m.cpu.codes with hNone | hOne
    · rw [hNone] at hCall
      cases hCall
    · rw [hOne] at hCall
      obtain rfl := List.mem_singleton.mp hCall
      exact hWrites.elim

end

end Instruction

/-- **The footprint of an accepted instruction.**  On a memory, in whatever state and for
whatever instruction: what is accepted is an instruction, and it leaves alone what its
`Instruction.Footprint` says. -/
theorem footprint_of_accepted {m : Machine Ram} {group : Group}
    (hOk : (group.execute m).1 = .ok ()) :
    ∃ ins, m.instruction? group = some ins ∧ ins.Footprint m (group.execute m).2 := by
  obtain ⟨ins, values, hWords, hExecuted⟩ := group.exists_executed hOk
  obtain ⟨stream, hPrepares⟩ := ins.exists_prepares m
  refine ⟨ins, hWords, ?_, ?_, hExecuted.footprint_d hPrepares, hExecuted.footprint_a hPrepares,
    hExecuted.footprint_memory hPrepares, ?_⟩
  · intro n hn
    by_contra hNot
    have hKept := hExecuted.performed.keeps (fun unit => unit.fp.get n)
      (Instruction.moves_keep_fp hNot)
    rw [hPrepares.kept.2.1] at hKept
    exact hn hKept
  · intro register hStatus hn
    by_contra hNot
    have hKept := hExecuted.performed.keeps (fun unit => unit.control register)
      (Instruction.moves_keep_control hStatus hNot)
    rw [hPrepares.kept.2.1] at hKept
    cases register <;> exact hn hKept
  · obtain ⟨hIr, hStart, hCosts⟩ := hExecuted.performed.kept
    rw [hPrepares.cpu] at hIr hStart hCosts
    exact ⟨hIr, hStart, hCosts⟩

/-- The store of FP0 and FP2 below A7. -/
def storesBelow : Machine Ram :=
  let m := Machine.begun 0xF227 [0xE005]
  { m with cpu := m.cpu.setA 7 0x2000 }

theorem footprint_of_accepted_below :
    let after := (Group.general.execute storesBelow).2
    (Group.general.execute storesBelow).1 = .ok () ∧ after.cpu.a.get 7 = 0x2000 - 24 ∧
      ∀ b, after.bus.memory.peek b ≠ storesBelow.bus.memory.peek b →
        Within 0x1FF4 12 b ∨ Within 0x1FE8 12 b := by
  have hOk : (Group.general.execute storesBelow).1 = .ok () := by decide +kernel
  obtain ⟨ins, hWords, hFootprint⟩ := footprint_of_accepted hOk
  obtain rfl : Instruction.operation (.multiple .write 5) = ins := Option.some.inj hWords
  have hOperand : (Instruction.operation (.multiple .write 5)).operandThrough?
      storesBelow.cpu.field = some ⟨.predecrement 7, .extended, .write⟩ := rfl
  refine ⟨hOk, ?_, fun b hb => ?_⟩
  · rcases hFootprint.a with hStepped | ⟨-, n, value, -, hRegister⟩
    · rw [hOperand] at hStepped
      rw [hStepped]
      rfl
    · cases hOperand.symm.trans hRegister
  · obtain ⟨-, operand, a, hThrough, ha, hWithin⟩ := hFootprint.memory b hb
    obtain rfl := Option.some.inj (hOperand.symm.trans hThrough)
    have hAddresses : a ∈ [(0x1FF4 : Long), 0x1FE8] := ha
    simp only [List.mem_cons, List.not_mem_nil, or_false] at hAddresses
    rcases hAddresses with rfl | rfl
    · exact Or.inl hWithin
    · exact Or.inr hWithin

end M68kFloat
