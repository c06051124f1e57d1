import M68kFloat.Proofs.Machine.Execution

/-!
# The order of calls on the bus

The calls of one instruction come in phases: the words of the instruction stream, a pointer, the
operands, and the trace that a taken branch cancels.  So nothing that is written is read again
by the same instruction, and an instruction that is put over itself, or over the pointer to its
operand, is still carried out as it was decoded.

`InOrder` says what calls there can be in each phase and `Instruction.CallsFor` which of them an
accepted instruction makes.  `calls_in_order` holds on any bus, whatever it answers.
-/

namespace M68kFloat

variable {β : Type} [Bus β]

/-- The phase in which operands are moved. -/
def Access.phase : Access → Nat
  | read => 2
  | write => 3

/-- The phase of an instruction to which a call belongs.  Every read comes before every
write. -/
def BusCall.phase : BusCall → Nat
  | read .stream _ _ _ => 0
  | read .pointer _ _ _ => 1
  | read .operand _ _ _ => Access.read.phase
  | write _ _ _ => Access.write.phase
  | cancelTrace => 4

/-- The calls of the phases of an instruction.  Operands are only read or only written. -/
structure InOrder (words pointer operands cancels : List BusCall) : Prop where
  words : ∀ call ∈ words, call.IsStream
  pointer : pointer = [] ∨ ∃ a value, pointer = [.read .pointer .long a value]
  operands : ∃ access, ∀ call ∈ operands, call.MovesOperand access
  cancels : cancels = [] ∨ cancels = [.cancelTrace]

/-- The calls that an accepted instruction makes after its words, where `after` is what it
leaves.  The pointer is read where the index word of its mode leads through one.  Every move has
an operand: a write puts down what the registers held, and what is read makes the registers what
they are in the end. -/
structure Instruction.CallsFor (ins : Instruction) (m after : Machine β)
    (pointer operands cancels : List BusCall) : Prop where
  pointer : BusCall.Pointer ((ins.operandThrough? m.cpu.field).elim false fun operand =>
    operand.mode.usesPointer (ins.prepared m).nextWord) pointer
  operands : ∃ values : List Quad, values.length = ins.moves.length ∧
    operands = ((ins.operandThrough? m.cpu.field).elim [] fun operand =>
      operand.calls (ins.prepared m) values) ∧
    (∀ operand, ins.operandThrough? m.cpu.field = some operand → operand.access = .write →
      values = ins.moves.map fun move => move.stored m.cpu.unit) ∧
    after.cpu.unit = (ins.moves.zip values).foldl
      (fun unit (move, value) => move.finish value unit) m.cpu.unit
  cancels : cancels = if ins.jumps m.cpu.codes then [.cancelTrace] else []

/-! ### Phases -/

namespace BusCall

theorem phase_of_isStream {call : BusCall} (h : call.IsStream) : call.phase = 0 := by
  obtain ⟨width, a, value, rfl⟩ := h.exists_eq
  rfl

theorem phase_of_movesOperand {call : BusCall} {access : Access} (h : call.MovesOperand access) :
    call.phase = access.phase := by
  obtain ⟨width, a, value, ⟨rfl, rfl⟩ | ⟨rfl, rfl⟩⟩ := h.exists_eq <;> rfl

/-- Calls of one phase are in order. -/
theorem pairwise_of_phase {calls : List BusCall} {phase : Nat}
    (h : ∀ call ∈ calls, call.phase = phase) :
    calls.Pairwise fun earlier later => earlier.phase ≤ later.phase := by
  refine List.pairwise_of_forall_mem_list fun earlier hEarlier later hLater => ?_
  exact Nat.le_of_eq ((h earlier hEarlier).trans (h later hLater).symm)

end BusCall

open BusCall

/-- **Phases follow each other.** -/
theorem InOrder.pairwise {words pointer operands cancels : List BusCall}
    (h : InOrder words pointer operands cancels) :
    (words ++ (pointer ++ (operands ++ cancels))).Pairwise
      fun earlier later => earlier.phase ≤ later.phase := by
  have hWords : ∀ call ∈ words, call.phase = 0 := fun call hCall =>
    phase_of_isStream (h.words call hCall)
  have hPointer : ∀ call ∈ pointer, call.phase = 1 := by
    rcases h.pointer with rfl | ⟨a, value, rfl⟩
    · exact fun _ hCall => nomatch hCall
    · rw [List.forall_mem_singleton]
      rfl
  have hCancels : ∀ call ∈ cancels, call.phase = 4 := by
    rcases h.cancels with rfl | rfl
    · exact fun _ hCall => nomatch hCall
    · rw [List.forall_mem_singleton]
      rfl
  obtain ⟨access, hMoves⟩ := h.operands
  have hOperands := fun call hCall => phase_of_movesOperand (hMoves call hCall)
  -- reads and writes of operands have phases of their own, between the pointer and the trace
  have hRange : ∀ call ∈ operands, 2 ≤ call.phase ∧ call.phase ≤ 3 := by
    intro call hCall
    rw [hOperands call hCall]
    cases access <;> decide
  simp only [List.pairwise_append, List.mem_append]
  refine ⟨pairwise_of_phase hWords, ⟨pairwise_of_phase hPointer,
    ⟨pairwise_of_phase hOperands, pairwise_of_phase hCancels, ?_⟩, ?_⟩, ?_⟩
  · intro earlier hEarlier later hLater
    rw [hCancels later hLater]
    exact Nat.le_trans (hRange earlier hEarlier).2 (by decide)
  · intro earlier hEarlier later hLater
    rw [hPointer earlier hEarlier]
    rcases hLater with hLater | hLater
    · exact Nat.le_trans (by decide) (hRange later hLater).1
    · rw [hCancels later hLater]
      decide
  · intro earlier hEarlier later _
    rw [hWords earlier hEarlier]
    exact Nat.zero_le _

/-! ### Accepted and refused instructions -/

/-- Words that are read, and nothing else. -/
theorem inOrder_words {words : List BusCall} (h : ∀ call ∈ words, call.IsStream) :
    InOrder words [] [] [] :=
  ⟨h, Or.inl rfl, ⟨.read, fun _ hCall => nomatch hCall⟩, Or.inl rfl⟩

theorem Instruction.inOrder (ins : Instruction) {words pointer : List BusCall} {uses : Bool}
    (hWords : ∀ call ∈ words, call.IsStream) (hPointer : Pointer uses pointer)
    (operand? : Option Operand) (m : Machine β) (values : List Quad) (codes : ConditionCodes) :
    InOrder words pointer (operand?.elim [] fun operand => operand.calls m values)
      (ins.cancels codes) where
  words := hWords
  pointer := hPointer.eq_nil_or
  operands := by
    cases operand? with
    | none => exact ⟨.read, fun _ hCall => nomatch hCall⟩
    | some operand => exact ⟨operand.access, operand.movesOperand_calls m values⟩
  cancels := ins.cancels_eq_nil_or codes

theorem Instruction.Executed.callsFor {ins : Instruction} {values : List Quad} {m m' : Machine β}
    {stream pointer : List BusCall} (hPrepares : ins.Prepares m (ins.prepared m) stream)
    (h : ins.Executed values (ins.prepared m) m')
    (hPointer : Pointer ((ins.operandThrough? m.cpu.field).elim false
      fun operand => operand.mode.usesPointer (ins.prepared m).nextWord) pointer) :
    ins.CallsFor m m' pointer
      ((ins.operandThrough? m.cpu.field).elim [] fun operand =>
        operand.calls (ins.prepared m) values) (ins.cancels m.cpu.codes) where
  pointer := hPointer
  operands := by
    obtain ⟨hField, hUnit, -⟩ := hPrepares.kept
    have hPerformed := h.performed
    rw [hField] at hPerformed
    refine ⟨values, hPerformed.length_values, rfl, ?_, ?_⟩
    · intro operand hOperand hWrite
      have hAsked := (operandThrough?_eq_some hOperand).1
      rw [hWrite] at hAsked
      rw [← hUnit]
      exact hPerformed.values_eq hOperand hWrite (finish_of_write hAsked)
    · rw [← hUnit]
      exact hPerformed.unit
  cancels := rfl

/-- **The calls of an instruction are in order.**  On any bus, whatever it answers, and for any
instruction, accepted or refused: the words of the instruction stream are read first, then at
most one pointer, and then operands are either read or written.  Only the branch that is taken
cancels a trace, after its words.  A refused instruction has at most read its extension word. -/
theorem calls_in_order (m : Machine β) (group : Group) :
    ∃ words pointer operands cancels,
      (group.execute m).2.calls = m.calls ++ (words ++ (pointer ++ (operands ++ cancels))) ∧
      InOrder words pointer operands cancels ∧
      ((words ++ (pointer ++ (operands ++ cancels))).Pairwise
        fun earlier later => earlier.phase ≤ later.phase) ∧
      match m.accepted? group with
      | some ins => ins.CallsFor m (group.execute m).2 pointer operands cancels
      | none => (words = [] ∨ words = [.read .stream .word m.cpu.pc (m.nextWord.setWidth 32)]) ∧
        pointer = [] ∧ operands = [] ∧ cancels = [] := by
  cases hResult : (group.execute m).1 with
  | ok a =>
    obtain ⟨ins, values, hAccepted, hExecuted⟩ := Machine.exists_accepted? hResult
    obtain ⟨stream, hPrepares⟩ := ins.exists_prepares m
    obtain ⟨words, pointer, hCalls, hTiles, hPointer⟩ := hExecuted.exists_calls hPrepares
    have hInOrder := ins.inOrder hTiles.stream hPointer (ins.operandThrough? m.cpu.field)
      (ins.prepared m) values m.cpu.codes
    refine ⟨words, pointer, _, _, hCalls.recorded, hInOrder, hInOrder.pairwise, ?_⟩
    rw [hAccepted]
    exact hExecuted.callsFor hPrepares hPointer
  | error fault =>
    rw [Machine.accepted?_of_error hResult]
    rcases group.left_of_error hResult with hSame | hFetched
    · have hWords : ∀ call ∈ ([] : List BusCall), call.IsStream := fun _ h => nomatch h
      have hInOrder := inOrder_words hWords
      exact ⟨[], [], [], [], hSame.calls.trans (List.append_nil _).symm, hInOrder,
        hInOrder.pairwise, Or.inl rfl, rfl, rfl, rfl⟩
    · have hWords : ∀ call ∈ [BusCall.read .stream .word m.cpu.pc (m.nextWord.setWidth 32)],
          call.IsStream := by
        rw [List.forall_mem_singleton]
        trivial
      have hInOrder := inOrder_words hWords
      exact ⟨_, [], [], [], hFetched.calls, hInOrder, hInOrder.pairwise, Or.inr rfl,
        rfl, rfl, rfl⟩

/-- A double is written as two longs, the high one first. -/
example (a : Long) : operandCalls .write a .double 0x0123456789ABCDEF =
    [.write .long a 0x01234567, .write .long (a + 4) 0x89ABCDEF] := rfl

end M68kFloat
