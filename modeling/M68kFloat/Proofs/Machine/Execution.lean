import M68kFloat.Proofs.Machine.Moves

/-!
# What an accepted instruction does

`Group.exists_executed` takes an accepted instruction of either group apart: it decodes to an
`Instruction`, its words are read, and then its moves are made through the mode of its field, if
it asks for an operand.  That is all of it but messages.  So what moves preserve is preserved by
instructions, and nobody has to look at an execution again to know what it does.
-/

namespace M68kFloat

open Machine (SameButMessages)

variable {β : Type} [Bus β]

namespace Instruction

/-- An instruction whose words have been read has been carried out, with the operands
`values`. -/
structure Executed (ins : Instruction) (values : List Quad) (m m' : Machine β) : Prop where
  admitted : ∀ size access, ins.operand? = some (size, access) →
    (Mode.route? m.cpu.field size access).isSome = true
  performed : Performed (ins.operandThrough? m.cpu.field) ins.moves values m m'

variable {ins : Instruction} {values : List Quad} {m m' : Machine β} {size : Size}
  {access : Access} {mode : Mode}

theorem executed_of_route (hOperand : ins.operand? = some (size, access))
    (hRoute : Mode.route? m.cpu.field size access = some mode)
    (h : Performed (some ⟨mode, size, access⟩) ins.moves values m m') :
    ins.Executed values m m' := by
  refine ⟨?_, ?_⟩
  · intro size' access' hAsked
    cases hOperand.symm.trans hAsked
    rw [hRoute]
    rfl
  · rwa [operandThrough?_of_route hOperand hRoute]

theorem executed_of_none (hOperand : ins.operand? = none)
    (h : Performed none ins.moves values m m') : ins.Executed values m m' := by
  refine ⟨?_, ?_⟩
  · intro size access hAsked
    cases hOperand.symm.trans hAsked
  · rwa [operandThrough?, hOperand]

end Instruction

namespace Exec

open Instruction (Executed executed_of_route executed_of_none)

omit [Bus β] in
theorem exists_route_of_ok {α : Type} {field : Byte} {size : Size} {access : Access}
    {use : Mode → Exec β α} {m : Machine β} {a : α}
    (h : (withOperand field size access use m).1 = .ok a) :
    ∃ mode, Mode.route? field size access = some mode := by
  cases hRoute : Mode.route? field size access with
  | some mode => exact ⟨mode, rfl⟩
  | none =>
    rw [withOperand_of_refused hRoute] at h
    cases h

/-! ### Operations -/

/-- What an arithmetic operation does is the end of a move. -/
theorem operate_eq_finish (cpu : Cpu) (opmode : Opmode) (destination : RegisterNumber)
    (source : Quad → UnitRegisters → Double) (value : Quad) :
    cpu.operate opmode destination (source value cpu.unit) = cpu.finish
      (.load (fun operand unit => unit.operate opmode destination (source operand unit))
        opmode.cost) value := by
  cases opmode <;> rfl

/-- So is a charge after a store. -/
theorem charge_eq_finish {cpu : Cpu} {costs : Costs} (h : cpu.costs = costs)
    (stored : UnitRegisters → Quad) (cost : Costs → Long) (value : Quad) :
    cpu.charge (cost costs) = cpu.finish (.store stored cost) value := by
  rw [← h]
  rfl

/-- A move that costs nothing and leaves the registers of the unit alone. -/
theorem finish_of_free {cpu : Cpu} {move : Move} {value : Quad}
    (hUnit : move.finish value cpu.unit = cpu.unit) (hCost : move.cost cpu.costs = 0) :
    cpu.finish move value = cpu := by
  have hCycles : cpu.cycles + (0 : Long).setWidth 64 = cpu.cycles := BitVec.add_zero _
  rw [Cpu.finish, hUnit, hCost, Cpu.charge]
  show { cpu with cycles := cpu.cycles + (0 : Long).setWidth 64 } = cpu
  rw [hCycles]

variable {m : Machine β}

theorem read_ne_write : Access.read ≠ Access.write := by decide

theorem executed_general {source : Source RegisterNumber} {destination : RegisterNumber}
    {opmode : Opmode} (h : (general source destination opmode m).1 = .ok ()) :
    ∃ values, (Instruction.operation (.general source destination opmode)).Executed values m
      (general source destination opmode m).2 := by
  cases source with
  | register n =>
    refine ⟨[0], executed_of_none rfl (.single (made_alone ?_ rfl rfl))⟩
    exact operate_eq_finish m.cpu opmode destination (fun _ unit => unit.fp.get n) 0
  | memory format =>
    obtain ⟨mode, hRoute⟩ := exists_route_of_ok h
    have hAccessed := accessed_readThrough mode m format.size
    rw [general_of_route hRoute]
    refine ⟨[_], executed_of_route rfl hRoute
      (.single (made_of_accessed hAccessed (absurd · read_ne_write) ?_ rfl rfl))⟩
    exact operate_eq_finish _ opmode destination (fun operand _ => format.load operand) _

theorem not_immediate_of_write {field : Byte} {size : Size} {mode : Mode}
    (h : Mode.route? field size .write = some mode) : mode ≠ .immediate := by
  rintro rfl
  cases (route_eq_some.mp h).2

theorem executed_store {source : RegisterNumber} {format : Format}
    (h : (store source format m).1 = .ok ()) :
    ∃ values, (Instruction.operation (.store source format)).Executed values m
      (store source format m).2 := by
  obtain ⟨mode, hRoute⟩ := exists_route_of_ok h
  have hAccessed := accessed_writeThrough (format.store (m.cpu.fp.get source)) m format.size
    (not_immediate_of_write hRoute)
  rw [store_of_route hRoute]
  refine ⟨[_], executed_of_route rfl hRoute
    (.single (made_of_accessed hAccessed (fun _ => rfl) ?_ rfl rfl))⟩
  exact charge_eq_finish hAccessed.costs _ Costs.store _

theorem executed_control {access : Access} {register : ControlRegister}
    (h : (control access register m).1 = .ok ()) :
    ∃ values, (Instruction.operation (.control access register)).Executed values m
      (control access register m).2 := by
  obtain ⟨mode, hRoute⟩ := exists_route_of_ok h
  cases access with
  | write =>
    have hAccessed := accessed_writeThrough ((m.cpu.control register).setWidth 64) m .long
      (not_immediate_of_write hRoute)
    rw [control_write_of_route hRoute]
    refine ⟨[_], executed_of_route rfl hRoute
      (.single (made_of_accessed hAccessed (fun _ => ?_) ?_ rfl rfl))⟩
    · cases register <;> rfl
    · exact charge_eq_finish hAccessed.costs _ Costs.control _
  | read =>
    have hAccessed := accessed_readThrough mode m .long
    rw [control_read_of_route hRoute]
    refine ⟨[_], executed_of_route rfl hRoute
      (.single (made_of_accessed hAccessed (absurd · read_ne_write) ?_ rfl rfl))⟩
    rw [← hAccessed.costs]
    cases register <;> rfl

/-! ### Register lists -/

theorem inMemory_of_extended {access : Access} {mode : Mode}
    (h : mode.allows .extended access = true) : mode.inMemory = true := by
  cases mode <;> cases access <;> first | rfl | cases h

section

variable {mode : Mode} (hMode : mode.inMemory = true)

include hMode

theorem exists_made_transfer (access : Access) (bit : RegisterNumber) (m : Machine β) :
    ∃ value, Made (some ⟨mode, .extended, access⟩) (.register access bit) value m
      (transfer access mode bit m).2 := by
  cases access with
  | write =>
    have hAccessed := accessed_writeExtendedThrough m hMode (m.cpu.fp.get bit)
    refine ⟨_, made_of_accessed hAccessed (fun _ => rfl) ?_ rfl rfl⟩
    exact charge_eq_finish hAccessed.costs _ Costs.multiple _
  | read =>
    have hAccessed := accessed_readExtendedThrough m hMode
    refine ⟨_, made_of_accessed hAccessed (absurd · read_ne_write) ?_ rfl rfl⟩
    show Cpu.charge _ m.cpu.costs.multiple = _
    rw [← hAccessed.costs]
    rfl

/-- The registers of a list are moved one after the other. -/
theorem exists_performed_transferAll (access : Access) (bits : List RegisterNumber)
    (m : Machine β) :
    ∃ values, Performed (some ⟨mode, .extended, access⟩) (bits.map (Move.register access))
      values m (transferAll access mode bits m).2 := by
  induction bits generalizing m with
  | nil => exact ⟨[], .nil ⟨rfl, rfl, rfl⟩⟩
  | cons bit bits ih =>
    obtain ⟨value, hFirst⟩ := exists_made_transfer hMode access bit m
    obtain ⟨values, hRest⟩ := ih (transfer access mode bit m).2
    exact ⟨value :: values, .cons hFirst hRest⟩

end

theorem executed_multiple {access : Access} {list : Byte}
    (h : (multiple access list m).1 = .ok ()) :
    ∃ values, (Instruction.operation (.multiple access list)).Executed values m
      (multiple access list m).2 := by
  by_cases hList : list = 0
  -- an empty list asks for no operand, so its field may hold any mode
  · subst hList
    have hNone : listed 0 = [] := (listed_eq_nil_iff 0).mpr rfl
    rw [multiple_empty]
    refine ⟨[], executed_of_none rfl ?_⟩
    rw [Instruction.moves, Operation.moves, hNone]
    exact .nil ⟨rfl, rfl, rfl⟩
  · cases hRoute : Mode.route? m.cpu.field .extended access with
    | none =>
      rw [multiple_of_refused hList hRoute] at h
      cases h
    | some mode =>
      have hMode := inMemory_of_extended (route_eq_some.mp hRoute).2
      obtain ⟨values, hMoves⟩ := exists_performed_transferAll hMode access (listed list) m
      rw [multiple_of_route hRoute]
      exact ⟨values, executed_of_route (if_neg hList) hRoute (hMoves.congr ⟨rfl, rfl, rfl⟩)⟩

theorem executed_operation {op : Operation RegisterNumber} (h : (operation op m).1 = .ok ()) :
    ∃ values, (Instruction.operation op).Executed values m (operation op m).2 := by
  cases op with
  | general source destination opmode => exact executed_general h
  | store source format => exact executed_store h
  | control access register => exact executed_control h
  | multiple access list => exact executed_multiple h

/-! ### Branches and frames -/

theorem branch_of_condition {condition : Condition} (form : BranchForm)
    (h : Condition.ofCode? m.cpu.field = some condition) :
    let prepared := (Instruction.branch condition form).prepared m
    branch form m = (.ok (), { prepared with cpu := prepared.cpu.charge m.cpu.costs.branch }) := by
  rw [branch, bind_apply, getCpu_apply]
  dsimp only
  rw [h]
  rfl

theorem executed_branch {form : BranchForm} (h : (branch form m).1 = .ok ()) :
    ∃ condition, Condition.ofCode? m.cpu.field = some condition ∧
      (Instruction.branch condition form).Executed [0]
        ((Instruction.branch condition form).prepared m) (branch form m).2 := by
  cases hCondition : Condition.ofCode? m.cpu.field with
  | none =>
    rw [branch, bind_apply, getCpu_apply] at h
    dsimp only at h
    rw [hCondition] at h
    cases h
  | some condition =>
    obtain ⟨stream, hPrepares⟩ := (Instruction.branch condition form).exists_prepares m
    rw [branch_of_condition form hCondition]
    refine ⟨condition, rfl, executed_of_none rfl (.single (made_alone ?_ rfl rfl))⟩
    rw [← hPrepares.kept.2.2]
    rfl

theorem executed_saveFrame (h : (saveFrame m).1 = .ok ()) :
    ∃ values, Instruction.saveFrame.Executed values (Instruction.saveFrame.prepared m)
      (saveFrame m).2 := by
  have hRun : saveFrame m = writeOperand m.cpu.field .long 0 (Instruction.saveFrame.prepared m) :=
    rfl
  rw [hRun, writeOperand] at h ⊢
  obtain ⟨mode, hRoute⟩ := exists_route_of_ok h
  have hAccessed := accessed_writeThrough 0 (Instruction.saveFrame.prepared m) .long
    (not_immediate_of_write hRoute)
  rw [withOperand_of_route hRoute]
  refine ⟨[0], executed_of_route rfl hRoute
    (.single (made_of_accessed hAccessed (fun _ => rfl) ?_ rfl rfl))⟩
  exact (finish_of_free rfl rfl).symm

theorem executed_restoreFrame (h : (restoreFrame m).1 = .ok ()) :
    ∃ values, Instruction.restoreFrame.Executed values (Instruction.restoreFrame.prepared m)
      (restoreFrame m).2 := by
  have hRun : restoreFrame m = (Except.map (fun _ => ()) <$> readOperand m.cpu.field .long :
      Exec β _) (Instruction.restoreFrame.prepared m) := rfl
  rw [hRun, readOperand, map_apply] at h ⊢
  cases hRoute : Mode.route? m.cpu.field .long .read with
  | none =>
    rw [withOperand_of_refused hRoute] at h
    cases h
  | some mode =>
    have hAccessed := accessed_readThrough mode (Instruction.restoreFrame.prepared m) .long
    rw [withOperand_of_route hRoute]
    refine ⟨[_], executed_of_route rfl hRoute
      (.single (made_of_accessed hAccessed (absurd · read_ne_write) ?_ rfl rfl))⟩
    exact (finish_of_free rfl rfl).symm

/-! ### Both groups -/

omit [Bus β] in
/-- A result that is no fault comes without a message. -/
theorem reporting_ok {x : Exec β (Except Fault Unit)} (h : (reporting x m).1 = .ok ()) :
    (x m).1 = .ok () ∧ reporting x m = x m := by
  rw [reporting_result] at h
  exact ⟨h, reporting_of_ok h⟩

theorem exists_executed_of_branch {form : BranchForm}
    (hWords : m.instruction? .general =
      (Condition.ofCode? m.cpu.field).map (Instruction.branch · form))
    (h : (reporting (branch form) m).1 = .ok ()) :
    ∃ ins values, m.instruction? .general = some ins ∧
      ins.Executed values (ins.prepared m) (reporting (branch form) m).2 := by
  obtain ⟨hBranch, hRun⟩ := reporting_ok h
  obtain ⟨condition, hCondition, hMoves⟩ := executed_branch hBranch
  refine ⟨.branch condition form, [0], ?_, ?_⟩
  · rw [hWords, hCondition]
    rfl
  · rw [hRun]
    exact hMoves

theorem exists_executed_of_general (h : (generalGroup m).1 = .ok ()) :
    ∃ ins values, m.instruction? .general = some ins ∧
      ins.Executed values (ins.prepared m) (generalGroup m).2 := by
  rcases class_cases (m.cpu.ir.extractLsb' 6 2) with hClass | hClass | hClass | hClass
  · obtain ⟨op, hWord, hOk, hRun⟩ := exists_operation_of_ok hClass (by rw [h]; rfl)
    obtain ⟨values, hMoves⟩ := executed_operation hOk
    refine ⟨.operation op, values, ?_, ?_⟩
    · simp only [Machine.instruction?, Instruction.ofWords?, hClass, Machine.nextWord, hWord]
      rfl
    · rw [hRun]
      exact hMoves
  all_goals rw [generalGroup_apply, hClass] at h ⊢
  · cases h
  · refine exists_executed_of_branch ?_ h
    simp only [Machine.instruction?, Instruction.ofWords?, hClass]
    rfl
  · refine exists_executed_of_branch ?_ h
    simp only [Machine.instruction?, Instruction.ofWords?, hClass]
    rfl

theorem frameGroup_apply (m : Machine β) :
    frameGroup m = reporting (match m.cpu.ir.extractLsb' 6 2 with
      | 0#2 => saveFrame
      | 1#2 => restoreFrame
      | 2#2 => fault (.saveRestoreOp 2) >>= fun fault => pure (.error fault)
      | 3#2 => fault (.saveRestoreOp 3) >>= fun fault => pure (.error fault)) m := rfl

theorem exists_executed_of_frame (h : (frameGroup m).1 = .ok ()) :
    ∃ ins values, m.instruction? .frame = some ins ∧
      ins.Executed values (ins.prepared m) (frameGroup m).2 := by
  rcases class_cases (m.cpu.ir.extractLsb' 6 2) with hClass | hClass | hClass | hClass
  all_goals rw [frameGroup_apply, hClass] at h ⊢
  · obtain ⟨hSave, hRun⟩ := reporting_ok h
    obtain ⟨values, hMoves⟩ := executed_saveFrame hSave
    refine ⟨.saveFrame, values, ?_, ?_⟩
    · simp only [Machine.instruction?, Instruction.ofWords?, hClass]
      rfl
    · rw [hRun]
      exact hMoves
  · obtain ⟨hRestore, hRun⟩ := reporting_ok h
    obtain ⟨values, hMoves⟩ := executed_restoreFrame hRestore
    refine ⟨.restoreFrame, values, ?_, ?_⟩
    · simp only [Machine.instruction?, Instruction.ofWords?, hClass]
      rfl
    · rw [hRun]
      exact hMoves
  · cases h
  · cases h

end Exec

/-- **An accepted instruction is its moves.** -/
theorem Group.exists_executed {group : Group} {m : Machine β}
    (h : (group.execute m).1 = .ok ()) :
    ∃ ins values, m.instruction? group = some ins ∧
      ins.Executed values (ins.prepared m) (group.execute m).2 := by
  cases group with
  | general => exact Exec.exists_executed_of_general h
  | frame => exact Exec.exists_executed_of_frame h

/-- A refused instruction leaves the machine as it was, or has fetched one word. -/
theorem Group.left_of_error {group : Group} {m : Machine β} {fault : Fault}
    (h : (group.execute m).1 = .error fault) :
    SameButMessages m (group.execute m).2 ∨ m.FetchedOneWord (group.execute m).2 := by
  cases group with
  | general =>
    obtain ⟨-, hLeft⟩ := Exec.generalGroup_error h
    split at hLeft
    · exact Or.inr hLeft
    · exact Or.inl hLeft
  | frame => exact Or.inl (Exec.refusesCleanly_frameGroup m fault h).2

/-- The instruction at the program counter, if it is accepted. -/
def Machine.accepted? (m : Machine β) (group : Group) : Option Instruction :=
  if (group.execute m).1.isOk then m.instruction? group else none

/-- What is accepted is an instruction. -/
theorem Machine.exists_accepted? {m : Machine β} {group : Group}
    (h : (group.execute m).1 = .ok ()) :
    ∃ ins values, m.accepted? group = some ins ∧
      ins.Executed values (ins.prepared m) (group.execute m).2 := by
  obtain ⟨ins, values, hWords, hExecuted⟩ := group.exists_executed h
  refine ⟨ins, values, ?_, hExecuted⟩
  rw [accepted?, h]
  exact hWords

theorem Machine.accepted?_of_error {m : Machine β} {group : Group} {fault : Fault}
    (h : (group.execute m).1 = .error fault) : m.accepted? group = none := by
  rw [accepted?, h]
  rfl

namespace Instruction

/-! ### From the moves to the instruction -/

/-- Only a register list has more moves than one, and it is moved through a mode that steps. -/
theorem moves_once (ins : Instruction) (field : Byte) : ins.moves.length = 1 ∨
    ∀ operand, ins.operandThrough? field = some operand → operand.mode.steps = true := by
  cases ins with
  | operation op =>
    cases op with
    | general source destination opmode => cases source <;> exact Or.inl rfl
    | store source format => exact Or.inl rfl
    | control access register => cases access <;> exact Or.inl rfl
    | multiple access list =>
      right
      intro operand hOperand
      obtain ⟨hAsked, -, hAllowed⟩ := operandThrough?_eq_some hOperand
      by_cases hList : list = 0
      · rw [operand?, Operation.operand?, if_pos hList] at hAsked
        cases hAsked
      · rw [operand?, Operation.operand?, if_neg hList] at hAsked
        obtain ⟨mode, size, access'⟩ := operand
        obtain ⟨rfl, rfl⟩ := Prod.mk.inj (Option.some.inj hAsked)
        cases mode <;> cases access <;> first | rfl | cases hAllowed
  | branch condition form => exact Or.inl rfl
  | saveFrame => exact Or.inl rfl
  | restoreFrame => exact Or.inl rfl

/-- What writes its operand leaves the registers of the unit alone. -/
theorem finish_of_write {ins : Instruction} {size : Size}
    (h : ins.operand? = some (size, .write)) :
    ∀ move ∈ ins.moves, ∀ value unit, move.finish value unit = unit := by
  intro move hMove
  cases ins.finishes hMove with
  | nothing hFinish => exact hFinish
  | @arithmetic source destination opmode hIns =>
    subst hIns
    cases source <;> cases h
  | control hIns =>
    subst hIns
    cases h
  | register hIns =>
    subst hIns
    rw [operand?, Operation.operand?] at h
    split at h <;> cases h

theorem jumps_of_operand {ins : Instruction} {field : Byte} {operand : Operand}
    (h : ins.operandThrough? field = some operand) (codes : ConditionCodes) :
    ins.jumps codes = false := by
  cases ins with
  | branch condition form => cases h
  | _ => rfl

variable {ins : Instruction} {values : List Quad} {m m' : Machine β} {stream : List BusCall}

theorem Executed.reached (h : ins.Executed values m m') :
    Machine.Reached (ins.operandThrough? m.cpu.field) values m m' :=
  h.performed.reached (ins.moves_once m.cpu.field)

/-- **The calls of an instruction**: the words, which are consecutive, a pointer, the operands,
and the trace that a branch cancels. -/
theorem Executed.exists_calls (hPrepares : ins.Prepares m (ins.prepared m) stream)
    (h : ins.Executed values (ins.prepared m) m') :
    ∃ words pointer,
      Machine.Calls m m' (words ++ (pointer ++ ((ins.operandThrough? m.cpu.field).elim []
        (fun operand => operand.calls (ins.prepared m) values) ++ ins.cancels m.cpu.codes))) ∧
      BusCall.Tiles m.cpu.pc (ins.wordBytes + (ins.operandThrough? m.cpu.field).elim 0
        fun operand => operand.streamBytes (ins.prepared m)) words ∧
      BusCall.Pointer ((ins.operandThrough? m.cpu.field).elim false
        fun operand => operand.mode.usesPointer (ins.prepared m).nextWord) pointer := by
  have hReached := h.reached
  rw [hPrepares.kept.1] at hReached
  have hReaches := hReached.reaches
  cases hOperand : ins.operandThrough? m.cpu.field with
  | none =>
    rw [hOperand] at hReaches
    have hCalls := hPrepares.made.trans hReaches
    refine ⟨stream, [], ?_, hPrepares.tiles, rfl⟩
    rw [List.append_nil] at hCalls
    exact hCalls
  | some operand =>
    -- only a branch jumps, and it has no operand: nothing comes after the operands here
    have hJumps := jumps_of_operand hOperand m.cpu.codes
    have hNone : ins.cancels m.cpu.codes = [] := by
      rw [cancels, hJumps]
      rfl
    rw [hOperand] at hReaches
    obtain ⟨words, pointer, hCalls, hTiles, hPointer⟩ := hReaches
    rw [hPrepares.pc hJumps] at hTiles
    refine ⟨stream ++ words, pointer, ?_, hPrepares.tiles.append hTiles, hPointer⟩
    have hAll := hPrepares.made.trans hCalls
    rw [hNone, List.append_nil] at hAll
    rw [hNone, List.append_nil, List.append_assoc]
    exact hAll

end Instruction

end M68kFloat
