import M68kFloat.Proofs.Machine.Execution
import M68kFloat.Proofs.Machine.Frame

/-!
# What is said of an instruction

An instruction that is decoded is announced before its moves: an operation with its words, a branch
only if it is taken, and a state frame with the address of the instruction.  Then a refused
operand is told, and a register list tells every image that it moves and that it is done.
In the end the entry of the group tells a fault once more, with the opcode.

`Machine.Says m m' messages` gives the messages between two machines.  Nothing is said while a
mode is followed and an operand is moved (`Machine.apart_messages`), so there are few places to
look at, and `Machine.Told` lists the ways in which an instruction of either group is told.
-/

namespace M68kFloat

variable {β : Type}

namespace Machine

/-- Between two machines there were these messages. -/
def Says (m m' : Machine β) (messages : List Message) : Prop :=
  m'.messages = m.messages ++ messages

theorem says_nil {m m' : Machine β} (h : m'.messages = m.messages) : Says m m' [] :=
  h.trans (List.append_nil _).symm

theorem Says.trans {m m' m'' : Machine β} {messages messages' : List Message}
    (h : Says m m' messages) (h' : Says m' m'' messages') :
    Says m m'' (messages ++ messages') := by
  rw [Says, h', h, List.append_assoc]

end Machine

open Machine (Says says_nil apart_messages)

namespace Exec

variable {α γ : Type}

/-! ### Operands -/

/-- What is said of an operand: a fault, if it is refused. -/
def refusals : Except Fault α → List Message
  | .ok _ => []
  | .error fault => [.refused fault]

theorem refusals_map (f : α → γ) (result : Except Fault α) :
    refusals (result.map f) = refusals result := by
  cases result <;> rfl

theorem says_withOperand_of_refused {field : Byte} {size : Size} {access : Access}
    (h : Mode.route? field size access = none) (use : Mode → Exec β α) (m : Machine β) :
    Says m (withOperand field size access use m).2
      [.refused (refusal field size access m.cpu.start)] := by
  rw [withOperand_of_refused h]
  rfl

theorem says_withOperand {field : Byte} {size : Size} {access : Access} {use : Mode → Exec β α}
    (hUse : ∀ mode, Leaves Machine.messages (use mode)) (m : Machine β) :
    Says m (withOperand field size access use m).2
      (refusals (withOperand field size access use m).1) := by
  cases hRoute : Mode.route? field size access with
  | some mode =>
    rw [withOperand_of_route hRoute]
    exact says_nil (hUse mode m)
  | none =>
    rw [withOperand_of_refused hRoute]
    rfl

/-- Nothing follows what is refused. -/
theorem says_andThen_of_error {x : Exec β (Except Fault α)} {m : Machine β} {fault : Fault}
    {messages : List Message} (h : (x m).1 = .error fault) (hSays : Says m (x m).2 messages)
    {next : α → Exec β (Except Fault γ)} : Says m (andThen x next m).2 messages := by
  rw [andThen_of_error h]
  exact hSays

theorem leaves_modifyCpu (f : Cpu → Cpu) : Leaves Machine.messages (modifyCpu f : Exec β Unit) :=
  fun _ => rfl

variable [Bus β]

theorem says_general (source : Source RegisterNumber) (destination : RegisterNumber)
    (opmode : Opmode) (m : Machine β) :
    Says m (general source destination opmode m).2
      (refusals (general source destination opmode m).1) := by
  cases source with
  | register n => exact says_nil rfl
  | memory format =>
    exact says_withOperand (fun mode =>
      (leaves_readThrough apart_messages format.size mode).bind fun _ => leaves_modifyCpu _) m

theorem says_store (source : RegisterNumber) (format : Format) (m : Machine β) :
    Says m (store source format m).2 (refusals (store source format m).1) :=
  says_withOperand (fun mode =>
    (leaves_writeThrough apart_messages format.size _ mode).bind fun _ => leaves_modifyCpu _) m

theorem says_control (access : Access) (register : ControlRegister) (m : Machine β) :
    Says m (control access register m).2 (refusals (control access register m).1) := by
  refine says_withOperand (fun mode => ?_) m
  cases access with
  | write =>
    exact (leaves_writeThrough apart_messages .long _ mode).bind fun _ => leaves_modifyCpu _
  | read =>
    exact (leaves_readThrough apart_messages .long mode).bind fun _ =>
      (leaves_modifyCpu _).bind fun _ => leaves_modifyCpu _

/-! ### Register lists -/

/-- An image is told when its place is known, before it is moved. -/
theorem exists_says_transfer (access : Access) (mode : Mode) (bit : RegisterNumber)
    (m : Machine β) :
    ∃ place, Says m (transfer access mode bit m).2 [.extended access place] := by
  have hLocate := leaves_locate apart_messages mode .extended m
  cases access with
  | write =>
    refine ⟨(locate mode .extended m).1, ?_⟩
    exact (leaves_writePlace apart_messages _ .extended _ _).trans (congrArg (· ++ _) hLocate)
  | read =>
    refine ⟨(locate mode .extended m).1, ?_⟩
    exact (leaves_readPlace apart_messages _ .extended _).trans (congrArg (· ++ _) hLocate)

theorem exists_says_transferAll (access : Access) (mode : Mode) (bits : List RegisterNumber)
    (m : Machine β) :
    ∃ places : List Place, places.length = bits.length ∧
      Says m (transferAll access mode bits m).2 (places.map (.extended access)) := by
  induction bits generalizing m with
  | nil => exact ⟨[], rfl, says_nil rfl⟩
  | cons bit bits ih =>
    obtain ⟨place, hFirst⟩ := exists_says_transfer access mode bit m
    obtain ⟨places, hLength, hRest⟩ := ih (transfer access mode bit m).2
    exact ⟨place :: places, congrArg (· + 1) hLength, hFirst.trans hRest⟩

theorem exists_says_multiple {access : Access} {list : Byte} {m : Machine β}
    (h : (multiple access list m).1 = .ok ()) :
    ∃ places : List Place, places.length = list.cpop.toNat ∧
      Says m (multiple access list m).2
        (places.map (.extended access) ++ [.moved access list]) := by
  by_cases hList : list = 0
  · subst hList
    rw [multiple_empty]
    exact ⟨[], rfl, rfl⟩
  · cases hRoute : Mode.route? m.cpu.field .extended access with
    | none =>
      rw [multiple_of_refused hList hRoute] at h
      cases h
    | some mode =>
      obtain ⟨places, hLength, hSays⟩ := exists_says_transferAll access mode (listed list) m
      rw [multiple_of_route hRoute]
      exact ⟨places, hLength.trans (length_listed list), hSays.trans rfl⟩

theorem says_moveListed_of_refused {access : Access} {field : Byte}
    (h : Mode.route? field .extended access = none) (bit : RegisterNumber) (m : Machine β) :
    Says m (moveListed access field bit m).2
      [.refused (refusal field .extended access m.cpu.start)] := by
  rw [moveListed, bind_apply, getCpu_apply]
  cases access with
  | write =>
    exact says_andThen_of_error (congrArg Prod.fst (withOperand_of_refused h _ m))
      (says_withOperand_of_refused h _ m)
  | read =>
    exact says_andThen_of_error (congrArg Prod.fst (withOperand_of_refused h _ m))
      (says_withOperand_of_refused h _ m)

/-- A list is refused for its first register. -/
theorem says_multiple_of_error {access : Access} {list : Byte} {m : Machine β} {fault : Fault}
    (h : (multiple access list m).1 = .error fault) :
    Says m (multiple access list m).2 [.refused fault] := by
  by_cases hList : list = 0
  · subst hList
    rw [multiple_empty] at h
    cases h
  · cases hRoute : Mode.route? m.cpu.field .extended access with
    | some mode =>
      rw [multiple_of_route hRoute] at h
      cases h
    | none =>
      obtain ⟨bit, bits, hBits⟩ :=
        List.exists_cons_of_ne_nil (mt (listed_eq_nil_iff list).mp hList)
      have hFirst := moveListed_of_refused hRoute bit m
      have hAll : (moveAll access m.cpu.field (bit :: bits) m).1 = _ :=
        congrArg Prod.fst (andThen_of_error hFirst _)
      rw [multiple_of_refused hList hRoute, Except.error.injEq] at h
      rw [multiple, bind_apply, getCpu_apply, hBits, ← h]
      exact says_andThen_of_error hAll
        (says_andThen_of_error hFirst (says_moveListed_of_refused hRoute bit m))

end Exec

namespace Instruction

open Exec

variable [Bus β]

/-! ### Instructions -/

/-- What is said of an instruction before its moves.  A branch is announced when it jumps. -/
def announced (ins : Instruction) (m : Machine β) : List Message :=
  match ins with
  | operation op => [.dispatched m.cpu.start m.cpu.ir m.nextWord op]
  | branch condition _ =>
    if condition.holds m.cpu.codes then [.branched condition (ins.prepared m).cpu.pc] else []
  | saveFrame => [.saving m.cpu.start]
  | restoreFrame => [.restoring m.cpu.start]

theorem says_prepared (ins : Instruction) (m : Machine β) :
    Says m (ins.prepared m) (ins.announced m) := by
  cases ins with
  | operation op => rfl
  | branch condition form =>
    have hWords := leaves_fetchOffset apart_messages form m
    rw [announced]
    cases h : condition.holds m.cpu.codes with
    | true =>
      rw [if_pos rfl, prepared_branch_of_holds h]
      exact congrArg (· ++ _) hWords
    | false =>
      rw [if_neg Bool.false_ne_true, prepared_branch_of_not h]
      exact says_nil hWords
  | saveFrame | restoreFrame => rfl

end Instruction

/-- The messages of an instruction that ends in a result, but for the one of its group, where it
decodes and where it does not. -/
inductive Machine.Told [Bus β] (m : Machine β) :
    Option Instruction → Except Fault Unit → List Message → Prop
  | undecoded {fault : Fault} : Told m none (.error fault) []
  | refused {ins : Instruction} {fault : Fault} (h : ins.jumps m.cpu.codes = false) :
    Told m (some ins) (.error fault) (ins.announced m ++ [.refused fault])
  | listed {ins : Instruction} {access : Access} {list : Byte} {places : List Place}
    (h : ins = .operation (.multiple access list)) (hLength : places.length = list.cpop.toNat) :
    Told m (some ins) (.ok ())
      (ins.announced m ++ (places.map (.extended access) ++ [.moved access list]))
  | done {ins : Instruction} (h : ∀ access list, ins ≠ .operation (.multiple access list)) :
    Told m (some ins) (.ok ()) (ins.announced m)

namespace Exec

variable [Bus β] {m : Machine β}

/-- What an execution says are the messages of an instruction. -/
def Tells (x : Exec β (Except Fault Unit)) (m : Machine β) (ins? : Option Instruction) : Prop :=
  ∃ messages, m.Told ins? (x m).1 messages ∧ Says m (x m).2 messages

/-- An instruction with one operand. -/
theorem tells_of_refusals {x : Exec β (Except Fault Unit)} {ins : Instruction}
    (hOther : ∀ access list, ins ≠ .operation (.multiple access list))
    (hJumps : ins.jumps m.cpu.codes = false)
    (h : Says (ins.prepared m) (x m).2 (refusals (x m).1)) : Tells x m (some ins) := by
  have hAll := (ins.says_prepared m).trans h
  rw [Tells]
  cases hResult : (x m).1 with
  | ok _ =>
    refine ⟨_, .done hOther, ?_⟩
    rwa [hResult, refusals, List.append_nil] at hAll
  | error fault =>
    rw [hResult] at hAll
    exact ⟨_, .refused hJumps, hAll⟩

theorem tells_fault (cause : Cause) :
    Tells (fault cause >>= fun fault => pure (.error fault)) m none :=
  ⟨[], .undecoded, says_nil rfl⟩

theorem tells_multiple {access : Access} {list : Byte}
    (h : dispatch m = multiple access list
      ((Instruction.operation (.multiple access list)).prepared m)) :
    Tells dispatch m (some (.operation (.multiple access list))) := by
  have hPrepared := (Instruction.operation (.multiple access list)).says_prepared m
  rw [Tells, h]
  cases hResult : (multiple access list
      ((Instruction.operation (.multiple access list)).prepared m)).1 with
  | ok _ =>
    obtain ⟨places, hLength, hSays⟩ := exists_says_multiple hResult
    exact ⟨_, .listed rfl hLength, hPrepared.trans hSays⟩
  | error fault => exact ⟨_, .refused rfl, hPrepared.trans (says_multiple_of_error hResult)⟩

theorem tells_dispatch (m : Machine β) :
    Tells dispatch m ((Operation.ofExtension m.nextWord).toOption.map .operation) := by
  cases hWord : Operation.ofExtension m.nextWord with
  | error cause =>
    rw [Tells, dispatch_of_error hWord]
    exact ⟨[], .undecoded, says_nil (leaves_fetchWord apart_messages m)⟩
  | ok op =>
    have hRun : dispatch m = operation op ((Instruction.operation op).prepared m) :=
      dispatch_of_ok hWord
    cases op with
    | multiple access list => exact tells_multiple hRun
    | general source destination opmode =>
      refine tells_of_refusals nofun rfl ?_
      rw [hRun]
      exact says_general source destination opmode _
    | store source format =>
      refine tells_of_refusals nofun rfl ?_
      rw [hRun]
      exact says_store source format _
    | control access register =>
      refine tells_of_refusals nofun rfl ?_
      rw [hRun]
      exact says_control access register _

theorem tells_branch (form : BranchForm) (m : Machine β) :
    Tells (branch form) m
      ((Condition.ofCode? m.cpu.field).map (Instruction.branch · form)) := by
  cases hCondition : Condition.ofCode? m.cpu.field with
  | none =>
    have hRun : branch form m = (.error ⟨.condition m.cpu.field, m.cpu.start⟩, m) := by
      rw [branch, bind_apply, getCpu_apply]
      dsimp only
      rw [hCondition]
      rfl
    rw [Tells, hRun]
    exact ⟨[], .undecoded, says_nil rfl⟩
  | some condition =>
    rw [Tells, branch_of_condition form hCondition]
    refine ⟨_, .done ?_, (Instruction.branch condition form).says_prepared m⟩
    intro access list h
    cases h

theorem tells_saveFrame (m : Machine β) : Tells saveFrame m (some .saveFrame) :=
  tells_of_refusals nofun rfl (says_withOperand (leaves_writeThrough apart_messages .long 0) _)

theorem tells_restoreFrame (m : Machine β) : Tells restoreFrame m (some .restoreFrame) := by
  have hRead : Says (Instruction.restoreFrame.prepared m) (restoreFrame m).2
      (refusals (readOperand m.cpu.field .long (Instruction.restoreFrame.prepared m)).1) :=
    says_withOperand (leaves_readThrough apart_messages .long) _
  rw [← refusals_map] at hRead
  exact tells_of_refusals nofun rfl hRead

/-- What the entry of a group says of a fault. -/
def rejections (opcode : Word) : Except Fault Unit → List Message
  | .ok _ => []
  | .error fault => [.rejected opcode fault]

omit [Bus β] in
theorem says_reporting {x : Exec β (Except Fault Unit)} {messages : List Message}
    (h : Says m (x m).2 messages) : Says m (reporting x m).2
      (messages ++ rejections (reporting x m).2.cpu.ir (reporting x m).1) := by
  cases hResult : (x m).1 with
  | ok _ =>
    rw [reporting_of_ok hResult, hResult]
    exact h.trans (says_nil rfl)
  | error fault =>
    rw [reporting_of_error hResult]
    exact h.trans rfl

end Exec

/-! ### Both groups -/

namespace Group

open Exec

variable [Bus β] {group : Group} {m : Machine β}

theorem exists_tells (group : Group) (m : Machine β) :
    ∃ x, group.execute m = reporting x m ∧ Tells x m (m.instruction? group) := by
  cases group with
  | general =>
    refine ⟨_, generalGroup_apply m, ?_⟩
    rcases class_cases (m.cpu.ir.extractLsb' 6 2) with hClass | hClass | hClass | hClass
    all_goals simp only [Machine.instruction?, Instruction.ofWords?, hClass]
    · exact tells_dispatch m
    · exact tells_fault _
    · exact tells_branch .word m
    · exact tells_branch .long m
  | frame =>
    refine ⟨_, frameGroup_apply m, ?_⟩
    rcases class_cases (m.cpu.ir.extractLsb' 6 2) with hClass | hClass | hClass | hClass
    all_goals simp only [Machine.instruction?, Instruction.ofWords?, hClass]
    · exact tells_saveFrame m
    · exact tells_restoreFrame m
    · exact tells_fault _
    · exact tells_fault _

theorem ir_of_error {fault : Fault} (h : (group.execute m).1 = .error fault) :
    (group.execute m).2.cpu.ir = m.cpu.ir := by
  rcases group.left_of_error h with hLeft | hLeft <;> rw [hLeft.cpu]

/-- **What is said of an instruction**: the messages of its kind, and a fault with the opcode. -/
theorem exists_told (group : Group) (m : Machine β) :
    ∃ messages, m.Told (m.instruction? group) (group.execute m).1 messages ∧
      Says m (group.execute m).2 (messages ++ rejections m.cpu.ir (group.execute m).1) := by
  obtain ⟨x, hRun, messages, hTold, hSays⟩ := group.exists_tells m
  have hAll := says_reporting hSays
  rw [← hRun] at hAll
  refine ⟨messages, ?_, ?_⟩
  · rwa [hRun, reporting_result]
  · cases hResult : (group.execute m).1 with
    | ok _ => rwa [hResult] at hAll
    | error fault => rwa [hResult, ir_of_error hResult] at hAll

end Group

end M68kFloat
