import M68kFloat.Proofs.Machine.Steps

/-!
# Refused instructions are atomic

An instruction can be refused for its main operation, its extension word, its condition
or its operand, and a multiple move asks for an operand once for every register.  In all
of these the refusal comes before anything has happened.

`RefusesCleanly x` says so of an execution: a fault of `x` names the start of the
instruction, and nothing but messages sets the machine that is left apart from the one
before.  Every operation and branch has this property, the multiple move because
`moveAll_of_route` leaves only its first register to refuse.  The one trace that an
instruction may leave is the fetch of its extension word, which comes before the
decoding: `rejection_is_atomic`.
-/

namespace M68kFloat

variable {β α γ : Type}

/-- Nothing but messages sets `m'` apart from `m`. -/
structure Machine.SameButMessages (m m' : Machine β) : Prop where
  cpu : m'.cpu = m.cpu
  bus : m'.bus = m.bus
  calls : m'.calls = m.calls

/-- But for messages, `m'` is what `m` becomes by fetching one word: the program counter
has moved by two, and the only call on the bus is the read of that word. -/
structure Machine.FetchedOneWord [Bus β] (m m' : Machine β) : Prop where
  cpu : m'.cpu = { m.cpu with pc := m.cpu.pc + 2 }
  bus : m'.bus = (Bus.readWord m.cpu.pc m.bus).2
  calls : m'.calls = m.calls ++
    [.read .stream .word m.cpu.pc ((Bus.readWord m.cpu.pc m.bus).1.setWidth 32)]

namespace Exec

open Machine (SameButMessages FetchedOneWord)

/-- A fault of `x` is one of the instruction that has begun, and `x` has done nothing but
send messages when it ends in a fault. -/
def RefusesCleanly (x : Exec β (Except Fault α)) : Prop :=
  ∀ (m : Machine β) (fault : Fault), (x m).1 = .error fault →
    fault.pc = m.cpu.start ∧ SameButMessages m (x m).2

/-! ### How the property composes -/

/-- What cannot be refused has the property. -/
theorem refusesCleanly_map_ok (x : Exec β α) : RefusesCleanly (Except.ok <$> x) := by
  intro m fault h
  cases h

theorem refusesCleanly_fault (cause : Cause) :
    RefusesCleanly (fault cause >>= fun fault => pure (.error fault) : Exec β (Except Fault α)) := by
  intro m fault h
  cases h
  exact ⟨rfl, rfl, rfl, rfl⟩

theorem refusesCleanly_getCpu {f : Cpu → Exec β (Except Fault α)}
    (h : ∀ cpu, RefusesCleanly (f cpu)) : RefusesCleanly (getCpu >>= f) :=
  fun m fault hFault => h m.cpu m fault hFault

theorem refusesCleanly_say {x : Exec β (Except Fault α)} (message : Message)
    (h : RefusesCleanly x) : RefusesCleanly (say message >>= fun _ => x) := by
  intro m fault hFault
  obtain ⟨hStart, hSame⟩ := h _ fault hFault
  exact ⟨hStart, hSame.cpu, hSame.bus, hSame.calls⟩

theorem refusesCleanly_map {x : Exec β (Except Fault α)} (f : α → γ) (h : RefusesCleanly x) :
    RefusesCleanly (Except.map f <$> x) := by
  intro m fault hFault
  refine h m fault ?_
  rw [map_apply] at hFault
  cases hx : (x m).1 with
  | ok a => rw [hx] at hFault; cases hFault
  | error fault' => rw [hx] at hFault; cases hFault; rfl

/-- What follows an access may not be refused any more. -/
theorem refusesCleanly_andThen {x : Exec β (Except Fault α)} (h : RefusesCleanly x)
    (next : α → Exec β γ) : RefusesCleanly (andThen x fun a => Except.ok <$> next a) := by
  intro m fault hFault
  cases hx : (x m).1 with
  | ok a =>
    rw [andThen_of_ok hx] at hFault
    cases hFault
  | error fault' =>
    rw [andThen_of_error hx] at hFault ⊢
    cases hFault
    exact h m fault hx

theorem refusesCleanly_withOperand (field : Byte) (size : Size) (access : Access)
    (use : Mode → Exec β α) : RefusesCleanly (withOperand field size access use) := by
  cases hRoute : Mode.route? field size access with
  | some mode =>
    rw [withOperand_of_route hRoute]
    exact refusesCleanly_map_ok _
  | none =>
    intro m fault h
    rw [withOperand_of_refused hRoute] at h ⊢
    cases h
    exact ⟨rfl, rfl, rfl, rfl⟩

theorem refusesCleanly_reporting {x : Exec β (Except Fault Unit)} (h : RefusesCleanly x) :
    RefusesCleanly (reporting x) := by
  intro m fault hFault
  cases hx : (x m).1 with
  | ok a =>
    rw [reporting_of_ok hx, hx] at hFault
    cases hFault
  | error fault' =>
    rw [reporting_of_error hx] at hFault ⊢
    cases hFault
    obtain ⟨hStart, hSame⟩ := h m fault hx
    exact ⟨hStart, hSame.cpu, hSame.bus, hSame.calls⟩

/-! ### Operations and branches -/

variable [Bus β]

theorem refusesCleanly_general (source : Source RegisterNumber) (destination : RegisterNumber)
    (opmode : Opmode) : RefusesCleanly (general source destination opmode : Exec β _) := by
  refine refusesCleanly_getCpu fun cpu => ?_
  cases source with
  | register n => exact refusesCleanly_map_ok _
  | memory format => exact refusesCleanly_withOperand _ _ _ _

theorem refusesCleanly_moveListed (access : Access) (field : Byte) (bit : RegisterNumber) :
    RefusesCleanly (moveListed access field bit : Exec β _) := by
  refine refusesCleanly_getCpu fun cpu => ?_
  cases access with
  | write => exact refusesCleanly_andThen (refusesCleanly_withOperand _ _ _ _) _
  | read => exact refusesCleanly_andThen (refusesCleanly_withOperand _ _ _ _) _

theorem moveListed_of_refused {access : Access} {field : Byte}
    (h : Mode.route? field .extended access = none) (bit : RegisterNumber) (m : Machine β) :
    (moveListed access field bit m).1 =
      .error (refusal field .extended access m.cpu.start) := by
  rw [moveListed, bind_apply, getCpu_apply]
  cases access with
  | write =>
    have hFault := congrArg Prod.fst
      (withOperand_of_refused h (writeExtendedThrough (m.cpu.fp.get bit)) m)
    exact congrArg Prod.fst (andThen_of_error hFault _)
  | read =>
    have hFault := congrArg Prod.fst (withOperand_of_refused h readExtendedThrough m)
    exact congrArg Prod.fst (andThen_of_error hFault _)

/-- **No register of a list is refused after another has been moved.**  The field is
admitted for all of them or refused for the first. -/
theorem refusesCleanly_moveAll (access : Access) (field : Byte) (bits : List RegisterNumber) :
    RefusesCleanly (moveAll access field bits : Exec β _) := by
  cases hRoute : Mode.route? field .extended access with
  | some mode =>
    rw [moveAll_of_route hRoute]
    exact refusesCleanly_map_ok _
  | none =>
    cases bits with
    | nil => exact refusesCleanly_map_ok (pure ())
    | cons bit bits =>
      intro m fault h
      have hFirst := moveListed_of_refused hRoute bit m
      rw [moveAll, andThen_of_error hFirst] at h ⊢
      cases h
      exact refusesCleanly_moveListed access field bit m _ hFirst

theorem refusesCleanly_operation (op : Operation RegisterNumber) :
    RefusesCleanly (operation op : Exec β _) := by
  cases op with
  | general source destination opmode => exact refusesCleanly_general source destination opmode
  | store source format =>
    exact refusesCleanly_getCpu fun cpu => refusesCleanly_withOperand _ _ _ _
  | control access register =>
    exact refusesCleanly_getCpu fun cpu => refusesCleanly_withOperand _ _ _ _
  | multiple access list =>
    exact refusesCleanly_getCpu fun cpu =>
      refusesCleanly_andThen (refusesCleanly_moveAll access cpu.field (listed list)) _

theorem refusesCleanly_branch (form : BranchForm) :
    RefusesCleanly (branch form : Exec β _) := by
  refine refusesCleanly_getCpu fun cpu => ?_
  cases hCondition : Condition.ofCode? cpu.field with
  | none => exact refusesCleanly_fault _
  | some condition =>
    intro m fault h
    cases h

/-! ### The opcode groups -/

theorem refusesCleanly_frameGroup : RefusesCleanly (frameGroup : Exec β _) := by
  refine refusesCleanly_reporting (refusesCleanly_getCpu fun cpu => ?_)
  split
  · exact refusesCleanly_getCpu fun cpu =>
      refusesCleanly_say _ (refusesCleanly_withOperand _ _ _ _)
  · exact refusesCleanly_getCpu fun cpu =>
      refusesCleanly_say _ (refusesCleanly_map _ (refusesCleanly_withOperand _ _ _ _))
  · exact refusesCleanly_fault _
  · exact refusesCleanly_fault _

/-- A refusal after the fetch of an extension word leaves nothing but the fetch. -/
theorem dispatch_error {m : Machine β} {fault : Fault} (h : (dispatch m).1 = .error fault) :
    fault.pc = m.cpu.start ∧ FetchedOneWord m (dispatch m).2 := by
  cases hWord : Operation.ofExtension (Bus.readWord m.cpu.pc m.bus).1 with
  | error cause =>
    rw [dispatch_of_error hWord] at h ⊢
    cases h
    exact ⟨rfl, rfl, rfl, rfl⟩
  | ok op =>
    rw [dispatch_of_ok hWord] at h ⊢
    obtain ⟨hStart, hSame⟩ := refusesCleanly_operation op _ fault h
    exact ⟨hStart, hSame.cpu, hSame.bus, hSame.calls⟩

/-- A refused instruction of the general group leaves the fetch of its extension word, if
its class has one, and otherwise nothing. -/
theorem generalGroup_error {m : Machine β} {fault : Fault}
    (h : (generalGroup m).1 = .error fault) :
    fault.pc = m.cpu.start ∧
      if m.cpu.ir.extractLsb' 6 2 = 0 then FetchedOneWord m (generalGroup m).2
      else SameButMessages m (generalGroup m).2 := by
  rcases class_cases (m.cpu.ir.extractLsb' 6 2) with hClass | hClass | hClass | hClass
  · rw [if_pos hClass]
    rw [generalGroup_of_extension hClass] at h ⊢
    cases hDispatch : (dispatch m).1 with
    | ok a =>
      rw [reporting_of_ok hDispatch, hDispatch] at h
      cases h
    | error fault' =>
      rw [reporting_of_error hDispatch] at h ⊢
      cases h
      obtain ⟨hStart, hFetched⟩ := dispatch_error hDispatch
      exact ⟨hStart, hFetched.cpu, hFetched.bus, hFetched.calls⟩
  all_goals
    rw [if_neg (by rw [hClass]; decide)]
    rw [generalGroup_apply, hClass] at h ⊢
  · exact refusesCleanly_reporting (refusesCleanly_fault _) m fault h
  · exact refusesCleanly_reporting (refusesCleanly_branch .word) m fault h
  · exact refusesCleanly_reporting (refusesCleanly_branch .long) m fault h

/-- **Rejected instructions are atomic.**  On any bus and for whatever instruction: a
fault names the start of the instruction, and the machine that is left has the processor,
the bus and the calls on the bus of the machine before.  Only an instruction with an
extension word has moved the program counter, by two, and made one call, the read of that
word.  The same holds of the four accesses through a field by themselves, which fetch
nothing. -/
theorem rejection_is_atomic (m : Machine β) :
    (∀ fault, (generalGroup m).1 = .error fault → fault.pc = m.cpu.start ∧
      if m.cpu.ir.extractLsb' 6 2 = 0 then FetchedOneWord m (generalGroup m).2
      else SameButMessages m (generalGroup m).2) ∧
    (∀ fault, (frameGroup m).1 = .error fault → fault.pc = m.cpu.start ∧
      SameButMessages m (frameGroup m).2) ∧
    (∀ field size fault, (readOperand field size m).1 = .error fault →
      fault.pc = m.cpu.start ∧ SameButMessages m (readOperand field size m).2) ∧
    (∀ field size value fault, (writeOperand field size value m).1 = .error fault →
      fault.pc = m.cpu.start ∧ SameButMessages m (writeOperand field size value m).2) ∧
    (∀ field fault, (readExtended field m).1 = .error fault →
      fault.pc = m.cpu.start ∧ SameButMessages m (readExtended field m).2) ∧
    (∀ field register fault, (writeExtended field register m).1 = .error fault →
      fault.pc = m.cpu.start ∧ SameButMessages m (writeExtended field register m).2) :=
  ⟨fun _ h => generalGroup_error h, refusesCleanly_frameGroup m,
    fun field size => refusesCleanly_withOperand field size .read _ m,
    fun field size _ => refusesCleanly_withOperand field size .write _ m,
    fun field => refusesCleanly_withOperand field .extended .read _ m,
    fun field _ => refusesCleanly_withOperand field .extended .write _ m⟩

/-- The store of two registers to an immediate operand, which no store allows. -/
def immediateStore : Machine Ram := .begun 0xF23C [0xE003]

/-- At an immediate operand all six are refused. -/
theorem rejection_is_atomic_immediate :
    ((generalGroup immediateStore).1 = .error (refusal 0x3C .extended .write 0x1000) ∧
      FetchedOneWord immediateStore (generalGroup immediateStore).2) ∧
    ((frameGroup immediateStore).1 = .error (refusal 0x3C .long .write 0x1000) ∧
      SameButMessages immediateStore (frameGroup immediateStore).2) ∧
    ((readOperand 0x3C .extended immediateStore).1 =
        .error (refusal 0x3C .extended .read 0x1000) ∧
      SameButMessages immediateStore (readOperand 0x3C .extended immediateStore).2) ∧
    ((writeOperand 0x3C .double 7 immediateStore).1 =
        .error (refusal 0x3C .double .write 0x1000) ∧
      SameButMessages immediateStore (writeOperand 0x3C .double 7 immediateStore).2) ∧
    ((readExtended 0x3C immediateStore).1 = .error (refusal 0x3C .extended .read 0x1000) ∧
      SameButMessages immediateStore (readExtended 0x3C immediateStore).2) ∧
    ((writeExtended 0x3C .zero immediateStore).1 =
        .error (refusal 0x3C .extended .write 0x1000) ∧
      SameButMessages immediateStore (writeExtended 0x3C .zero immediateStore).2) := by
  obtain ⟨hGeneral, hFrame, hRead, hWrite, hReadExtended, hWriteExtended⟩ :=
    rejection_is_atomic immediateStore
  exact ⟨⟨rfl, (hGeneral _ rfl).2⟩, ⟨rfl, (hFrame _ rfl).2⟩, ⟨rfl, (hRead _ _ _ rfl).2⟩,
    ⟨rfl, (hWrite _ _ _ _ rfl).2⟩, ⟨rfl, (hReadExtended _ _ rfl).2⟩,
    ⟨rfl, (hWriteExtended _ _ _ rfl).2⟩⟩

end Exec

end M68kFloat
