import M68kFloat.Machine.Execute
import M68kFloat.Memory

/-!
# What the steps do to a machine

Every execution is a function from a machine to a result and a machine.  This file
gives the value of that function for the steps that executions are made of, on any
bus: the processor looked at and changed, a message, one call on the bus, a fetch, a jump.
It also says what the access through a field is, in the only two cases there are.

* `withOperand_of_route`: a mode that is allowed is followed, and nothing can be
  refused any more.
* `withOperand_of_refused`: otherwise there is a fault and a message, and that is all.
* `moveAll_of_route`: the registers of a list ask for the operand again and again, but
  the answer depends on the field alone, so after one admission the whole move is
  `transferAll`, which cannot be refused.
-/

namespace M68kFloat

/-- A machine that has begun an instruction at address 0x1000: its opcode is fetched, and
its other words follow in memory. -/
def Machine.begun (opcode : Word) (words : List Word) : Machine Ram where
  cpu := ({ Cpu.initial .m68040 with pc := 0x1002 }).setup opcode
  bus := Ram.zero.modify (·.loadWords 0x1002 words)
  calls := []
  messages := []

/-- The width of the displacement of a branch. -/
def BranchForm.width : BranchForm → DisplacementWidth
  | word => .word
  | long => .long

namespace Exec

variable {β α γ : Type}

/-! ### The processor and the messages -/

@[simp] theorem getCpu_apply (m : Machine β) : getCpu m = (m.cpu, m) := rfl

@[simp] theorem modifyCpu_apply (f : Cpu → Cpu) (m : Machine β) :
    modifyCpu f m = ((), { m with cpu := f m.cpu }) := rfl

@[simp] theorem say_apply (message : Message) (m : Machine β) :
    say message m = ((), { m with messages := m.messages ++ [message] }) := rfl

/-! ### An access and what follows it -/

theorem andThen_of_ok {x : Exec β (Except Fault α)} {m : Machine β} {a : α}
    (h : (x m).1 = .ok a) (next : α → Exec β (Except Fault γ)) :
    andThen x next m = next a (x m).2 := by
  rw [andThen, bind_apply, h]

theorem andThen_of_error {x : Exec β (Except Fault α)} {m : Machine β} {fault : Fault}
    (h : (x m).1 = .error fault) (next : α → Exec β (Except Fault γ)) :
    andThen x next m = (.error fault, (x m).2) := by
  rw [andThen, bind_apply, h]
  rfl

theorem andThen_map_ok (x : Exec β α) (next : α → Exec β (Except Fault γ)) :
    andThen (Except.ok <$> x) next = x >>= next := rfl

/-- The fault of an operand that a field may not access. -/
def refusal (field : Byte) (size : Size) (access : Access) (start : Long) : Fault :=
  ⟨.illegalAddressing ((Mode.modeBits field).setWidth 8) ((Mode.registerBits field).setWidth 8)
    size access, start⟩

theorem withOperand_of_route {field : Byte} {size : Size} {access : Access} {mode : Mode}
    (h : Mode.route? field size access = some mode) (use : Mode → Exec β α) :
    withOperand field size access use = Except.ok <$> use mode := by
  rw [withOperand, h]

theorem withOperand_of_refused {field : Byte} {size : Size} {access : Access}
    (h : Mode.route? field size access = none) (use : Mode → Exec β α) (m : Machine β) :
    withOperand field size access use m =
      (.error (refusal field size access m.cpu.start),
        { m with
          messages := m.messages ++ [.refused (refusal field size access m.cpu.start)] }) := by
  rw [withOperand, h]
  rfl

/-- A field leads to a mode for an access exactly when it names the mode and the mode
allows the access. -/
theorem route_eq_some {field : Byte} {size : Size} {access : Access} {mode : Mode} :
    Mode.route? field size access = some mode ↔
      Mode.ofField? field = some mode ∧ mode.allows size access = true := by
  simp only [Mode.route?, Option.filter_eq_some_iff]

variable [Bus β]

/-! ### The instruction stream -/

theorem fetchWord_apply (m : Machine β) :
    fetchWord m = ((Bus.readWord m.cpu.pc m.bus).1,
      { m with
        cpu := m.cpu.advance 2
        bus := (Bus.readWord m.cpu.pc m.bus).2
        calls := m.calls ++
          [.read .stream .word m.cpu.pc ((Bus.readWord m.cpu.pc m.bus).1.setWidth 32)] }) := rfl

/-- A branch reads its displacement, and nothing but that. -/
theorem fetchOffset_snd (form : BranchForm) (m : Machine β) :
    (fetchOffset form m).2 = (fetchDisplacement form.width m).2 := by
  cases form <;> rfl

theorem codes_fetchOffset (form : BranchForm) (m : Machine β) :
    (fetchOffset form m).2.cpu.codes = m.cpu.codes := by
  cases form <;> rfl

/-- The offset of a branch is a signed long, although nothing wraps where it comes from a word. -/
theorem fetchOffset_bounds (form : BranchForm) (m : Machine β) :
    -0x80000000 ≤ (fetchOffset form m).1 ∧ (fetchOffset form m).1 < 0x80000000 := by
  cases form with
  | word =>
    have hLow := BitVec.le_toInt (fetchWord m).1
    have hHigh := BitVec.toInt_lt (x := (fetchWord m).1)
    show -0x80000000 ≤ (fetchWord m).1.toInt - 2 ∧ (fetchWord m).1.toInt - 2 < 0x80000000
    omega
  | long => exact ⟨BitVec.le_toInt _, BitVec.toInt_lt⟩

/-- An extension word that is no operation is refused after its fetch, and nothing else
happens. -/
theorem dispatch_of_error {m : Machine β} {cause : Cause}
    (h : Operation.ofExtension (Bus.readWord m.cpu.pc m.bus).1 = .error cause) :
    dispatch m = (.error ⟨cause, m.cpu.start⟩, (fetchWord m).2) := by
  rw [dispatch, bind_apply, fetchWord_apply]
  simp only [h]
  rfl

/-- The machine that has fetched and decoded its extension word. -/
def decoded (m : Machine β) (op : Operation RegisterNumber) : Machine β :=
  { (fetchWord m).2 with
    messages := m.messages ++
      [.dispatched m.cpu.start m.cpu.ir (Bus.readWord m.cpu.pc m.bus).1 op] }

/-- An operation happens to the machine that has fetched its extension word. -/
theorem dispatch_of_ok {m : Machine β} {op : Operation RegisterNumber}
    (h : Operation.ofExtension (Bus.readWord m.cpu.pc m.bus).1 = .ok op) :
    dispatch m = operation op (decoded m op) := by
  rw [dispatch, bind_apply, fetchWord_apply]
  simp only [h]
  rfl

/-! ### Jumps -/

/-- The machine that has jumped by an offset. -/
def jumped (m : Machine β) (condition : Condition) (offset : Int) : Machine β where
  cpu := m.cpu.jump offset
  bus := Bus.cancelTrace m.bus
  calls := m.calls ++ [.cancelTrace]
  messages := m.messages ++ [.branched condition (m.cpu.jump offset).pc]

theorem jumpIf_of_holds {condition : Condition} {m : Machine β}
    (h : condition.holds m.cpu.codes = true) (offset : Int) :
    jumpIf condition offset m = ((), jumped m condition offset) := by
  rw [jumpIf, bind_apply, getCpu_apply, if_pos h]
  rfl

theorem jumpIf_of_not {condition : Condition} {m : Machine β}
    (h : condition.holds m.cpu.codes = false) (offset : Int) :
    jumpIf condition offset m = ((), m) := by
  rw [jumpIf, bind_apply, getCpu_apply, if_neg (Bool.eq_false_iff.mp h)]
  rfl

/-! ### The groups of opcodes -/

theorem class_cases : ∀ bits : BitVec 2, bits = 0 ∨ bits = 1 ∨ bits = 2 ∨ bits = 3 := by decide

omit [Bus β] in
theorem reporting_of_ok {x : Exec β (Except Fault Unit)} {m : Machine β}
    (h : (x m).1 = .ok ()) : reporting x m = x m := by
  rw [reporting, bind_apply, h]
  exact Prod.ext h.symm rfl

omit [Bus β] in
theorem reporting_of_error {x : Exec β (Except Fault Unit)} {m : Machine β} {fault : Fault}
    (h : (x m).1 = .error fault) :
    reporting x m = (.error fault,
      { (x m).2 with messages := (x m).2.messages ++ [.rejected (x m).2.cpu.ir fault] }) := by
  rw [reporting, bind_apply, h]
  rfl

theorem generalGroup_apply (m : Machine β) :
    generalGroup m = reporting (match m.cpu.ir.extractLsb' 6 2 with
      | 0#2 => dispatch
      | 1#2 => fault (.mainOp 1) >>= fun fault => pure (.error fault)
      | 2#2 => branch .word
      | 3#2 => branch .long) m := rfl

theorem generalGroup_of_extension {m : Machine β} (h : m.cpu.ir.extractLsb' 6 2 = 0) :
    generalGroup m = reporting dispatch m := by
  rw [generalGroup_apply, h]
  rfl

theorem generalGroup_of_operation {m : Machine β} {op : Operation RegisterNumber}
    (hClass : m.cpu.ir.extractLsb' 6 2 = 0)
    (hWord : Operation.ofExtension (Bus.readWord m.cpu.pc m.bus).1 = .ok op)
    (hOk : (operation op (decoded m op)).1 = .ok ()) :
    generalGroup m = operation op (decoded m op) := by
  rw [generalGroup_of_extension hClass]
  rw [← dispatch_of_ok hWord] at hOk ⊢
  exact reporting_of_ok hOk

/-- A general instruction that is accepted and has an extension word carries out an operation. -/
theorem exists_operation_of_ok {m : Machine β} (hClass : m.cpu.ir.extractLsb' 6 2 = 0)
    (hOk : (generalGroup m).1.isOk) :
    ∃ op, Operation.ofExtension (Bus.readWord m.cpu.pc m.bus).1 = .ok op ∧
      (operation op (decoded m op)).1 = .ok () ∧ generalGroup m = operation op (decoded m op) := by
  have hDispatch : (dispatch m).1 = .ok () := by
    rw [generalGroup_of_extension hClass] at hOk
    cases h : (dispatch m).1 with
    | ok a => rfl
    | error fault =>
      rw [reporting_of_error h] at hOk
      cases hOk
  cases hWord : Operation.ofExtension (Bus.readWord m.cpu.pc m.bus).1 with
  | error cause =>
    rw [dispatch_of_error hWord] at hDispatch
    cases hDispatch
  | ok op =>
    rw [dispatch_of_ok hWord] at hDispatch
    exact ⟨op, rfl, hDispatch, generalGroup_of_operation hClass hWord hDispatch⟩

/-! ### Moves of one operand -/

theorem store_of_route {m : Machine β} {format : Format} {mode : Mode}
    (h : Mode.route? m.cpu.field format.size .write = some mode) (n : RegisterNumber) :
    let written := (writeThrough format.size (format.store (m.cpu.fp.get n)) mode m).2
    store n format m =
      (.ok (), { written with cpu := written.cpu.charge m.cpu.costs.store }) := by
  rw [store, bind_apply, getCpu_apply]
  dsimp only
  rw [withOperand_of_route h]
  rfl

theorem control_write_of_route {m : Machine β} {mode : Mode}
    (h : Mode.route? m.cpu.field .long .write = some mode) (register : ControlRegister) :
    let written := (writeThrough .long ((m.cpu.control register).setWidth 64) mode m).2
    control .write register m =
      (.ok (), { written with cpu := written.cpu.charge m.cpu.costs.control }) := by
  rw [control, bind_apply, getCpu_apply]
  dsimp only
  rw [withOperand_of_route h]
  rfl

theorem control_read_of_route {m : Machine β} {mode : Mode}
    (h : Mode.route? m.cpu.field .long .read = some mode) (register : ControlRegister) :
    let read := readThrough .long mode m
    control .read register m = (.ok (), { read.2 with
      cpu := (read.2.cpu.setControl register (read.1.setWidth 32)).charge m.cpu.costs.control }) := by
  rw [control, bind_apply, getCpu_apply]
  dsimp only
  rw [withOperand_of_route h]
  rfl

/-! ### The move of a register list -/

/-- The register of one bit of a list moved through a mode that is allowed. -/
def transfer (access : Access) (mode : Mode) (bit : RegisterNumber) : Exec β Unit := do
  let cpu ← getCpu
  match access with
  | .write =>
    writeExtendedThrough (cpu.fp.get bit) mode
    modifyCpu (·.charge cpu.costs.multiple)
  | .read =>
    let value ← readExtendedThrough mode
    modifyCpu fun moved => (moved.setFp (7 - bit) value).charge cpu.costs.multiple

def transferAll (access : Access) (mode : Mode) : List RegisterNumber → Exec β Unit
  | [] => return ()
  | bit :: bits => do
    transfer access mode bit
    transferAll access mode bits

theorem moveListed_of_route {access : Access} {field : Byte} {mode : Mode}
    (h : Mode.route? field .extended access = some mode) (bit : RegisterNumber) :
    moveListed access field bit = (Except.ok <$> transfer access mode bit : Exec β _) := by
  cases access with
  | write =>
    funext m
    simp only [moveListed, writeExtended, withOperand_of_route h, andThen_map_ok]
    rfl
  | read =>
    funext m
    simp only [moveListed, readExtended, withOperand_of_route h, andThen_map_ok]
    rfl

/-- **A list is admitted as a whole.**  Whether a register may be moved depends on the
field and not on what the registers before it have changed. -/
theorem moveAll_of_route {access : Access} {field : Byte} {mode : Mode}
    (h : Mode.route? field .extended access = some mode) (bits : List RegisterNumber) :
    moveAll access field bits = (Except.ok <$> transferAll access mode bits : Exec β _) := by
  induction bits with
  | nil => rfl
  | cons bit bits ih =>
    rw [moveAll, moveListed_of_route h, andThen_map_ok, ih]
    rfl

theorem multiple_of_route {access : Access} {mode : Mode} {m : Machine β}
    (h : Mode.route? m.cpu.field .extended access = some mode) (list : Byte) :
    multiple access list m =
      (.ok (), { (transferAll access mode (listed list) m).2 with
        messages := (transferAll access mode (listed list) m).2.messages ++
          [.moved access list] }) := by
  rw [multiple, bind_apply, getCpu_apply, moveAll_of_route h, andThen_map_ok]
  rfl

end Exec

end M68kFloat
