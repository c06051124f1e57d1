import M68kFloat.Proofs.Machine.Steps

/-!
# What instructions leave alone

Following an addressing mode moves the program counter and perhaps an address register, and
an operand may be put into a data or an address register.  The registers of the unit itself
are `Apart` from all of this.

`Leaves view x` says of an execution that a view of the machine is after it what it was before.
The property composes, so every read and every write through a mode leaves a view that is apart
(`leaves_readThrough`, `leaves_writeThrough`); the record of the messages is one.

`Keeps view x` says the same of a view of the processor.  It is kept by every instruction that
does no more to the registers of the unit than to look at them.
-/

namespace M68kFloat

variable {β σ : Type}

/-- A view of the machine that shows neither its bus and the calls on it, nor the data and address
registers, nor the program counter. -/
structure Machine.Apart (view : Machine β → σ) : Prop where
  d : ∀ (m : Machine β) (d : Bank Long), view { m with cpu := { m.cpu with d := d } } = view m
  a : ∀ (m : Machine β) (a : Bank Long), view { m with cpu := { m.cpu with a := a } } = view m
  pc : ∀ (m : Machine β) (pc : Long), view { m with cpu := { m.cpu with pc := pc } } = view m
  bus : ∀ (m : Machine β) (bus : β) (calls : List BusCall),
    view { m with bus := bus, calls := calls } = view m

/-- Messages are sent apart from all of this. -/
theorem Machine.apart_messages : Machine.Apart fun m : Machine β => m.messages :=
  ⟨fun _ _ => rfl, fun _ _ => rfl, fun _ _ => rfl, fun _ _ _ => rfl⟩

/-- A view of the processor that shows neither its data and address registers, nor its
program counter, nor its clock. -/
structure Cpu.Apart (view : Cpu → σ) : Prop where
  d : ∀ (cpu : Cpu) (d : Bank Long), view { cpu with d := d } = view cpu
  a : ∀ (cpu : Cpu) (a : Bank Long), view { cpu with a := a } = view cpu
  pc : ∀ (cpu : Cpu) (pc : Long), view { cpu with pc := pc } = view cpu
  cycles : ∀ (cpu : Cpu) (cycles : Quad), view { cpu with cycles := cycles } = view cpu

theorem Cpu.Apart.machine {view : Cpu → σ} (h : Cpu.Apart view) :
    Machine.Apart fun m : Machine β => view m.cpu :=
  ⟨fun m => h.d m.cpu, fun m => h.a m.cpu, fun m => h.pc m.cpu, fun _ _ _ => rfl⟩

theorem Cpu.apart_fpsr : Cpu.Apart Cpu.fpsr :=
  ⟨fun _ _ => rfl, fun _ _ => rfl, fun _ _ => rfl, fun _ _ => rfl⟩

/-- The registers of the unit itself. -/
structure UnitRegisters where
  fp : Bank Double
  fpcr : Long
  fpsr : Long
  fpiar : Long

def Cpu.unit (cpu : Cpu) : UnitRegisters := ⟨cpu.fp, cpu.fpcr, cpu.fpsr, cpu.fpiar⟩

theorem Cpu.apart_unit : Cpu.Apart Cpu.unit :=
  ⟨fun _ _ => rfl, fun _ _ => rfl, fun _ _ => rfl, fun _ _ => rfl⟩

namespace Exec

variable {α γ : Type}

/-! ### What leaves a view of the machine alone -/

section

variable {view : Machine β → σ}

/-- A view of the machine is after an execution what it was before. -/
def Leaves (view : Machine β → σ) (x : Exec β α) : Prop := ∀ m, view (x m).2 = view m

theorem leaves_pure (a : α) : Leaves view (pure a : Exec β α) := fun _ => rfl

theorem leaves_getCpu : Leaves view (getCpu : Exec β Cpu) := fun _ => rfl

theorem Leaves.bind {x : Exec β α} {f : α → Exec β γ} (hx : Leaves view x)
    (hf : ∀ a, Leaves view (f a)) : Leaves view (x >>= f) := by
  intro m
  rw [bind_apply]
  exact (hf _ _).trans (hx m)

/-- What is computed from a result changes nothing. -/
theorem Leaves.returning {x : Exec β α} (hx : Leaves view x) (f : α → γ) :
    Leaves view (x >>= fun a => pure (f a)) :=
  hx.bind fun _ => leaves_pure _

variable [Bus β] (hView : Machine.Apart view)

include hView

theorem leaves_fetchWord : Leaves view (fetchWord : Exec β Word) := fun m =>
  (hView.bus { m with cpu := m.cpu.advance 2 } _ _).trans (hView.pc m _)

theorem leaves_fetchLong : Leaves view (fetchLong : Exec β Long) := fun m =>
  (hView.bus { m with cpu := m.cpu.advance 4 } _ _).trans (hView.pc m _)

theorem leaves_fetchDisplacement (width : DisplacementWidth) :
    Leaves view (fetchDisplacement width : Exec β Long) := by
  cases width with
  | null => exact leaves_pure 0
  | word => exact (leaves_fetchWord hView).returning _
  | long => exact leaves_fetchLong hView

theorem leaves_fetchOffset (form : BranchForm) : Leaves view (fetchOffset form : Exec β Int) := by
  cases form with
  | word => exact (leaves_fetchWord hView).returning _
  | long => exact (leaves_fetchLong hView).returning _

theorem leaves_indexedAddress (base : Long) :
    Leaves view (indexedAddress base : Exec β Long) := by
  have hDisplacement (width : DisplacementWidth) :
      Leaves view (fetchDisplacement width : Exec β Long) := leaves_fetchDisplacement hView width
  have hPointer (address : Long) :
      Leaves view (readLong .pointer address : Exec β Long) := fun m => hView.bus m _ _
  refine (leaves_fetchWord hView).bind fun word => leaves_getCpu.bind fun cpu => ?_
  cases IndexWord.ofWord word with
  | brief index displacement => exact leaves_pure _
  | full hasBase index width indirection =>
    refine (hDisplacement width).bind fun displacement => ?_
    cases indirection with
    | direct => exact leaves_pure _
    | preindexed outer => exact (hDisplacement outer).bind fun _ => (hPointer _).returning _
    | postindexed outer => exact (hDisplacement outer).bind fun _ => (hPointer _).returning _

theorem leaves_locate (mode : Mode) (size : Size) :
    Leaves view (locate mode size : Exec β Place) := by
  refine leaves_getCpu.bind fun cpu => ?_
  have hMoved (n : RegisterNumber) (value : Long) :
      Leaves view (modifyCpu (·.setA n value) : Exec β Unit) := fun m => hView.a m _
  cases mode with
  | postincrement n => exact (hMoved n _).returning _
  | predecrement n => exact (hMoved n _).returning _
  | displaced n => exact (leaves_fetchDisplacement hView .word).returning _
  | indexed n => exact (leaves_indexedAddress hView _).returning _
  | absoluteShort => exact (leaves_fetchDisplacement hView .word).returning _
  | absoluteLong => exact (leaves_fetchDisplacement hView .long).returning _
  | relative => exact (leaves_fetchDisplacement hView .word).returning _
  | relativeIndexed => exact (leaves_indexedAddress hView _).returning _
  | dataRegister n | addressRegister n | indirect n | immediate => exact leaves_pure _

theorem leaves_readStream (size : Size) : Leaves view (readStream size : Exec β Quad) := by
  cases size with
  | byte | word => exact (leaves_fetchWord hView).returning _
  | long => exact (leaves_fetchLong hView).returning _
  | double | extended =>
    exact (leaves_fetchLong hView).bind fun _ => (leaves_fetchLong hView).returning _

theorem leaves_readPlace (place : Place) (size : Size) :
    Leaves view (readPlace place size : Exec β Quad) := by
  cases place with
  | dataRegister n => cases size <;> exact fun _ => rfl
  | addressRegister n => exact fun _ => rfl
  | memory address => cases size <;> exact fun m => hView.bus m _ _
  | immediate => exact leaves_readStream hView size

theorem leaves_writePlace (place : Place) (size : Size) (value : Quad) :
    Leaves view (writePlace place size value : Exec β Unit) := by
  cases place with
  | dataRegister n => cases size <;> exact fun m => hView.d m _
  | addressRegister n => exact fun m => hView.a m _
  | memory address => cases size <;> exact fun m => hView.bus m _ _
  | immediate => exact leaves_pure _

theorem leaves_readThrough (size : Size) (mode : Mode) :
    Leaves view (readThrough size mode : Exec β Quad) :=
  (leaves_locate hView mode size).bind fun place => leaves_readPlace hView place size

theorem leaves_writeThrough (size : Size) (value : Quad) (mode : Mode) :
    Leaves view (writeThrough size value mode : Exec β Unit) :=
  (leaves_locate hView mode size).bind fun place => leaves_writePlace hView place size value

end

/-! ### What keeps a view of the processor -/

variable {view : Cpu → σ}

/-- A view of the processor is after an execution what it was before. -/
def Keeps (view : Cpu → σ) (x : Exec β α) : Prop := ∀ m, view (x m).2.cpu = view m.cpu

theorem keeps_pure (a : α) : Keeps view (pure a : Exec β α) := fun _ => rfl

theorem keeps_getCpu : Keeps view (getCpu : Exec β Cpu) := fun _ => rfl

theorem keeps_say (message : Message) : Keeps view (say message : Exec β Unit) := fun _ => rfl

theorem keeps_modifyCpu {f : Cpu → Cpu} (h : ∀ cpu, view (f cpu) = view cpu) :
    Keeps view (modifyCpu f : Exec β Unit) :=
  fun m => h m.cpu

theorem Keeps.bind {x : Exec β α} {f : α → Exec β γ} (hx : Keeps view x)
    (hf : ∀ a, Keeps view (f a)) : Keeps view (x >>= f) := by
  intro m
  rw [bind_apply]
  exact (hf _ _).trans (hx m)

theorem Keeps.map {x : Exec β α} (hx : Keeps view x) (f : α → γ) : Keeps view (f <$> x) := hx

/-- What is computed from a result changes nothing. -/
theorem Keeps.returning {x : Exec β α} (hx : Keeps view x) (f : α → γ) :
    Keeps view (x >>= fun a => pure (f a)) :=
  hx.bind fun _ => keeps_pure _

theorem keeps_andThen {x : Exec β (Except Fault α)} {next : α → Exec β (Except Fault γ)}
    (hx : Keeps view x) (hNext : ∀ a, Keeps view (next a)) : Keeps view (andThen x next) := by
  refine hx.bind fun result => ?_
  cases result with
  | ok a => exact hNext a
  | error fault => exact keeps_pure _

theorem keeps_fault (cause : Cause) :
    Keeps view (fault cause >>= fun fault => pure (.error fault) : Exec β (Except Fault α)) :=
  fun _ => rfl

theorem keeps_withOperand {field : Byte} {size : Size} {access : Access} {use : Mode → Exec β α}
    (h : ∀ mode, Keeps view (use mode)) : Keeps view (withOperand field size access use) := by
  cases hRoute : Mode.route? field size access with
  | some mode =>
    rw [withOperand_of_route hRoute]
    exact (h mode).map _
  | none =>
    intro m
    rw [withOperand_of_refused hRoute]

theorem keeps_reporting {x : Exec β (Except Fault Unit)} (hx : Keeps view x) :
    Keeps view (reporting x) := by
  refine hx.bind fun result => ?_
  cases result with
  | ok a => exact keeps_pure _
  | error fault => exact fun _ => rfl

/-! ### Access through a mode -/

variable (hView : Cpu.Apart view)

include hView

theorem keeps_charge (cycles : Cpu → Long) :
    Keeps view (modifyCpu fun cpu => cpu.charge (cycles cpu) : Exec β Unit) :=
  keeps_modifyCpu fun cpu => hView.cycles cpu _

variable [Bus β]

theorem keeps_locate (mode : Mode) (size : Size) :
    Keeps view (locate mode size : Exec β Place) :=
  leaves_locate hView.machine mode size

theorem keeps_readThrough (size : Size) (mode : Mode) :
    Keeps view (readThrough size mode : Exec β Quad) :=
  leaves_readThrough hView.machine size mode

theorem keeps_writeThrough (size : Size) (value : Quad) (mode : Mode) :
    Keeps view (writeThrough size value mode : Exec β Unit) :=
  leaves_writeThrough hView.machine size value mode

theorem keeps_readExtendedThrough (mode : Mode) :
    Keeps view (readExtendedThrough mode : Exec β Double) :=
  (keeps_locate hView mode .extended).bind fun place => (keeps_say _).bind fun _ =>
    Keeps.returning (leaves_readPlace hView.machine place .extended) _

theorem keeps_writeExtendedThrough (value : Double) (mode : Mode) :
    Keeps view (writeExtendedThrough value mode : Exec β Unit) :=
  (keeps_locate hView mode .extended).bind fun place => (keeps_say _).bind fun _ =>
    leaves_writePlace hView.machine place .extended value.bits

/-! ### Instructions -/

theorem keeps_store (source : RegisterNumber) (format : Format) :
    Keeps view (store source format : Exec β _) :=
  keeps_getCpu.bind fun _ => keeps_withOperand fun mode =>
    (keeps_writeThrough hView _ _ mode).bind fun _ => keeps_charge hView _

/-- A load of a control register keeps a view that does not show the register. -/
theorem keeps_control {access : Access} {register : ControlRegister}
    (h : access = .read → ∀ cpu value, view (cpu.setControl register value) = view cpu) :
    Keeps view (control access register : Exec β _) := by
  refine keeps_getCpu.bind fun cpu => keeps_withOperand fun mode => ?_
  cases access with
  | write =>
    exact (keeps_writeThrough hView _ _ mode).bind fun _ => keeps_charge hView _
  | read =>
    exact (keeps_readThrough hView .long mode).bind fun _ =>
      (keeps_modifyCpu fun cpu => h rfl cpu _).bind fun _ => keeps_charge hView _

/-- A load of registers keeps a view that does not show them either. -/
theorem keeps_multiple
    (hFp : ∀ (cpu : Cpu) (fp : Bank Double), view { cpu with fp := fp } = view cpu)
    (access : Access) (list : Byte) : Keeps view (multiple access list : Exec β _) := by
  refine keeps_getCpu.bind fun cpu => keeps_andThen ?_ fun _ => (keeps_say _).map _
  -- whether a register of the list is refused does not matter, as a refusal keeps everything
  induction listed list with
  | nil => exact keeps_pure _
  | cons bit bits ih =>
    refine keeps_andThen (keeps_getCpu.bind fun cpu => ?_) fun _ => ih
    cases access with
    | write =>
      exact keeps_andThen (keeps_withOperand (keeps_writeExtendedThrough hView _))
        fun _ => (keeps_charge hView _).map _
    | read =>
      exact keeps_andThen (keeps_withOperand (keeps_readExtendedThrough hView))
        fun value => (keeps_modifyCpu fun cpu => (hView.cycles _ _).trans (hFp cpu _)).map _

theorem keeps_jumpIf (condition : Condition) (offset : Int) :
    Keeps view (jumpIf condition offset : Exec β Unit) := by
  intro m
  cases h : condition.holds m.cpu.codes with
  | true =>
    rw [jumpIf_of_holds h]
    exact hView.pc m.cpu _
  | false => rw [jumpIf_of_not h]

theorem keeps_branch (form : BranchForm) : Keeps view (branch form : Exec β _) := by
  refine keeps_getCpu.bind fun cpu => ?_
  cases Condition.ofCode? cpu.field with
  | none => exact keeps_fault _
  | some condition =>
    have hOffset : Keeps view (fetchOffset form : Exec β Int) :=
      leaves_fetchOffset hView.machine form
    exact hOffset.bind fun offset => (keeps_jumpIf hView condition offset).bind fun _ =>
      (keeps_charge hView fun _ => cpu.costs.branch).map _

/-- An instruction of the general group without an extension word is a branch or refused. -/
theorem keeps_generalGroup {m : Machine β} (hClass : m.cpu.ir.extractLsb' 6 2 ≠ 0) :
    view (generalGroup m).2.cpu = view m.cpu := by
  rcases class_cases (m.cpu.ir.extractLsb' 6 2) with h | h | h | h
  · exact absurd h hClass
  all_goals rw [generalGroup_apply, h]
  · exact keeps_reporting (keeps_fault _) m
  · exact keeps_reporting (keeps_branch hView .word) m
  · exact keeps_reporting (keeps_branch hView .long) m

theorem keeps_frameGroup : Keeps view (frameGroup : Exec β _) := by
  refine keeps_reporting (keeps_getCpu.bind fun cpu => ?_)
  split
  · exact keeps_getCpu.bind fun cpu => (keeps_say _).bind fun _ =>
      keeps_withOperand (keeps_writeThrough hView _ _)
  · exact keeps_getCpu.bind fun cpu => (keeps_say _).bind fun _ =>
      (keeps_withOperand (keeps_readThrough hView _)).map _
  · exact keeps_fault _
  · exact keeps_fault _

end Exec

end M68kFloat
