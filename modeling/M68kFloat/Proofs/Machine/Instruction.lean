import M68kFloat.Proofs.Machine.Acceptance
import M68kFloat.Proofs.Machine.Arithmetic
import M68kFloat.Proofs.Machine.Runs
import M68kFloat.Proofs.Operand.Access

/-!
# What an instruction consists of

The two words of an instruction decode to an `Instruction`, of one group or the other.  Three
things tell what it does.  `Instruction.prepare` reads the words that belong to it and, if it is
a branch that is taken, jumps.  `Instruction.operand?` is the operand that it asks for.  And
`Instruction.moves` lists the moves of that operand: a `Move` says what is put down, what
becomes of the registers of the unit, and what it costs.  Only a register list has more moves
than one.

The moves of an instruction only deal with the registers of the unit.  Where the operand comes
from or goes to is the business of its `Operand`, which adds the addressing mode.
-/

namespace M68kFloat

open Exec (listed)

/-! ### Instructions -/

/-- An instruction of either group. -/
inductive Instruction
  | operation (op : Operation RegisterNumber)
  | branch (condition : Condition) (form : BranchForm)
  | saveFrame
  | restoreFrame
  deriving DecidableEq

namespace Instruction

/-- The instruction of an opcode and the word that follows it. -/
def ofWords? (group : Group) (opcode extension : Word) : Option Instruction :=
  let condition := Condition.ofCode? ((opcode.extractLsb' 0 6).setWidth 8)
  match group, opcode.extractLsb' 6 2 with
  | .general, 0#2 => (Operation.ofExtension extension).toOption.map operation
  | .general, 2#2 => condition.map fun condition => branch condition .word
  | .general, 3#2 => condition.map fun condition => branch condition .long
  | .frame, 0#2 => some saveFrame
  | .frame, 1#2 => some restoreFrame
  | _, _ => none

/-- The operand that an instruction asks for. -/
def operand? : Instruction → Option (Size × Access)
  | operation op => op.operand?
  | branch _ _ => none
  | saveFrame => some (.long, .write)
  | restoreFrame => some (.long, .read)

/-- The number of bytes between the opcode and the words of the operand. -/
def wordBytes : Instruction → Nat
  | operation _ => 2
  | branch _ form => form.width.bytes
  | saveFrame | restoreFrame => 0

/-- Whether an instruction jumps. -/
def jumps (codes : ConditionCodes) : Instruction → Bool
  | branch condition _ => condition.holds codes
  | _ => false

end Instruction

/-- The instruction at the program counter, where the opcode has been fetched. -/
def Machine.instruction? {β : Type} [Bus β] (m : Machine β) (group : Group) : Option Instruction :=
  Instruction.ofWords? group m.cpu.ir m.nextWord

/-! ### Moves -/

namespace UnitRegisters

def control (unit : UnitRegisters) : ControlRegister → Long
  | .fpiar => unit.fpiar
  | .fpsr => unit.fpsr
  | .fpcr => unit.fpcr

def setControl (unit : UnitRegisters) (register : ControlRegister) (value : Long) :
    UnitRegisters :=
  match register with
  | .fpiar => { unit with fpiar := value }
  | .fpsr => { unit with fpsr := value }
  | .fpcr => { unit with fpcr := value }

end UnitRegisters

/-- One move of an operand, or what an instruction does without any. -/
structure Move where
  /-- What a write puts down. -/
  stored : UnitRegisters → Quad
  /-- What becomes of the registers of the unit, given the operand. -/
  finish : Quad → UnitRegisters → UnitRegisters
  cost : Costs → Long

namespace Move

def load (finish : Quad → UnitRegisters → UnitRegisters) (cost : Costs → Long) : Move :=
  ⟨fun _ => 0, finish, cost⟩

def store (stored : UnitRegisters → Quad) (cost : Costs → Long) : Move :=
  ⟨stored, fun _ unit => unit, cost⟩

/-- The move of the register that a bit of a list stands for. -/
def register (access : Access) (bit : RegisterNumber) : Move :=
  match access with
  | .write => .store (fun unit => (unit.fp.get bit).bits) Costs.multiple
  | .read =>
    .load (fun operand unit => { unit with fp := unit.fp.set (7 - bit) ⟨operand⟩ }) Costs.multiple

end Move

/-- The moves of an operation.  A general operation between registers has one too, though it
moves no operand. -/
def Operation.moves : Operation RegisterNumber → List Move
  | general (.register source) destination opmode =>
    [.load (fun _ unit => unit.operate opmode destination (unit.fp.get source)) opmode.cost]
  | general (.memory format) destination opmode =>
    [.load (fun operand unit => unit.operate opmode destination (format.load operand))
      opmode.cost]
  | store source format => [.store (fun unit => format.store (unit.fp.get source)) Costs.store]
  | control .write register =>
    [.store (fun unit => (unit.control register).setWidth 64) Costs.control]
  | control .read register =>
    [.load (fun operand unit => unit.setControl register (operand.setWidth 32)) Costs.control]
  | multiple access list => (listed list).map (Move.register access)

/-- The moves of an instruction.  A saved frame is a zero, and a restored one is discarded. -/
def Instruction.moves : Instruction → List Move
  | operation op => op.moves
  | branch _ _ => [.load (fun _ unit => unit) Costs.branch]
  | saveFrame => [.store (fun _ => 0) fun _ => 0]
  | restoreFrame => [.load (fun _ unit => unit) fun _ => 0]

theorem length_listed : ∀ list : Byte, (listed list).length = list.cpop.toNat := by decide

/-- What a move of an instruction makes of the registers of the unit. -/
inductive Instruction.Finishes (ins : Instruction) (move : Move) : Prop
  | arithmetic {source : Source RegisterNumber} {destination : RegisterNumber} {opmode : Opmode}
    (hIns : ins = operation (.general source destination opmode))
    (h : ∀ operand unit, ∃ d, move.finish operand unit = unit.operate opmode destination d)
  | control {register : ControlRegister} (hIns : ins = operation (.control .read register))
    (h : ∀ operand unit, ∃ value, move.finish operand unit = unit.setControl register value)
  | register {list : Byte} {bit : RegisterNumber}
    (hIns : ins = operation (.multiple .read list)) (hBit : bit ∈ listed list)
    (h : ∀ operand unit, ∃ fp, move.finish operand unit =
      { unit with fp := unit.fp.set (7 - bit) fp })
  | nothing (h : ∀ operand unit, move.finish operand unit = unit)

theorem Instruction.finishes {ins : Instruction} {move : Move} (hMove : move ∈ ins.moves) :
    ins.Finishes move := by
  cases ins with
  | operation op =>
    cases op with
    | general source destination opmode =>
      cases source <;> obtain rfl := List.mem_singleton.mp hMove <;>
        exact .arithmetic rfl fun _ _ => ⟨_, rfl⟩
    | store source format =>
      obtain rfl := List.mem_singleton.mp hMove
      exact .nothing fun _ _ => rfl
    | control access register =>
      cases access <;> obtain rfl := List.mem_singleton.mp hMove
      · exact .control rfl fun _ _ => ⟨_, rfl⟩
      · exact .nothing fun _ _ => rfl
    | multiple access list =>
      obtain ⟨bit, hBit, rfl⟩ := List.mem_map.mp hMove
      cases access
      · exact .register rfl hBit fun _ _ => ⟨_, rfl⟩
      · exact .nothing fun _ _ => rfl
  | branch condition form | saveFrame | restoreFrame =>
    obtain rfl := List.mem_singleton.mp hMove
    exact .nothing fun _ _ => rfl

namespace Cpu

def withUnit (cpu : Cpu) (unit : UnitRegisters) : Cpu :=
  { cpu with fp := unit.fp, fpcr := unit.fpcr, fpsr := unit.fpsr, fpiar := unit.fpiar }

/-- The processor after a move whose operand is there. -/
def finish (cpu : Cpu) (move : Move) (operand : Quad) : Cpu :=
  (cpu.withUnit (move.finish operand cpu.unit)).charge (move.cost cpu.costs)

end Cpu

/-! ### Operands -/

/-- The address of an operand after so many others, where the first lies at `first`. -/
def Mode.addressAfter (mode : Mode) (first : Long) (bytes : Nat) : Long :=
  match mode with
  | predecrement _ => first - BitVec.ofNat 32 bytes
  | _ => first + BitVec.ofNat 32 bytes

/-- An operand with the mode that leads to it. -/
structure Operand where
  mode : Mode
  size : Size
  access : Access
  deriving DecidableEq

namespace Instruction

/-- The operand of an instruction, through the mode of its field if that is allowed. -/
def operandThrough? (ins : Instruction) (field : Byte) : Option Operand :=
  ins.operand?.bind fun asked =>
    (Mode.route? field asked.1 asked.2).map fun mode => ⟨mode, asked.1, asked.2⟩

theorem operandThrough?_of_route {ins : Instruction} {field : Byte} {size : Size}
    {access : Access} {mode : Mode} (hOperand : ins.operand? = some (size, access))
    (hRoute : Mode.route? field size access = some mode) :
    ins.operandThrough? field = some ⟨mode, size, access⟩ := by
  rw [operandThrough?, hOperand, Option.bind_some, hRoute]
  rfl

theorem operandThrough?_eq_some {ins : Instruction} {field : Byte} {operand : Operand}
    (h : ins.operandThrough? field = some operand) :
    ins.operand? = some (operand.size, operand.access) ∧
      Mode.ofField? field = some operand.mode ∧
      operand.mode.allows operand.size operand.access = true := by
  rw [operandThrough?, Option.bind_eq_some_iff] at h
  obtain ⟨⟨size, access⟩, hOperand, hMode⟩ := h
  obtain ⟨mode, hRoute, rfl⟩ := Option.map_eq_some_iff.mp hMode
  exact ⟨hOperand, Exec.route_eq_some.mp hRoute⟩

end Instruction

variable {β : Type} [Bus β]

namespace Operand

variable (operand : Operand) (m : Machine β)

/-- The number of bytes that the mode takes from the instruction stream. -/
def streamBytes : Nat := operand.mode.streamBytes operand.size m.nextWord

/-- The addresses of so many operands in memory, as a machine finds them. -/
def addresses (count : Nat) : List Long :=
  match (Exec.locate operand.mode operand.size m).1 with
  | .memory a =>
    (List.range count).map fun i => operand.mode.addressAfter a (operand.size.bytes * i)
  | _ => []

/-- The calls that move operands with the values given. -/
def calls (values : List Quad) : List BusCall :=
  ((operand.addresses m values.length).zip values).flatMap fun (a, value) =>
    operandCalls operand.access a operand.size value

theorem calls_single (value : Quad) : operand.calls m [value] =
    (Exec.locate operand.mode operand.size m).1.calls operand.access operand.size value := by
  have hFirst (a : Long) : operand.mode.addressAfter a 0 = a := by
    cases h : operand.mode <;> simp [Mode.addressAfter]
  rw [calls, addresses]
  cases h : (Exec.locate operand.mode operand.size m).1 with
  | memory a => simp [Place.calls, hFirst, List.range_succ]
  | _ => rfl

theorem movesOperand_calls (values : List Quad) :
    ∀ call ∈ operand.calls m values, call.MovesOperand operand.access := by
  intro call hCall
  obtain ⟨⟨a, value⟩, -, hCall⟩ := List.mem_flatMap.mp hCall
  exact movesOperand_operandCalls _ _ _ _ call hCall

end Operand

/-! ### The words of an instruction -/

namespace Instruction

open Exec BusCall Machine

/-- What comes before the moves: the words of the instruction are read, and a branch jumps. -/
def prepare : Instruction → Exec β Unit
  | operation op => do
    let extension ← fetchWord
    let cpu ← getCpu
    say (.dispatched cpu.start cpu.ir extension op)
  | branch condition form => do jumpIf condition (← fetchOffset form)
  | saveFrame => do say (.saving (← getCpu).start)
  | restoreFrame => do say (.restoring (← getCpu).start)

/-- The machine that is about to move operands. -/
def prepared (ins : Instruction) (m : Machine β) : Machine β := (ins.prepare m).2

section

variable {condition : Condition} {m : Machine β}

theorem prepared_branch_of_holds (h : condition.holds m.cpu.codes = true) (form : BranchForm) :
    (branch condition form).prepared m =
      jumped (fetchOffset form m).2 condition (fetchOffset form m).1 := by
  rw [← codes_fetchOffset form m] at h
  exact congrArg Prod.snd (jumpIf_of_holds h _)

theorem prepared_branch_of_not (h : condition.holds m.cpu.codes = false) (form : BranchForm) :
    (branch condition form).prepared m = (fetchOffset form m).2 := by
  rw [← codes_fetchOffset form m] at h
  exact congrArg Prod.snd (jumpIf_of_not h _)

/-- **A displacement counts from where it stands.**  Its bytes, which the program counter has
passed, are what the offset falls short of it by, and this is so whether they were taken off among
the signed numbers or modulo `2 ^ 32`. -/
theorem bytes_add_fetchOffset (form : BranchForm) (m : Machine β) :
    BitVec.ofNat 32 form.width.bytes + BitVec.ofInt 32 (fetchOffset form m).1 =
      (fetchDisplacement form.width m).1 := by
  cases form with
  | word =>
    show 2#32 + BitVec.ofInt 32 ((fetchWord m).1.toInt - 2) = (fetchWord m).1.signExtend 32
    calc 2#32 + BitVec.ofInt 32 ((fetchWord m).1.toInt - 2)
        = BitVec.ofInt 32 (2 + ((fetchWord m).1.toInt - 2)) := (BitVec.ofInt_add 2 _).symm
      _ = BitVec.ofInt 32 (fetchWord m).1.toInt := by rw [Int.add_comm, Int.sub_add_cancel]
  | long =>
    show 4#32 + BitVec.ofInt 32 ((fetchLong m).1 - 4).toInt = (fetchLong m).1
    rw [BitVec.ofInt_toInt, BitVec.add_comm]
    exact BitVec.sub_add_cancel _ 4

theorem pc_prepared_of_jumps (h : condition.holds m.cpu.codes = true) (form : BranchForm) :
    ((branch condition form).prepared m).cpu.pc =
      m.cpu.pc + (fetchDisplacement form.width m).1 := by
  obtain ⟨stream, hWord⟩ := streams_fetchDisplacement form.width m
  have hBehind : (fetchOffset form m).2.cpu.pc = m.cpu.pc + BitVec.ofNat 32 form.width.bytes := by
    rw [fetchOffset_snd, hWord.cpu]
    rfl
  rw [prepared_branch_of_holds h, ← bytes_add_fetchOffset, ← BitVec.add_assoc, ← hBehind]
  rfl

end

/-- The call that ends a taken branch. -/
def cancels (ins : Instruction) (codes : ConditionCodes) : List BusCall :=
  if ins.jumps codes then [.cancelTrace] else []

theorem cancels_eq_nil_or (ins : Instruction) (codes : ConditionCodes) :
    ins.cancels codes = [] ∨ ins.cancels codes = [.cancelTrace] := by
  rw [cancels]
  split
  · exact Or.inr rfl
  · exact Or.inl rfl

/-- What has happened before the moves: only the program counter has changed, and the calls are
the reads of the words of the instruction, with the trace cancelled after them where it jumps. -/
structure Prepares (ins : Instruction) (m m' : Machine β) (stream : List BusCall) : Prop where
  cpu : m'.cpu = { m.cpu with pc := m'.cpu.pc }
  pc : ins.jumps m.cpu.codes = false → m'.cpu.pc = m.cpu.pc + BitVec.ofNat 32 ins.wordBytes
  made : Calls m m' (stream ++ ins.cancels m.cpu.codes)
  tiles : Tiles m.cpu.pc ins.wordBytes stream

/-- The field, the registers of the unit and the table of costs are those from before. -/
theorem Prepares.kept {ins : Instruction} {m m' : Machine β} {stream : List BusCall}
    (h : ins.Prepares m m' stream) :
    m'.cpu.field = m.cpu.field ∧ m'.cpu.unit = m.cpu.unit ∧ m'.cpu.costs = m.cpu.costs := by
  rw [h.cpu]
  exact ⟨rfl, rfl, rfl⟩

theorem prepares_of_streams {ins : Instruction} {m m' : Machine β} {stream : List BusCall}
    (hJumps : ins.jumps m.cpu.codes = false) (h : Streams m m' ins.wordBytes stream) :
    ins.Prepares m m' stream where
  cpu := by rw [h.cpu]; rfl
  pc _ := by rw [h.cpu]; rfl
  made := by
    rw [cancels, hJumps, if_neg Bool.false_ne_true, List.append_nil]
    exact h.made
  tiles := h.tiles

theorem exists_prepares (ins : Instruction) (m : Machine β) :
    ∃ stream, ins.Prepares m (ins.prepared m) stream := by
  cases ins with
  | operation op =>
    have hWord := streams_fetchWord m
    exact ⟨_, prepares_of_streams rfl ⟨hWord.cpu, ⟨hWord.made.recorded, hWord.made.bus⟩,
      hWord.tiles⟩⟩
  | branch condition form =>
    obtain ⟨stream, hWord⟩ := streams_fetchDisplacement form.width m
    rw [← fetchOffset_snd] at hWord
    refine ⟨stream, ?_⟩
    cases h : condition.holds m.cpu.codes with
    | true =>
      have hCancels : (branch condition form).cancels m.cpu.codes = [.cancelTrace] := if_pos h
      rw [prepared_branch_of_holds h]
      constructor
      · rw [jumped, hWord.cpu]
        rfl
      · intro hNot
        exact absurd (h.symm.trans hNot) (by decide)
      · rw [hCancels]
        exact hWord.made.trans ⟨rfl, rfl⟩
      · exact hWord.tiles
    | false =>
      rw [prepared_branch_of_not h]
      exact prepares_of_streams h hWord
  | saveFrame | restoreFrame =>
    exact ⟨[], prepares_of_streams rfl
      ⟨(Cpu.advance_zero m.cpu).symm, calls_nil rfl rfl, tiles_nil _⟩⟩

end Instruction

end M68kFloat
