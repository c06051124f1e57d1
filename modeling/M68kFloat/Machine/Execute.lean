import M68kFloat.Machine.Operand

/-!
# Execution

An instruction is decoded, its operand is admitted, and only then does it happen:
each of the functions here either returns a fault, with the machine as it was but
for the words read so far and the messages about the fault, or runs to its end.

Opcodes `$F2xx` hold the general instructions and the branches, opcodes `$F3xx` the
saving and restoring of state frames.  `Exec.step` executes the instruction at the
program counter.
-/

namespace M68kFloat

/-- The two forms of a branch, by the width of the displacement. -/
inductive BranchForm
  | word
  | long
  deriving DecidableEq

namespace Exec

variable {β : Type} [Bus β]

/-! ### Operations of an extension word -/

/-- Arithmetic on a floating-point register. -/
def general (source : Source RegisterNumber) (destination : RegisterNumber) (opmode : Opmode) :
    Exec β (Except Fault Unit) := do
  let cpu ← getCpu
  match source with
  | .register n =>
    .ok <$> modifyCpu (·.operate opmode destination (cpu.fp.get n))
  | .memory format =>
    withOperand cpu.field format.size .read fun mode => do
      let operand ← readThrough format.size mode
      modifyCpu (·.operate opmode destination (format.load operand))

/-- A floating-point register moved to an operand. -/
def store (source : RegisterNumber) (format : Format) : Exec β (Except Fault Unit) := do
  let cpu ← getCpu
  withOperand cpu.field format.size .write fun mode => do
    writeThrough format.size (format.store (cpu.fp.get source)) mode
    modifyCpu (·.charge cpu.costs.store)

/-- A control register moved to an operand or loaded from one. -/
def control (access : Access) (register : ControlRegister) : Exec β (Except Fault Unit) := do
  let cpu ← getCpu
  withOperand cpu.field .long access fun mode => do
    match access with
    | .write => writeThrough .long ((cpu.control register).setWidth 64) mode
    | .read =>
      let operand ← readThrough .long mode
      modifyCpu (·.setControl register (operand.setWidth 32))
    modifyCpu (·.charge cpu.costs.control)

/-- The bits that are set in a register list, the lowest first. -/
def listed (list : Byte) : List RegisterNumber :=
  [0, 1, 2, 3, 4, 5, 6, 7].filter fun n => list.getLsbD n.toNat

/-- What follows an access, unless the access is refused. -/
def andThen {α γ : Type} (access : Exec β (Except Fault α))
    (next : α → Exec β (Except Fault γ)) : Exec β (Except Fault γ) := do
  match ← access with
  | .ok a => next a
  | .error fault => return .error fault

/-- The register of one bit of a list moved.  A store takes the register of the same
number, a load fills the registers from the other end.  Every register asks for its
own operand through the field. -/
def moveListed (access : Access) (field : Byte) (bit : RegisterNumber) :
    Exec β (Except Fault Unit) := do
  let cpu ← getCpu
  match access with
  | .write =>
    andThen (writeExtended field (cpu.fp.get bit)) fun _ =>
      .ok <$> modifyCpu (·.charge cpu.costs.multiple)
  | .read =>
    andThen (readExtended field) fun value =>
      .ok <$> modifyCpu fun moved => (moved.setFp (7 - bit) value).charge cpu.costs.multiple

/-- The registers of a list moved one after the other, up to the first that is refused. -/
def moveAll (access : Access) (field : Byte) : List RegisterNumber → Exec β (Except Fault Unit)
  | [] => return .ok ()
  | bit :: bits => andThen (moveListed access field bit) fun _ => moveAll access field bits

/-- The registers of a list moved.  An empty list has no operand, so no addressing
mode is refused for it. -/
def multiple (access : Access) (list : Byte) : Exec β (Except Fault Unit) := do
  let cpu ← getCpu
  andThen (moveAll access cpu.field (listed list)) fun _ => .ok <$> say (.moved access list)

def operation : Operation RegisterNumber → Exec β (Except Fault Unit)
  | .general source destination opmode => general source destination opmode
  | .store source format => store source format
  | .control access register => control access register
  | .multiple access list => multiple access list

/-! ### Instructions -/

def dispatch : Exec β (Except Fault Unit) := do
  let extension ← fetchWord
  match Operation.ofExtension extension with
  | .error cause => return .error (← fault cause)
  | .ok op =>
    let cpu ← getCpu
    say (.dispatched cpu.start cpu.ir extension op)
    operation op

/-- How far the target of a branch is from the program counter, once that is behind the
displacement.  A displacement is relative to its own address, so its bytes are taken off: from a
word as a signed number, from a long modulo `2 ^ 32`. -/
def fetchOffset : BranchForm → Exec β Int
  | .word => return (← fetchWord).toInt - 2
  | .long => return ((← fetchLong) - 4).toInt

/-- A jump if a condition holds.  The trace is cancelled before it. -/
def jumpIf (condition : Condition) (offset : Int) : Exec β Unit := do
  let cpu ← getCpu
  if condition.holds cpu.codes then
    cancelTrace
    modifyCpu (·.jump offset)
    say (.branched condition (← getCpu).pc)

/-- A branch on the condition in the opcode. -/
def branch (form : BranchForm) : Exec β (Except Fault Unit) := do
  let cpu ← getCpu
  match Condition.ofCode? cpu.field with
  | none => return .error (← fault (.condition cpu.field))
  | some condition =>
    jumpIf condition (← fetchOffset form)
    .ok <$> modifyCpu (·.charge cpu.costs.branch)

/-- A null state frame, a zero long, put where the field leads to. -/
def saveFrame : Exec β (Except Fault Unit) := do
  let cpu ← getCpu
  say (.saving cpu.start)
  writeOperand cpu.field .long 0

/-- A state frame, a long, read and discarded. -/
def restoreFrame : Exec β (Except Fault Unit) := do
  let cpu ← getCpu
  say (.restoring cpu.start)
  Except.map (fun _ => ()) <$> readOperand cpu.field .long

/-- A result with a message if it is a fault. -/
def reporting (run : Exec β (Except Fault Unit)) : Exec β (Except Fault Unit) := do
  let result ← run
  match result with
  | .ok _ => return result
  | .error fault =>
    say (.rejected (← getCpu).ir fault)
    return result

/-- The present instruction as one of opcodes `$F2xx`. -/
def generalGroup : Exec β (Except Fault Unit) :=
  reporting do
    match (← getCpu).ir.extractLsb' 6 2 with
    | 0#2 => dispatch
    | 1#2 => return .error (← fault (.mainOp 1))
    | 2#2 => branch .word
    | 3#2 => branch .long

/-- The present instruction as one of opcodes `$F3xx`. -/
def frameGroup : Exec β (Except Fault Unit) :=
  reporting do
    match (← getCpu).ir.extractLsb' 6 2 with
    | 0#2 => saveFrame
    | 1#2 => restoreFrame
    | 2#2 => return .error (← fault (.saveRestoreOp 2))
    | 3#2 => return .error (← fault (.saveRestoreOp 3))

/-! ### Steps -/

/-- How a step ends. -/
inductive Outcome
  | done
  | rejected (fault : Fault)
  /-- The opcode is of neither group; only the opcode was fetched. -/
  | otherOpcode
  deriving DecidableEq

def Outcome.ofResult : Except Fault Unit → Outcome
  | .ok _ => done
  | .error fault => rejected fault

/-- The instruction at the program counter fetched and executed. -/
def step : Exec β Outcome := do
  fetchOpcode
  let group : Byte := (← getCpu).ir.extractLsb' 8 8
  if group = 0xF2 then .ofResult <$> generalGroup
  else if group = 0xF3 then .ofResult <$> frameGroup
  else return .otherOpcode

end Exec

end M68kFloat
