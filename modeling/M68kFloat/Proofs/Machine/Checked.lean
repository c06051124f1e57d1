import M68kFloat.Proofs.Machine.Runs
import M68kFloat.Proofs.Operand.Fetching

/-!
# The checked machine

Registers that are numbered by bit patterns and counters that wrap leave nothing to go wrong.  A
machine of arrays and counters of a fixed width has to see to it that a number is below the length
of its array, that no sum leaves its type and that no code is reached which is not meant to be.
Here the instructions are written for such a machine: a `Checked` execution stops where a check
fails, and register numbers are natural numbers that are cut out of the words of the instruction
by shifts and masks.

What needs no check is done by the same steps as everywhere.
-/

namespace M68kFloat

/-- What happens to a machine with a result, unless a check fails. -/
abbrev Checked (α : Type) := StateT (Machine Ram) Option α

namespace Checked

variable {α γ : Type}

/-! ### Checks -/

/-- A check.  Without it there is nothing that happens next. -/
def require (condition : Prop) [Decidable condition] : Checked Unit := fun m =>
  if condition then some ((), m) else none

/-- What needs no check. -/
def unchecked (x : Exec Ram α) : Checked α := fun m => some (x m)

/-- Three bits of a pattern as a number. -/
def cut {w : Nat} (bits : BitVec w) (low : Nat) : Nat := (bits >>> low &&& 7#w).toNat

/-- The register of a number, one of eight. -/
def register (number : Nat) : Checked RegisterNumber := do
  require (number < 8)
  return BitVec.ofNat 3 number

/-- A call on the bus, which finds its bytes among the sixteen million of the memory. -/
def onBus (address : Long) (width : BusWidth) (call : Exec Ram α) : Checked α := do
  require (∀ i < width.bytes, ((address + BitVec.ofNat 32 i) &&& 0x00FFFFFF).toNat < 2 ^ 24)
  unchecked call

def getCpu : Checked Cpu := unchecked Exec.getCpu

def modifyCpu (f : Cpu → Cpu) : Checked Unit := unchecked (Exec.modifyCpu f)

def say (message : Message) : Checked Unit := unchecked (Exec.say message)

def fault (cause : Cause) : Checked Fault := unchecked (Exec.fault cause)

/-- Cycles added to the clock, which has room for them. -/
def charge (cycles : Long) : Checked Unit := do
  let cpu ← getCpu
  require (cpu.cycles.toNat + cycles.toNat < 2 ^ 64)
  modifyCpu (·.charge cycles)

/-- A trace cancelled, for which the count has room. -/
def cancelTrace : Checked Unit := do
  let count ← unchecked fun m => (m.bus.traceCancels, m)
  require (count.toNat + 1 < 2 ^ 32)
  unchecked Exec.cancelTrace

/-! ### Places -/

def fetchWord : Checked Word := do
  onBus (← getCpu).pc .word Exec.fetchWord

def fetchLong : Checked Long := do
  onBus (← getCpu).pc .long Exec.fetchLong

def fetchDisplacement : DisplacementWidth → Checked Long
  | .null => return 0
  | .word => return (← fetchWord).signExtend 32
  | .long => fetchLong

/-- The value of the index of an index word.  A long is shifted by less than its width. -/
def indexValue (cpu : Cpu) (word : Word) : Checked Long := do
  let n ← register (cut word 12)
  let value := if word.getLsbD 15 then cpu.a.get n else cpu.d.get n
  let part := if word.getLsbD 11 then value else (value.setWidth 16).signExtend 32
  let places := (word >>> 9 &&& 3#16).toNat
  require (places < 32)
  return part <<< places

/-- The value of an index that may be left out. -/
def indexOrZero (cpu : Cpu) (word : Word) : Option Index → Checked Long
  | none => return 0
  | some _ => indexValue cpu word

def indexedAddress (base : Long) : Checked Long := do
  let word ← fetchWord
  let cpu ← getCpu
  match IndexWord.ofWord word with
  | .brief _ displacement =>
    let index ← indexValue cpu word
    return base + index + displacement.signExtend 32
  | .full hasBase index width indirection =>
    let base := if hasBase then base else 0
    let index ← indexOrZero cpu word index
    let displacement ← fetchDisplacement width
    match indirection with
    | .direct => return base + displacement + index
    | .preindexed width =>
      let outer ← fetchDisplacement width
      let pointer := base + displacement + index
      return (← onBus pointer .long (Exec.readLong .pointer pointer)) + outer
    | .postindexed width =>
      let outer ← fetchDisplacement width
      let pointer := base + displacement
      return (← onBus pointer .long (Exec.readLong .pointer pointer)) + index + outer

/-- The place that a mode names.  The register is the one that the field names. -/
def locate (field : Byte) (mode : Mode) (size : Size) : Checked Place := do
  let cpu ← getCpu
  let bytes := BitVec.ofNat 32 size.bytes
  match mode with
  | .dataRegister _ => return .dataRegister (← register (cut field 0))
  | .addressRegister _ => return .addressRegister (← register (cut field 0))
  | .indirect _ =>
    let n ← register (cut field 0)
    return .memory (cpu.a.get n)
  | .postincrement _ =>
    let n ← register (cut field 0)
    modifyCpu (·.setA n (cpu.a.get n + bytes))
    return .memory (cpu.a.get n)
  | .predecrement _ =>
    let n ← register (cut field 0)
    modifyCpu (·.setA n (cpu.a.get n - bytes))
    return .memory (cpu.a.get n - bytes)
  | .displaced _ =>
    let n ← register (cut field 0)
    return .memory (cpu.a.get n + (← fetchDisplacement .word))
  | .indexed _ =>
    let n ← register (cut field 0)
    return .memory (← indexedAddress (cpu.a.get n))
  | .absoluteShort => return .memory (← fetchDisplacement .word)
  | .absoluteLong => return .memory (← fetchDisplacement .long)
  | .relative => return .memory (cpu.pc + (← fetchDisplacement .word))
  | .relativeIndexed => return .memory (← indexedAddress cpu.pc)
  | .immediate => return .immediate

/-! ### Operands -/

def readLong (address : Long) : Checked Long :=
  onBus address .long (Exec.readLong .operand address)

def writeLong (address value : Long) : Checked Unit :=
  onBus address .long (Exec.writeLong address value)

def readMemory (address : Long) : Size → Checked Quad
  | .byte => return (← onBus address .byte (Exec.readByte .operand address)).setWidth 64
  | .word => return (← onBus address .word (Exec.readWord .operand address)).setWidth 64
  | .long => return (← readLong address).setWidth 64
  | .double | .extended => do
    let high ← readLong address
    let low ← readLong (address + 4)
    return high ++ low

def readStream : Size → Checked Quad
  | .byte => return ((← fetchWord).setWidth 8).setWidth 64
  | .word => return (← fetchWord).setWidth 64
  | .long => return (← fetchLong).setWidth 64
  | .double | .extended => do
    let high ← fetchLong
    let low ← fetchLong
    return high ++ low

def readPlace (place : Place) (size : Size) : Checked Quad :=
  match place with
  | .dataRegister _ | .addressRegister _ => unchecked (Exec.readPlace place size)
  | .memory address => readMemory address size
  | .immediate => readStream size

def writeMemory (address : Long) (size : Size) (value : Quad) : Checked Unit :=
  match size with
  | .byte => onBus address .byte (Exec.writeByte address (value.setWidth 8))
  | .word => onBus address .word (Exec.writeWord address (value.setWidth 16))
  | .long => writeLong address (value.setWidth 32)
  | .double => do
    writeLong address (value.extractLsb' 32 32)
    writeLong (address + 4) (value.setWidth 32)
  | .extended => do
    writeLong address (value.extractLsb' 32 32)
    writeLong (address + 4) (value.setWidth 32)
    writeLong (address + 8) 0

/-- An operand put at a place.  There is no code for the instruction stream. -/
def writePlace (place : Place) (size : Size) (value : Quad) : Checked Unit :=
  match place with
  | .dataRegister _ | .addressRegister _ => unchecked (Exec.writePlace place size value)
  | .memory address => writeMemory address size value
  | .immediate => require False

example (size : Size) (value : Quad) (m : Machine Ram) : writePlace .immediate size value m = none :=
  rfl

def withOperand (field : Byte) (size : Size) (access : Access) (use : Mode → Checked α) :
    Checked (Except Fault α) :=
  match Mode.route? field size access with
  | some mode => .ok <$> use mode
  | none => do
    let fault ← fault (.illegalAddressing ((Mode.modeBits field).setWidth 8)
      ((Mode.registerBits field).setWidth 8) size access)
    say (.refused fault)
    return .error fault

def readThrough (field : Byte) (size : Size) (mode : Mode) : Checked Quad := do
  readPlace (← locate field mode size) size

def writeThrough (field : Byte) (size : Size) (value : Quad) (mode : Mode) : Checked Unit := do
  writePlace (← locate field mode size) size value

def readOperand (field : Byte) (size : Size) : Checked (Except Fault Quad) :=
  withOperand field size .read (readThrough field size)

def writeOperand (field : Byte) (size : Size) (value : Quad) : Checked (Except Fault Unit) :=
  withOperand field size .write (writeThrough field size value)

def readExtended (field : Byte) : Checked (Except Fault Double) :=
  withOperand field .extended .read fun mode => do
    let place ← locate field mode .extended
    say (.extended .read place)
    return ⟨← readPlace place .extended⟩

def writeExtended (field : Byte) (value : Double) : Checked (Except Fault Unit) :=
  withOperand field .extended .write fun mode => do
    let place ← locate field mode .extended
    say (.extended .write place)
    writePlace place .extended value.bits

/-! ### Operations -/

/-- An operation with the numbers of its registers as they stand in the extension word. -/
def numbered (extension : Word) : Operation RegisterNumber → Operation Nat
  | .general (.register _) _ opmode =>
    .general (.register (cut extension 10)) (cut extension 7) opmode
  | .general (.memory format) _ opmode => .general (.memory format) (cut extension 7) opmode
  | .store _ format => .store (cut extension 7) format
  | .control access register => .control access register
  | .multiple access list => .multiple access list

def operate (opmode : Opmode) (destination : Nat) (source : Double) : Checked Unit := do
  let cpu ← getCpu
  let n ← register destination
  require (cpu.cycles.toNat + (opmode.cost cpu.costs).toNat < 2 ^ 64)
  modifyCpu (·.operate opmode n source)

def general (source : Source Nat) (destination : Nat) (opmode : Opmode) :
    Checked (Except Fault Unit) := do
  let cpu ← getCpu
  match source with
  | .register number =>
    let n ← register number
    .ok <$> operate opmode destination (cpu.fp.get n)
  | .memory format =>
    withOperand cpu.field format.size .read fun mode => do
      let operand ← readThrough cpu.field format.size mode
      operate opmode destination (format.load operand)

def store (source : Nat) (format : Format) : Checked (Except Fault Unit) := do
  let cpu ← getCpu
  let n ← register source
  withOperand cpu.field format.size .write fun mode => do
    writeThrough cpu.field format.size (format.store (cpu.fp.get n)) mode
    charge cpu.costs.store

def control (access : Access) (register : ControlRegister) : Checked (Except Fault Unit) := do
  let cpu ← getCpu
  withOperand cpu.field .long access fun mode => do
    match access with
    | .write => writeThrough cpu.field .long ((cpu.control register).setWidth 64) mode
    | .read =>
      let operand ← readThrough cpu.field .long mode
      modifyCpu (·.setControl register (operand.setWidth 32))
    charge cpu.costs.control

/-- A bit of a register list.  To find it, a one is shifted by less than eight places. -/
def testBit (list : Byte) (bit : Nat) : Checked Bool := do
  require (bit < 8)
  return list &&& 1#8 <<< bit ≠ 0

/-- Those of some bits that are set in a list. -/
def selected (list : Byte) : List Nat → Checked (List Nat)
  | [] => return []
  | bit :: bits => do
    let isSet ← testBit list bit
    let others ← selected list bits
    return if isSet then bit :: others else others

def andThen (access : Checked (Except Fault α)) (next : α → Checked (Except Fault γ)) :
    Checked (Except Fault γ) := do
  match ← access with
  | .ok a => next a
  | .error fault => return .error fault

/-- The register of one bit of a list moved.  A load counts down from seven. -/
def moveListed (access : Access) (field : Byte) (bit : Nat) : Checked (Except Fault Unit) := do
  let cpu ← getCpu
  match access with
  | .write =>
    let n ← register bit
    andThen (writeExtended field (cpu.fp.get n)) fun _ => .ok <$> charge cpu.costs.multiple
  | .read =>
    andThen (readExtended field) fun value => do
      require (bit ≤ 7)
      let n ← register (7 - bit)
      modifyCpu (·.setFp n value)
      .ok <$> charge cpu.costs.multiple

def moveAll (access : Access) (field : Byte) : List Nat → Checked (Except Fault Unit)
  | [] => return .ok ()
  | bit :: bits => andThen (moveListed access field bit) fun _ => moveAll access field bits

def multiple (access : Access) (list : Byte) : Checked (Except Fault Unit) := do
  let cpu ← getCpu
  let bits ← selected list (List.range 8)
  andThen (moveAll access cpu.field bits) fun _ => .ok <$> say (.moved access list)

def operation : Operation Nat → Checked (Except Fault Unit)
  | .general source destination opmode => general source destination opmode
  | .store source format => store source format
  | .control access register => control access register
  | .multiple access list => multiple access list

/-! ### Instructions -/

def dispatch : Checked (Except Fault Unit) := do
  let extension ← fetchWord
  match Operation.ofExtension extension with
  | .error cause => return .error (← fault cause)
  | .ok op =>
    let cpu ← getCpu
    say (.dispatched cpu.start cpu.ir extension op)
    operation (numbered extension op)

/-- The offset of a branch.  Two are taken from a word among the signed longs, which may not wrap,
and four are taken from a long modulo `2 ^ 32`. -/
def fetchOffset : BranchForm → Checked Int
  | .word => do
    let displacement ← fetchWord
    require (-0x80000000 ≤ displacement.toInt - 2 ∧ displacement.toInt - 2 < 0x80000000)
    return displacement.toInt - 2
  | .long => return ((← fetchLong) - 4).toInt

def jumpIf (condition : Condition) (offset : Int) : Checked Unit := do
  let cpu ← getCpu
  if condition.holds cpu.codes then
    cancelTrace
    modifyCpu (·.jump offset)
    say (.branched condition (← getCpu).pc)

def branch (form : BranchForm) : Checked (Except Fault Unit) := do
  let cpu ← getCpu
  match Condition.ofCode? cpu.field with
  | none => return .error (← fault (.condition cpu.field))
  | some condition =>
    jumpIf condition (← fetchOffset form)
    .ok <$> charge cpu.costs.branch

def saveFrame : Checked (Except Fault Unit) := do
  let cpu ← getCpu
  say (.saving cpu.start)
  writeOperand cpu.field .long 0

def restoreFrame : Checked (Except Fault Unit) := do
  let cpu ← getCpu
  say (.restoring cpu.start)
  Except.map (fun _ => ()) <$> readOperand cpu.field .long

def reporting (run : Checked (Except Fault Unit)) : Checked (Except Fault Unit) := do
  let result ← run
  match result with
  | .ok _ => return result
  | .error fault =>
    say (.rejected (← getCpu).ir fault)
    return result

def generalGroup : Checked (Except Fault Unit) :=
  reporting do
    match (← getCpu).ir.extractLsb' 6 2 with
    | 0#2 => dispatch
    | 1#2 => return .error (← fault (.mainOp 1))
    | 2#2 => branch .word
    | 3#2 => branch .long

def frameGroup : Checked (Except Fault Unit) :=
  reporting do
    match (← getCpu).ir.extractLsb' 6 2 with
    | 0#2 => saveFrame
    | 1#2 => restoreFrame
    | 2#2 => return .error (← fault (.saveRestoreOp 2))
    | 3#2 => return .error (← fault (.saveRestoreOp 3))

def fetchOpcode : Checked Unit := do
  let start := (← getCpu).pc
  let opcode ← fetchWord
  modifyCpu ({ · with ir := opcode, start := start })

def execute : Group → Checked (Except Fault Unit)
  | .general => generalGroup
  | .frame => frameGroup

end Checked

/-! ### Sessions -/

/-- What a host asks the unit for: an instruction, or an access through a field by itself. -/
inductive Request
  | turn (turn : Turn Ram)
  | read (field : Byte) (size : Size)
  | write (field : Byte) (size : Size) (value : Quad)
  | readExtended (field : Byte)
  | writeExtended (field : Byte) (value : Double)

def Request.isTurn : Request → Bool
  | turn _ => true
  | _ => false

inductive Answer
  | done (result : Except Fault Unit)
  | operand (result : Except Fault Quad)
  | double (result : Except Fault Double)

namespace Exec

def answer : Request → Exec Ram Answer
  | .turn turn => fun m =>
    let t : Transition Ram := ⟨m, turn⟩
    (.done t.result, t.after)
  | .read field size => .operand <$> readOperand field size
  | .write field size value => .done <$> writeOperand field size value
  | .readExtended field => .double <$> readExtended field
  | .writeExtended field value => .done <$> writeExtended field value

/-- The answers to requests, one after the other. -/
def serve : List Request → Exec Ram (List Answer)
  | [] => return []
  | request :: requests => do
    let first ← answer request
    let others ← serve requests
    return first :: others

end Exec

namespace Checked

def answer : Request → Checked Answer
  | .turn turn => do
    unchecked fun m => ((), { m with bus := turn.host m.bus })
    fetchOpcode
    .done <$> execute turn.group
  | .read field size => .operand <$> readOperand field size
  | .write field size value => .done <$> writeOperand field size value
  | .readExtended field => .double <$> readExtended field
  | .writeExtended field value => .done <$> writeExtended field value

def serve : List Request → Checked (List Answer)
  | [] => return []
  | request :: requests => do
    let first ← answer request
    let others ← serve requests
    return first :: others

end Checked

end M68kFloat
