import M68kFloat.Machine.Basic
import M68kFloat.Operand.Mode

/-!
# Operand access

An operand is accessed in three steps.  `Exec.withOperand` asks whether the
addressing mode allows the size in the direction, and refuses the access before
anything has happened if it does not.  `Exec.locate` follows the mode to the place
of the operand, which fetches displacements and moves address registers, and cannot
fail.  `Exec.readPlace` and `Exec.writePlace` move the operand itself, right-aligned
in a quad.
-/

namespace M68kFloat.Exec

variable {β α : Type} [Bus β]

/-! ### Locating -/

/-- The address that an index word at the program counter makes of a base.

The displacements are fetched before the pointer is read, and the outer one only
where there is a pointer. -/
def indexedAddress (base : Long) : Exec β Long := do
  let word ← fetchWord
  let cpu ← getCpu
  match IndexWord.ofWord word with
  | .brief index displacement =>
    return base + cpu.indexValue index + displacement.signExtend 32
  | .full hasBase index width indirection =>
    let base := if hasBase then base else 0
    let index := (index.map cpu.indexValue).getD 0
    let displacement ← fetchDisplacement width
    match indirection with
    | .direct => return base + displacement + index
    | .preindexed width =>
      let outer ← fetchDisplacement width
      return (← readLong .pointer (base + displacement + index)) + outer
    | .postindexed width =>
      let outer ← fetchDisplacement width
      return (← readLong .pointer (base + displacement)) + index + outer

/-- The place that a mode names for an operand of a size. -/
def locate (mode : Mode) (size : Size) : Exec β Place := do
  let cpu ← getCpu
  let bytes := BitVec.ofNat 32 size.bytes
  match mode with
  | .dataRegister n => return .dataRegister n
  | .addressRegister n => return .addressRegister n
  | .indirect n => return .memory (cpu.a.get n)
  | .postincrement n =>
    modifyCpu (·.setA n (cpu.a.get n + bytes))
    return .memory (cpu.a.get n)
  | .predecrement n =>
    modifyCpu (·.setA n (cpu.a.get n - bytes))
    return .memory (cpu.a.get n - bytes)
  | .displaced n => return .memory (cpu.a.get n + (← fetchDisplacement .word))
  | .indexed n => return .memory (← indexedAddress (cpu.a.get n))
  | .absoluteShort => return .memory (← fetchDisplacement .word)
  | .absoluteLong => return .memory (← fetchDisplacement .long)
  | .relative => return .memory (cpu.pc + (← fetchDisplacement .word))
  | .relativeIndexed => return .memory (← indexedAddress cpu.pc)
  | .immediate => return .immediate

/-! ### Moving -/

/-- The operand in memory.  An extended image is read as the double that it begins
with. -/
def readMemory (address : Long) : Size → Exec β Quad
  | .byte => return (← readByte .operand address).setWidth 64
  | .word => return (← readWord .operand address).setWidth 64
  | .long => return (← readLong .operand address).setWidth 64
  | .double | .extended => do
    let high ← readLong .operand address
    let low ← readLong .operand (address + 4)
    return high ++ low

/-- The operand in the instruction stream.  A byte takes a whole word there. -/
def readStream : Size → Exec β Quad
  | .byte => return ((← fetchWord).setWidth 8).setWidth 64
  | .word => return (← fetchWord).setWidth 64
  | .long => return (← fetchLong).setWidth 64
  | .double | .extended => do
    let high ← fetchLong
    let low ← fetchLong
    return high ++ low

def readPlace (place : Place) (size : Size) : Exec β Quad :=
  match place with
  | .dataRegister n => do
    let register := (← getCpu).d.get n
    match size with
    | .byte => return (register.setWidth 8).setWidth 64
    | .word => return (register.setWidth 16).setWidth 64
    | _ => return register.setWidth 64
  | .addressRegister n => return ((← getCpu).a.get n).setWidth 64
  | .memory address => readMemory address size
  | .immediate => readStream size

/-- An operand put into memory.  An extended image is the double followed by a zero
long. -/
def writeMemory (address : Long) (size : Size) (value : Quad) : Exec β Unit :=
  match size with
  | .byte => writeByte address (value.setWidth 8)
  | .word => writeWord address (value.setWidth 16)
  | .long => writeLong address (value.setWidth 32)
  | .double => do
    writeLong address (value.extractLsb' 32 32)
    writeLong (address + 4) (value.setWidth 32)
  | .extended => do
    writeLong address (value.extractLsb' 32 32)
    writeLong (address + 4) (value.setWidth 32)
    writeLong (address + 8) 0

/-- An operand put at a place.  A data register keeps the bytes above the operand.
No mode that allows a write leads into the instruction stream, where nothing is
written. -/
def writePlace (place : Place) (size : Size) (value : Quad) : Exec β Unit :=
  match place with
  | .dataRegister n =>
    match size with
    | .byte => modifyCpu (·.setDByte n (value.setWidth 8))
    | .word => modifyCpu (·.setDWord n (value.setWidth 16))
    | _ => modifyCpu (·.setD n (value.setWidth 32))
  | .addressRegister n => modifyCpu (·.setA n (value.setWidth 32))
  | .memory address => writeMemory address size value
  | .immediate => return ()

/-! ### Access through a field -/

/-- The fault of the present instruction for a cause. -/
def fault (cause : Cause) : Exec β Fault := return ⟨cause, (← getCpu).start⟩

/-- What is done with the mode of an effective address field, if it allows the size
in the direction.  The fault names the bits of the field. -/
def withOperand (field : Byte) (size : Size) (access : Access) (use : Mode → Exec β α) :
    Exec β (Except Fault α) :=
  match Mode.route? field size access with
  | some mode => .ok <$> use mode
  | none => do
    let fault ← fault (.illegalAddressing ((Mode.modeBits field).setWidth 8)
      ((Mode.registerBits field).setWidth 8) size access)
    say (.refused fault)
    return .error fault

def readThrough (size : Size) (mode : Mode) : Exec β Quad := do
  readPlace (← locate mode size) size

def writeThrough (size : Size) (value : Quad) (mode : Mode) : Exec β Unit := do
  writePlace (← locate mode size) size value

/-- The double at the beginning of the extended image that a mode leads to. -/
def readExtendedThrough (mode : Mode) : Exec β Double := do
  let place ← locate mode .extended
  say (.extended .read place)
  return ⟨← readPlace place .extended⟩

/-- A double put as an extended image where a mode leads to. -/
def writeExtendedThrough (value : Double) (mode : Mode) : Exec β Unit := do
  let place ← locate mode .extended
  say (.extended .write place)
  writePlace place .extended value.bits

/-- The operand that an effective address field leads to. -/
def readOperand (field : Byte) (size : Size) : Exec β (Except Fault Quad) :=
  withOperand field size .read (readThrough size)

def writeOperand (field : Byte) (size : Size) (value : Quad) : Exec β (Except Fault Unit) :=
  withOperand field size .write (writeThrough size value)

/-- The double at the beginning of the extended image that a field leads to. -/
def readExtended (field : Byte) : Exec β (Except Fault Double) :=
  withOperand field .extended .read readExtendedThrough

/-- A double put as an extended image where a field leads to. -/
def writeExtended (field : Byte) (value : Double) : Exec β (Except Fault Unit) :=
  withOperand field .extended .write (writeExtendedThrough value)

end M68kFloat.Exec
