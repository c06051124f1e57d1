import M68kFloat.Word
import M68kFloat.Operand.Size

/-!
# Addressing modes

The effective address field of an opcode names an addressing mode by three bits
and a register by three more.  Mode seven has no register of its own and uses the
register bits to tell five further modes apart; its last three codes are not used.

Which sizes an operand may have depends on the mode and on the direction, and
`Mode.sizes` is the table of it.  Everything outside the table is refused before
the access begins, so the table decides by itself, without the state of the
machine, whether an operand is accepted.
-/

namespace M68kFloat

inductive Mode
  /-- Dn: the data register itself. -/
  | dataRegister (n : RegisterNumber)
  /-- An: the address register itself. -/
  | addressRegister (n : RegisterNumber)
  /-- (An): memory at the address register. -/
  | indirect (n : RegisterNumber)
  /-- (An)+: memory at the address register, which then moves past the operand. -/
  | postincrement (n : RegisterNumber)
  /-- -(An): memory at the address register after it has moved back over the operand. -/
  | predecrement (n : RegisterNumber)
  /-- d16(An): memory at the address register plus a word. -/
  | displaced (n : RegisterNumber)
  /-- (An,Xn): memory at an address computed from an index word. -/
  | indexed (n : RegisterNumber)
  /-- (xxx).W: memory at a sign-extended word. -/
  | absoluteShort
  /-- (xxx).L: memory at a long. -/
  | absoluteLong
  /-- d16(PC): memory at the address of the displacement plus the displacement. -/
  | relative
  /-- (PC,Xn): memory at an address computed from an index word at the program counter. -/
  | relativeIndexed
  /-- An operand in the instruction stream. -/
  | immediate
  deriving DecidableEq

namespace Mode

/-- The mode that the mode bits and the register bits name. -/
def ofFields? (mode register : BitVec 3) : Option Mode :=
  match mode with
  | 0#3 => some (dataRegister register)
  | 1#3 => some (addressRegister register)
  | 2#3 => some (indirect register)
  | 3#3 => some (postincrement register)
  | 4#3 => some (predecrement register)
  | 5#3 => some (displaced register)
  | 6#3 => some (indexed register)
  | _ =>
    match register with
    | 0#3 => some absoluteShort
    | 1#3 => some absoluteLong
    | 2#3 => some relative
    | 3#3 => some relativeIndexed
    | 4#3 => some immediate
    | _ => none

def modeBits (field : Byte) : BitVec 3 := field.extractLsb' 3 3

def registerBits (field : Byte) : BitVec 3 := field.extractLsb' 0 3

/-- The mode that an effective address field names; its top two bits do not count. -/
def ofField? (field : Byte) : Option Mode := ofFields? (modeBits field) (registerBits field)

def sizes : Mode → Access → List Size
  | dataRegister _, _ => [.byte, .word, .long]
  | addressRegister _, .read => []
  | addressRegister _, .write => [.long]
  | indirect _, _ => [.byte, .word, .long, .double]
  | postincrement _, .read => [.long, .double, .extended]
  | postincrement _, .write => [.byte, .word, .long]
  | predecrement _, .read => []
  | predecrement _, .write => [.byte, .word, .long, .double, .extended]
  | displaced _, _ => [.byte, .word, .long, .double]
  | indexed _, _ => [.byte, .word, .long]
  | absoluteShort, .read => [.byte, .word, .long]
  | absoluteShort, .write => []
  | absoluteLong, _ => [.byte, .word, .long]
  | relative, .read => [.long, .double]
  | relative, .write => [.byte, .word, .long]
  | relativeIndexed, _ => []
  | immediate, .read => [.byte, .word, .long, .double]
  | immediate, .write => []

/-- Whether an operand of a size may be accessed in a direction. -/
def allows (mode : Mode) (size : Size) (access : Access) : Bool :=
  size ∈ mode.sizes access

/-- The mode of a field, if it may access an operand of a size in a direction. -/
def route? (field : Byte) (size : Size) (access : Access) : Option Mode :=
  (ofField? field).filter fun mode => mode.allows size access

end Mode

end M68kFloat
