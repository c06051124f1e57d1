import M68kFloat.Cpu
import M68kFloat.Decimal.Notation

/-!
# Queries

A host can ask for parts of the processor by name.  Every part is a `Property`, which
`Property.path` names and `Property.ofPath?` reads from a name.  Reading tries the
floating-point registers first, and only then the names that are written out.
-/

namespace M68kFloat

/-- A value that a query answers. -/
inductive Value
  | bool (value : Bool)
  | word (value : Word)
  | long (value : Long)
  | quad (value : Quad)
  | double (value : Double)
  deriving DecidableEq

/-- The value as a text.  Words and longs are in hexadecimal, quads in decimal. -/
def Value.text : Value → String
  | bool value => toString value
  | word value => "0x" ++ hexadecimal value
  | long value => "0x" ++ hexadecimal value
  | quad value => decimal value
  | double value => value.scientific

inductive ConditionCode
  | negative
  | zero
  | infinite
  | nan
  deriving DecidableEq

/-- A part of the processor that a query can ask for. -/
inductive Property
  /-- A floating-point register as a number. -/
  | register (n : RegisterNumber)
  /-- A floating-point register as a pattern. -/
  | pattern (n : RegisterNumber)
  | control (register : ControlRegister)
  | code (code : ConditionCode)
  | pc
  | opcode
  | cycles
  deriving DecidableEq

namespace Property

/-- The properties in the order in which they are listed. -/
def all : List Property :=
  [0, 1, 2, 3, 4, 5, 6, 7].map register ++ [0, 1, 2, 3, 4, 5, 6, 7].map pattern ++
    [.control .fpcr, .control .fpsr, .control .fpiar, .code .negative, .code .zero,
      .code .infinite, .code .nan, .pc, .opcode, .cycles]

def path : Property → String
  | register n => "fp" ++ decimal n
  | pattern n => "fp" ++ decimal n ++ ".bits"
  | control .fpcr => "fpcr"
  | control .fpsr => "fpsr"
  | control .fpiar => "fpiar"
  | code .negative => "fpcc.n"
  | code .zero => "fpcc.z"
  | code .infinite => "fpcc.i"
  | code .nan => "fpcc.nan"
  | pc => "pc"
  | opcode => "opcode"
  | cycles => "cycles"

/-- The paths that a host is told of. -/
def listed : List String :=
  ["fp0", "fp1", "fp2", "fp3", "fp4", "fp5", "fp6", "fp7", "fp0.bits", "fp1.bits", "fp2.bits",
    "fp3.bits", "fp4.bits", "fp5.bits", "fp6.bits", "fp7.bits", "fpcr", "fpsr", "fpiar", "fpcc.n",
    "fpcc.z", "fpcc.i", "fpcc.nan", "pc", "opcode", "cycles"]

/-- The register that a single digit names. -/
def registerOf? : List Char → Option RegisterNumber
  | [digit] =>
    if '0' ≤ digit ∧ digit ≤ '7' then some (.ofNat 3 (digit.toNat - '0'.toNat)) else none
  | _ => none

/-- A register after `fp`, its pattern if `.bits` follows. -/
def ofRegisterPath? (path : List Char) : Option Property :=
  ("fp".toList.isPrefixOf? path).bind fun rest =>
    match ".bits".toList.isSuffixOf? rest with
    | some index => (registerOf? index).map pattern
    | none => (registerOf? rest).map register

def ofName? : String → Option Property
  | "fpcr" => some (.control .fpcr)
  | "fpsr" => some (.control .fpsr)
  | "fpiar" => some (.control .fpiar)
  | "fpcc.n" => some (.code .negative)
  | "fpcc.z" => some (.code .zero)
  | "fpcc.i" => some (.code .infinite)
  | "fpcc.nan" => some (.code .nan)
  | "pc" => some .pc
  | "opcode" => some .opcode
  | "cycles" => some .cycles
  | _ => none

/-- The property that a path names. -/
def ofPath? (path : String) : Option Property := (ofRegisterPath? path.toList).or (ofName? path)

def value (cpu : Cpu) : Property → Value
  | register n => .double (cpu.fp.get n)
  | pattern n => .quad (cpu.fp.get n).bits
  | control r => .long (cpu.control r)
  | code .negative => .bool cpu.codes.negative
  | code .zero => .bool cpu.codes.zero
  | code .infinite => .bool cpu.codes.infinite
  | code .nan => .bool cpu.codes.nan
  | pc => .long cpu.pc
  | opcode => .word cpu.ir
  | cycles => .quad cpu.cycles

end Property

def Cpu.query (cpu : Cpu) (path : String) : Option Value :=
  (Property.ofPath? path).map fun property => property.value cpu

end M68kFloat
