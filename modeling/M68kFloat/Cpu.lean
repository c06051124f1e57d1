import M68kFloat.Condition
import M68kFloat.Costs
import M68kFloat.Operand.Index
import M68kFloat.Operation
import M68kFloat.Table

/-!
# The processor

The registers that the floating-point unit can see, and what an instruction does to
them once its operands are there.  Nothing in this module touches the bus.
-/

namespace M68kFloat

/-- Eight registers that each hold an `α`. -/
abbrev Bank (α : Type) := Table α 3

/-- The state of the processor: the data, address and floating-point registers, the program
counter, and what the unit itself counts and controls. -/
structure Cpu where
  d : Bank Long
  a : Bank Long
  fp : Bank Double
  pc : Long
  fpcr : Long
  fpsr : Long
  fpiar : Long
  /-- The opcode of the instruction. -/
  ir : Word
  /-- The address at which the instruction starts. -/
  start : Long
  cycles : Quad
  costs : Costs

namespace Cpu

def initial (costs : Costs) : Cpu where
  d := .fill 0 3
  a := .fill 0 3
  fp := .fill .zero 3
  pc := 0
  fpcr := 0
  fpsr := 0
  fpiar := 0
  ir := 0
  start := 0
  cycles := 0
  costs := costs

/-! ### Registers -/

def setD (cpu : Cpu) (n : RegisterNumber) (value : Long) : Cpu := { cpu with d := cpu.d.set n value }

def setA (cpu : Cpu) (n : RegisterNumber) (value : Long) : Cpu := { cpu with a := cpu.a.set n value }

def setFp (cpu : Cpu) (n : RegisterNumber) (value : Double) : Cpu :=
  { cpu with fp := cpu.fp.set n value }

def setDByte (cpu : Cpu) (n : RegisterNumber) (value : Byte) : Cpu :=
  cpu.setD n ((cpu.d.get n).extractLsb' 8 24 ++ value)

def setDWord (cpu : Cpu) (n : RegisterNumber) (value : Word) : Cpu :=
  cpu.setD n ((cpu.d.get n).extractLsb' 16 16 ++ value)

def control (cpu : Cpu) : ControlRegister → Long
  | .fpiar => cpu.fpiar
  | .fpsr => cpu.fpsr
  | .fpcr => cpu.fpcr

def setControl (cpu : Cpu) (register : ControlRegister) (value : Long) : Cpu :=
  match register with
  | .fpiar => { cpu with fpiar := value }
  | .fpsr => { cpu with fpsr := value }
  | .fpcr => { cpu with fpcr := value }

/-- The condition codes in the status register. -/
def codes (cpu : Cpu) : ConditionCodes := .ofStatus cpu.fpsr

/-! ### Instructions -/

/-- The instruction begun whose opcode the host has fetched, with the program
counter past it. -/
def setup (cpu : Cpu) (opcode : Word) : Cpu := { cpu with ir := opcode, start := cpu.pc - 2 }

/-- The program counter moved past words of the instruction stream. -/
def advance (cpu : Cpu) (bytes : Long) : Cpu := { cpu with pc := cpu.pc + bytes }

/-- The program counter moved by a signed offset, modulo `2 ^ 32`. -/
def jump (cpu : Cpu) (offset : Int) : Cpu := { cpu with pc := cpu.pc + BitVec.ofInt 32 offset }

def charge (cpu : Cpu) (cycles : Long) : Cpu :=
  { cpu with cycles := cpu.cycles + cycles.setWidth 64 }

def field (cpu : Cpu) : Byte := (cpu.ir.extractLsb' 0 6).setWidth 8

/-- An arithmetic operation on a floating-point register and a source. -/
def operate (cpu : Cpu) (opmode : Opmode) (destination : RegisterNumber) (source : Double) : Cpu :=
  let value := opmode.value (cpu.fp.get destination) source
  let written := if opmode.writes then cpu.setFp destination value else cpu
  let coded :=
    if opmode.setsCodes then
      { written with fpsr := (ConditionCodes.ofDouble value).replace written.fpsr }
    else written
  coded.charge (opmode.cost cpu.costs)

/-- The value of an index: the register or its sign-extended low word, scaled. -/
def indexValue (cpu : Cpu) (index : Index) : Long :=
  let register := if index.address then cpu.a.get index.register else cpu.d.get index.register
  let part := if index.long then register else (register.setWidth 16).signExtend 32
  part <<< index.scale

end Cpu

end M68kFloat
