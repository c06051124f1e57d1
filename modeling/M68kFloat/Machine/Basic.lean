import M68kFloat.Bus
import M68kFloat.Cpu
import M68kFloat.Message

/-!
# The machine

A `Machine` is a processor with a bus, together with the record of all calls on the
bus and of all messages so far.  An `Exec` is something that happens to a machine
and has a result.

This module holds the steps that everything else is made of: looking at the
processor and changing it, one call on the bus, one message, and reading the next
words of the instruction stream.  `Exec.bind_apply` says that things happen one
after the other; with it and the definitions of the steps an execution unfolds to
the machine that it leaves.
-/

namespace M68kFloat

/-- A processor with a bus and the record of what happened. -/
structure Machine (β : Type) where
  cpu : Cpu
  bus : β
  /-- The calls on the bus, the first one first. -/
  calls : List BusCall
  /-- The messages, the first one first. -/
  messages : List Message

/-- The machine to which nothing has happened. -/
def Machine.initial {β : Type} (costs : Costs) (bus : β) : Machine β :=
  ⟨.initial costs, bus, [], []⟩

/-- What happens to a machine, with a result. -/
abbrev Exec (β α : Type) := StateM (Machine β) α

namespace Exec

variable {β α γ : Type}

theorem bind_apply (x : Exec β α) (f : α → Exec β γ) (m : Machine β) :
    (x >>= f) m = f (x m).1 (x m).2 := rfl

theorem pure_apply (a : α) (m : Machine β) : (pure a : Exec β α) m = (a, m) := rfl

theorem map_apply (f : α → γ) (x : Exec β α) (m : Machine β) :
    (f <$> x) m = (f (x m).1, (x m).2) := rfl

/-! ### The processor -/

def getCpu : Exec β Cpu := fun m => (m.cpu, m)

def modifyCpu (f : Cpu → Cpu) : Exec β Unit := fun m => ((), { m with cpu := f m.cpu })

def say (message : Message) : Exec β Unit := fun m =>
  ((), { m with messages := m.messages ++ [message] })

/-! ### The bus -/

/-- A read on the bus with its record. -/
def readWith {width : Nat} (read : β → BitVec width × β) (record : Long → BusCall) :
    Exec β (BitVec width) := fun m =>
  let (value, bus) := read m.bus
  (value, { m with bus := bus, calls := m.calls ++ [record (value.setWidth 32)] })

/-- Any other call on the bus with its record. -/
def callWith (call : β → β) (record : BusCall) : Exec β Unit := fun m =>
  ((), { m with bus := call m.bus, calls := m.calls ++ [record] })

variable [Bus β]

def readByte (purpose : Purpose) (address : Long) : Exec β Byte :=
  readWith (Bus.readByte address) (.read purpose .byte address)

def readWord (purpose : Purpose) (address : Long) : Exec β Word :=
  readWith (Bus.readWord address) (.read purpose .word address)

def readLong (purpose : Purpose) (address : Long) : Exec β Long :=
  readWith (Bus.readLong address) (.read purpose .long address)

def writeByte (address : Long) (value : Byte) : Exec β Unit :=
  callWith (Bus.writeByte address value) (.write .byte address (value.setWidth 32))

def writeWord (address : Long) (value : Word) : Exec β Unit :=
  callWith (Bus.writeWord address value) (.write .word address (value.setWidth 32))

def writeLong (address value : Long) : Exec β Unit :=
  callWith (Bus.writeLong address value) (.write .long address value)

def cancelTrace : Exec β Unit := callWith Bus.cancelTrace .cancelTrace

/-! ### The instruction stream -/

/-- The next word of the instruction stream. -/
def fetchWord : Exec β Word := do
  let word ← readWord .stream (← getCpu).pc
  modifyCpu (·.advance 2)
  return word

/-- The next long of the instruction stream, read at once. -/
def fetchLong : Exec β Long := do
  let long ← readLong .stream (← getCpu).pc
  modifyCpu (·.advance 4)
  return long

/-- A displacement of a width from the instruction stream; a word is extended with
its sign. -/
def fetchDisplacement : DisplacementWidth → Exec β Long
  | .null => return 0
  | .word => return (← fetchWord).signExtend 32
  | .long => fetchLong

/-- The opcode fetched at the program counter, where the instruction starts. -/
def fetchOpcode : Exec β Unit := do
  let start := (← getCpu).pc
  let opcode ← fetchWord
  modifyCpu ({ · with ir := opcode, start := start })

end Exec

end M68kFloat
