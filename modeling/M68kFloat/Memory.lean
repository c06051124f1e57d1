import M68kFloat.Bus
import M68kFloat.Table

/-!
# Memory

`Memory` is a table of bytes with a 24-bit index.  The eight top bits of an address
do not count, so every address names a byte, and words and longs are their bytes
with the most significant first, wherever they lie.

A memory is a bus by itself, one that ignores cancelled traces.  `Ram` is a memory
that counts them.
-/

namespace M68kFloat

/-- Sixteen million bytes. -/
abbrev Memory := Table Byte 24

namespace Memory

def zero : Memory := .fill 0 24

/-- The part of an address that counts. -/
def index (address : Long) : BitVec 24 := address.setWidth 24

/-- The byte at an address. -/
def peek (memory : Memory) (address : Long) : Byte := memory.get (index address)

/-- The memory with the byte at an address replaced. -/
def poke (memory : Memory) (address : Long) (value : Byte) : Memory :=
  memory.set (index address) value

def peekWord (memory : Memory) (address : Long) : Word :=
  memory.peek address ++ memory.peek (address + 1)

def peekLong (memory : Memory) (address : Long) : Long :=
  memory.peek address ++ memory.peek (address + 1) ++ memory.peek (address + 2) ++
    memory.peek (address + 3)

def pokeWord (memory : Memory) (address : Long) (value : Word) : Memory :=
  (memory.poke address (value.extractLsb' 8 8)).poke (address + 1) (value.extractLsb' 0 8)

def pokeLong (memory : Memory) (address value : Long) : Memory :=
  (memory.pokeWord address (value.extractLsb' 16 16)).pokeWord (address + 2)
    (value.extractLsb' 0 16)

/-- The memory with bytes written to consecutive addresses. -/
def load (memory : Memory) (address : Long) : List Byte → Memory
  | [] => memory
  | byte :: bytes => (memory.poke address byte).load (address + 1) bytes

def loadWords (memory : Memory) (address : Long) : List Word → Memory
  | [] => memory
  | word :: words => (memory.pokeWord address word).loadWords (address + 2) words

@[simp] theorem peek_zero (address : Long) : zero.peek address = 0 := by
  simp [peek, zero]

/-- A byte is replaced at the addresses that agree in the bits that count. -/
theorem peek_poke (memory : Memory) (a b : Long) (value : Byte) :
    (memory.poke a value).peek b = if index b = index a then value else memory.peek b := by
  simp [peek, poke, Table.get_set]

instance : Bus Memory where
  readByte address memory := (memory.peek address, memory)
  readWord address memory := (memory.peekWord address, memory)
  readLong address memory := (memory.peekLong address, memory)
  writeByte address value memory := memory.poke address value
  writeWord address value memory := memory.pokeWord address value
  writeLong address value memory := memory.pokeLong address value

end Memory

/-- A memory with a count of the cancelled traces. -/
structure Ram where
  memory : Memory
  /-- How often a trace was cancelled. -/
  traceCancels : Long

namespace Ram

def zero : Ram := ⟨.zero, 0⟩

/-- The bus with its memory changed. -/
def modify (ram : Ram) (f : Memory → Memory) : Ram := { ram with memory := f ram.memory }

instance : Bus Ram where
  readByte address ram := (ram.memory.peek address, ram)
  readWord address ram := (ram.memory.peekWord address, ram)
  readLong address ram := (ram.memory.peekLong address, ram)
  writeByte address value ram := ram.modify (·.poke address value)
  writeWord address value ram := ram.modify (·.pokeWord address value)
  writeLong address value ram := ram.modify (·.pokeLong address value)
  cancelTrace ram := { ram with traceCancels := ram.traceCancels + 1 }

end Ram

end M68kFloat
