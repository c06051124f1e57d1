import M68kFloat.Machine.Operand
import M68kFloat.Proofs.Memory.Bytes

/-!
# Operands in memory

The operand of a size at an address as it is read, and the memory in which an operand has
been put there.  Both are one block of as many bytes as the size has: `written_putOperand`
says which bytes are put, and `operand_putOperand` that the operand reads back, cut to its
size.  On a `Ram` the accesses of the machine do exactly this (`readMemory_apply`,
`writeMemory_apply`).
-/

namespace M68kFloat

namespace Memory

/-- The operand at an address, right-aligned. -/
def operand (memory : Memory) (a : Long) : Size → Quad
  | .byte => (memory.peek a).setWidth 64
  | .word => (memory.peekWord a).setWidth 64
  | .long => (memory.peekLong a).setWidth 64
  | .double | .extended => memory.peekLong a ++ memory.peekLong (a + 4)

/-- The memory with an operand put at an address. -/
def putOperand (memory : Memory) (a : Long) (size : Size) (value : Quad) : Memory :=
  match size with
  | .byte => memory.poke a (value.setWidth 8)
  | .word => memory.pokeWord a (value.setWidth 16)
  | .long => memory.pokeLong a (value.setWidth 32)
  | .double => (memory.pokeLong a (value.extractLsb' 32 32)).pokeLong (a + 4) (value.setWidth 32)
  | .extended =>
    ((memory.pokeLong a (value.extractLsb' 32 32)).pokeLong (a + 4) (value.setWidth 32)).pokeLong
      (a + 8) 0

/-- The bytes that an operand puts into memory.  An extended image ends in four zeros. -/
def image (size : Size) (value : Quad) : Nat → Byte :=
  match size with
  | .byte => bigEndian (value.setWidth 8)
  | .word => bigEndian (value.setWidth 16)
  | .long => bigEndian (value.setWidth 32)
  | .double => bigEndian value
  | .extended => bigEndian (value ++ (0 : Long))

theorem quad_eq_append (value : Quad) : value.extractLsb' 32 32 ++ value.setWidth 32 = value := by
  rw [BitVec.setWidth_eq_extractLsb' (by decide)]
  exact BitVec.extractLsb'_append_extractLsb' (w := 32)

theorem written_quad (memory : Memory) (a : Long) (value : Quad) :
    Written memory
      ((memory.pokeLong a (value.extractLsb' 32 32)).pokeLong (a + 4) (value.setWidth 32)) a 8
      (bigEndian value) := by
  have h := (written_pokeLong memory a (value.extractLsb' 32 32)).append_bigEndian
    (n := 4) (k := 4) (written_pokeLong _ (a + 4) (value.setWidth 32)) (by decide)
  rwa [quad_eq_append] at h

/-- **An operand is put into memory as its image.** -/
theorem written_putOperand (memory : Memory) (a : Long) (size : Size) (value : Quad) :
    Written memory (memory.putOperand a size value) a size.bytes (image size value) := by
  cases size with
  | byte => exact written_poke memory a _
  | word => exact written_pokeWord memory a _
  | long => exact written_pokeLong memory a _
  | double => exact written_quad memory a value
  | extended =>
    exact (written_quad memory a value).append_bigEndian (n := 8) (k := 4)
      (written_pokeLong _ (a + 8) 0) (by decide)

theorem reads_quad (memory : Memory) (a : Long) :
    Reads memory a 8 (memory.peekLong a ++ memory.peekLong (a + 4)) :=
  (reads_peekLong memory a).append (n := 4) (k := 4) (reads_peekLong memory (a + 4))

theorem operand_extended_of_reads {memory : Memory} {a : Long} {value : Quad}
    (h : Reads memory a 8 value) : memory.operand a .extended = value :=
  (reads_quad memory a).unique (n := 8) h

/-- **What is put is read**, cut to the size of the operand. -/
theorem operand_putOperand (memory : Memory) (a : Long) (size : Size) (value : Quad) :
    (memory.putOperand a size value).operand a size =
      (value.setWidth (8 * size.bytes)).setWidth 64 := by
  have h := written_putOperand memory a size value
  cases size with
  | byte =>
    rw [operand, (reads_peek _ a).unique (n := 1) (h.reads (by decide))]
    rfl
  | word =>
    rw [operand, (reads_peekWord _ a).unique (n := 2) (h.reads (by decide))]
    rfl
  | long =>
    rw [operand, (reads_peekLong _ a).unique (n := 4) (h.reads (by decide))]
    rfl
  | double =>
    rw [operand, (reads_quad _ a).unique (n := 8) (h.reads (by decide))]
    simp [Size.bytes]
  | extended =>
    have hQuad : Reads _ a 8 value := (h.reads (by decide)).of_append (n := 8) (k := 4)
    rw [operand_extended_of_reads hQuad]
    simp [Size.bytes]

/-- What an operand that is put leaves does not depend on the bytes elsewhere. -/
theorem peek_putOperand_congr {memory memory' : Memory} {b : Long}
    (h : memory'.peek b = memory.peek b) (a : Long) (size : Size) (value : Quad) :
    (memory'.putOperand a size value).peek b = (memory.putOperand a size value).peek b := by
  rw [written_putOperand memory' a size value b, written_putOperand memory a size value b, h]

theorem operand_congr {memory memory' : Memory} {a : Long} {size : Size}
    (h : ∀ b, Within a size.bytes b → memory'.peek b = memory.peek b) :
    memory'.operand a size = memory.operand a size := by
  have hQuad (hLong : 8 ≤ size.bytes) :
      memory'.peekLong a ++ memory'.peekLong (a + 4) =
        memory.peekLong a ++ memory.peekLong (a + 4) := by
    have hBytes : ∀ b, Within a 8 b → memory'.peek b = memory.peek b :=
      fun b hb => h b (Nat.lt_of_lt_of_le hb hLong)
    exact (reads_quad memory' a).unique (n := 8) ((reads_quad memory a).congr (by decide) hBytes)
  cases size with
  | byte =>
    exact congrArg (BitVec.setWidth 64)
      ((reads_peek memory' a).unique (n := 1) ((reads_peek memory a).congr (by decide) h))
  | word =>
    exact congrArg (BitVec.setWidth 64)
      ((reads_peekWord memory' a).unique (n := 2) ((reads_peekWord memory a).congr (by decide) h))
  | long =>
    exact congrArg (BitVec.setWidth 64)
      ((reads_peekLong memory' a).unique (n := 4) ((reads_peekLong memory a).congr (by decide) h))
  | double => exact hQuad (by decide)
  | extended => exact hQuad (by decide)

end Memory

namespace Exec

/-! ### Calls on the bus -/

/-- The calls that read an operand. -/
def operandReads (memory : Memory) (a : Long) : Size → List BusCall
  | .byte => [.read .operand .byte a ((memory.peek a).setWidth 32)]
  | .word => [.read .operand .word a ((memory.peekWord a).setWidth 32)]
  | .long => [.read .operand .long a (memory.peekLong a)]
  | .double | .extended =>
    [.read .operand .long a (memory.peekLong a),
      .read .operand .long (a + 4) (memory.peekLong (a + 4))]

/-- The calls that put an operand. -/
def operandWrites (a : Long) (size : Size) (value : Quad) : List BusCall :=
  match size with
  | .byte => [.write .byte a ((value.setWidth 8).setWidth 32)]
  | .word => [.write .word a ((value.setWidth 16).setWidth 32)]
  | .long => [.write .long a (value.setWidth 32)]
  | .double => [.write .long a (value.extractLsb' 32 32), .write .long (a + 4) (value.setWidth 32)]
  | .extended =>
    [.write .long a (value.extractLsb' 32 32), .write .long (a + 4) (value.setWidth 32),
      .write .long (a + 8) 0]

theorem readLong_apply (purpose : Purpose) (a : Long) (m : Machine Ram) :
    readLong purpose a m = (m.bus.memory.peekLong a,
      { m with calls := m.calls ++ [.read purpose .long a (m.bus.memory.peekLong a)] }) := by
  simp only [readLong, readWith, BitVec.setWidth_eq]
  rfl

theorem writeLong_apply (a value : Long) (m : Machine Ram) :
    writeLong a value m = ((),
      { m with
        bus := m.bus.modify (·.pokeLong a value)
        calls := m.calls ++ [.write .long a value] }) := rfl

theorem readMemory_apply (a : Long) (size : Size) (m : Machine Ram) :
    readMemory a size m = (m.bus.memory.operand a size,
      { m with calls := m.calls ++ operandReads m.bus.memory a size }) := by
  cases size with
  | byte => rfl
  | word => rfl
  | long =>
    rw [readMemory, bind_apply, readLong_apply]
    rfl
  | double | extended =>
    simp only [readMemory, bind_apply, readLong_apply, pure_apply, List.append_assoc]
    rfl

theorem writeMemory_apply (a : Long) (size : Size) (value : Quad) (m : Machine Ram) :
    writeMemory a size value m = ((),
      { m with
        bus := m.bus.modify (·.putOperand a size value)
        calls := m.calls ++ operandWrites a size value }) := by
  cases size with
  | byte => rfl
  | word => rfl
  | long => rfl
  | double | extended =>
    simp only [writeMemory, bind_apply, writeLong_apply, List.append_assoc]
    rfl

end Exec

end M68kFloat
