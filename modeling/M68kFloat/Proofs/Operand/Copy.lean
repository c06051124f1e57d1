import M68kFloat.Proofs.Binary.Widening
import M68kFloat.Proofs.Machine.Arithmetic
import M68kFloat.Proofs.Operand.RoundTrip

/-!
# Copying an operand through a register

An operand is moved to a floating-point register and from there to another operand of the
same format.  Every operand is exact as a double, so nothing is lost in the register
(`Format.store_load`), but for the signalling NaNs of the single format, which are made quiet.

`Machine.operandAt` is the operand that lies at a place.  A read gives it, and a write leaves
the value there (`operandAt_writeThrough`), in memory and in both kinds of registers.
`copy_through_register` puts the two moves together.
-/

namespace M68kFloat

/-! ### Formats -/

namespace Format

/-- Whether an operand is a signalling NaN of the single format. -/
def signals : Format → Quad → Bool
  | single, operand => (Single.mk (operand.setWidth 32)).isNaN && !operand.getLsbD 22
  | _, _ => false

/-- What becomes of an operand in a register: a signalling single gets its quiet bit. -/
def copied (format : Format) (operand : Quad) : Quad :=
  if format.signals operand then operand ||| 0x400000 else operand

theorem or_quiet_of_quiet {operand : Quad} (h : operand.getLsbD 22 = true) :
    operand ||| 0x400000 = operand := by
  have hMask : ∀ k < 64, k ≠ 22 → (0x400000 : Quad).getLsbD k = false := by decide
  apply BitVec.eq_of_getLsbD_eq
  intro k hk
  rw [BitVec.getLsbD_or]
  by_cases hBit : k = 22
  · rw [hBit, h, Bool.true_or]
  · rw [hMask k hk hBit, Bool.or_false]

theorem store_load_single (operand : Quad) (hFits : (operand.setWidth 32).setWidth 64 = operand) :
    single.store (single.load operand) = single.copied operand := by
  rw [store, load, copied, signals]
  cases hNaN : (Single.mk (operand.setWidth 32)).isNaN with
  | false =>
    rw [Single.toSingle_ofSingle hNaN]
    exact hFits
  | true =>
    rw [Single.toSingle_ofSingle_of_isNaN hNaN]
    have hMask : (0x400000 : Long).setWidth 64 = 0x400000 := by decide
    have hOr : (operand.setWidth 32 ||| 0x400000).setWidth 64 = operand ||| 0x400000 := by
      rw [BitVec.setWidth_or, hFits, hMask]
    cases hQuiet : operand.getLsbD 22 with
    | false => exact hOr
    | true => exact hOr.trans (or_quiet_of_quiet hQuiet)

/-- A store leaves nothing above the operand. -/
theorem store_fits (format : Format) (d : Double) :
    ((format.store d).setWidth (8 * format.size.bytes)).setWidth 64 = format.store d := by
  cases format <;> simp [store, size, Size.bytes]

/-- **No format loses anything in a register**, but for the quiet bit. -/
theorem store_load (format : Format) {operand : Quad}
    (hFits : (operand.setWidth (8 * format.size.bytes)).setWidth 64 = operand) :
    format.store (format.load operand) = format.copied operand := by
  cases format with
  | long =>
    rw [store, load, Double.toSigned_ofInt _ (by decide) (by decide) (by decide),
      BitVec.signExtend_eq]
    exact hFits
  | word =>
    rw [store, load, Double.toSigned_ofInt _ (by decide) (by decide) (by decide),
      BitVec.signExtend_eq]
    exact hFits
  | byte =>
    have hByte : ∀ b : Byte, (b.signExtend 16).setWidth 8 = b := by decide
    rw [store, load, Double.toSigned_ofInt _ (by decide) (by decide) (by decide), hByte]
    exact hFits
  | double => rfl
  | single => exact store_load_single operand hFits

end Format

/-! ### Operands at places -/

/-- The operand of a size that lies at a place, right-aligned.  A byte in the instruction
stream is the lower half of a word. -/
def Machine.operandAt (m : Machine Ram) (place : Place) (size : Size) : Quad :=
  match place with
  | .dataRegister n => partOf (m.cpu.d.get n) size
  | .addressRegister n => partOf (m.cpu.a.get n) size
  | .memory a => m.bus.memory.operand a size
  | .immediate => m.bus.memory.operand (if size = .byte then m.cpu.pc + 1 else m.cpu.pc) size

theorem partOf_fits (register : Long) (size : Size) :
    ((partOf register size).setWidth (8 * size.bytes)).setWidth 64 = partOf register size := by
  cases size <;> simp [partOf, Size.bytes]

theorem Memory.operand_fits (memory : Memory) (a : Long) (size : Size) :
    ((memory.operand a size).setWidth (8 * size.bytes)).setWidth 64 = memory.operand a size := by
  cases size <;> simp [Memory.operand, Size.bytes]

theorem Machine.operandAt_fits (m : Machine Ram) (place : Place) (size : Size) :
    ((m.operandAt place size).setWidth (8 * size.bytes)).setWidth 64 = m.operandAt place size := by
  cases place with
  | dataRegister n => exact partOf_fits _ _
  | addressRegister n => exact partOf_fits _ _
  | memory a => exact Memory.operand_fits _ _ _
  | immediate => exact Memory.operand_fits _ _ _

namespace Exec

/-! ### Reading and writing through a mode -/

/-- Only an operand in memory takes steps to find, and they leave the bus alone. -/
theorem locate_cases (mode : Mode) (size : Size) (m : Machine Ram) :
    (locate mode size m).2 = m ∨
      ∃ a, (locate mode size m).1 = .memory a ∧ (locate mode size m).2.bus = m.bus := by
  have hWord := (fetches_fetchDisplacement .word).bus m
  have hLong := (fetches_fetchDisplacement .long).bus m
  cases mode with
  | dataRegister n | addressRegister n | indirect n | immediate => exact Or.inl rfl
  | postincrement n | predecrement n => exact Or.inr ⟨_, rfl, rfl⟩
  | displaced n => exact Or.inr ⟨_, rfl, hWord⟩
  | absoluteShort => exact Or.inr ⟨_, rfl, hWord⟩
  | relative => exact Or.inr ⟨_, rfl, hWord⟩
  | absoluteLong => exact Or.inr ⟨_, rfl, hLong⟩
  | indexed n => exact Or.inr ⟨_, rfl, (fetches_indexedAddress (m.cpu.a.get n)).bus m⟩
  | relativeIndexed => exact Or.inr ⟨_, rfl, (fetches_indexedAddress m.cpu.pc).bus m⟩

theorem readPlace_operandAt {place : Place} (hPlace : ∀ n, place ≠ .addressRegister n)
    (size : Size) (m : Machine Ram) : (readPlace place size m).1 = m.operandAt place size := by
  cases place with
  | dataRegister n => cases size <;> rfl
  | addressRegister n => exact absurd rfl (hPlace n)
  | memory a => rw [readPlace, readMemory_apply, Machine.operandAt]
  | immediate =>
    cases size with
    | byte =>
      have hLow : (m.bus.memory.peekWord m.cpu.pc).setWidth 8 =
          m.bus.memory.peek (m.cpu.pc + 1) := BitVec.setWidth_append_eq_right
      exact congrArg (BitVec.setWidth 64) hLow
    | word => rfl
    | long =>
      rw [readPlace, readStream, bind_apply, fetchLong_ram]
      rfl
    | double | extended =>
      rw [readPlace, readStream, bind_apply, fetchLong_ram, bind_apply, fetchLong_ram]
      rfl

theorem readThrough_operandAt {mode : Mode} {size : Size} (h : mode.allows size .read = true)
    (m : Machine Ram) :
    (readThrough size mode m).1 = m.operandAt (locate mode size m).1 size := by
  have hPlace : ∀ n, (locate mode size m).1 ≠ .addressRegister n := by
    intro n hn
    cases mode with
    | addressRegister n => cases h
    | _ => cases hn
  rw [readThrough, bind_apply, readPlace_operandAt hPlace]
  rcases locate_cases mode size m with hSame | ⟨a, hMemory, hBus⟩
  · rw [hSame]
  · rw [hMemory, Machine.operandAt, Machine.operandAt, hBus]

/-- Where a mode leads to that may be written. -/
theorem locate_of_write {mode : Mode} {size : Size} (h : mode.allows size .write = true)
    (m : Machine Ram) :
    (∃ n, (locate mode size m).1 = .dataRegister n ∧ size.bytes ≤ 4) ∨
      (∃ n, (locate mode size m).1 = .addressRegister n ∧ size = .long) ∨
      ∃ a, (locate mode size m).1 = .memory a := by
  cases mode with
  | dataRegister n =>
    refine Or.inl ⟨n, rfl, ?_⟩
    cases size <;> first | decide | cases h
  | addressRegister n =>
    refine Or.inr (Or.inl ⟨n, rfl, ?_⟩)
    cases size <;> first | rfl | cases h
  | immediate => cases h
  | _ => exact Or.inr (Or.inr ⟨_, rfl⟩)

theorem operandAt_writeThrough {mode : Mode} {size : Size} (h : mode.allows size .write = true)
    (value : Quad) (m : Machine Ram) :
    (writeThrough size value mode m).2.operandAt (locate mode size m).1 size =
      (value.setWidth (8 * size.bytes)).setWidth 64 := by
  rw [writeThrough, bind_apply]
  -- finding the place may have moved an address register, but the write comes after it
  generalize (locate mode size m).2 = located
  rcases locate_of_write h m with ⟨n, hPlace, hSize⟩ | ⟨n, hPlace, rfl⟩ | ⟨a, hPlace⟩
  · have hWritten : writePlace (.dataRegister n) size value located =
        ((), { located with
          cpu := located.cpu.setD n (withPart (located.cpu.d.get n) size value) }) :=
      writeThrough_dataRegister n size value located
    rw [hPlace, hWritten]
    show partOf ((located.cpu.d.set n _).get n) size = _
    rw [Table.get_set_self, partOf_withPart _ _ hSize]
  · rw [hPlace]
    show partOf ((located.cpu.a.set n _).get n) .long = _
    rw [Table.get_set_self]
    rfl
  · rw [hPlace, writePlace, writeMemory_apply]
    exact Memory.operand_putOperand _ _ _ _

/-! ### The two moves -/

theorem operandAt_charge (m : Machine Ram) (cycles : Long) (place : Place) (size : Size) :
    Machine.operandAt { m with cpu := m.cpu.charge cycles } place size =
      m.operandAt place size := by
  cases place <;> rfl

end Exec

open Exec

/-- The instruction that has begun is a general one, and its extension word is an operation. -/
structure Machine.Decodes {β : Type} [Bus β] (m : Machine β) (op : Operation RegisterNumber) :
    Prop where
  opcode : m.cpu.ir.extractLsb' 6 2 = 0
  extension : Operation.ofExtension (Bus.readWord m.cpu.pc m.bus).1 = .ok op

/-- **An operand is copied through a register.**  The first machine is about to move an
operand to a register, and the second, which has the registers of the unit that the first
leaves, is about to move the register to an operand of the same format.  Both addressing
modes are allowed.  Then both moves succeed, the second operand becomes the first, but for
the quiet bit of a signalling single, and all other registers of the unit are as they were. -/
theorem copy_through_register {m m' : Machine Ram} {format : Format} {n : RegisterNumber}
    {source destination : Mode}
    (hLoad : m.Decodes (.general (.memory format) n .move))
    (hSource : Mode.route? m.cpu.field format.size .read = some source)
    (hStore : m'.Decodes (.store n format))
    (hDestination : Mode.route? m'.cpu.field format.size .write = some destination)
    (hUnit : m'.cpu.unit = (generalGroup m).2.cpu.unit) :
    let loading := decoded m (.general (.memory format) n .move)
    let storing := decoded m' (.store n format)
    let operand := loading.operandAt (locate source format.size loading).1 format.size
    (generalGroup m).1 = .ok () ∧ (generalGroup m').1 = .ok () ∧
      (generalGroup m').2.operandAt (locate destination format.size storing).1 format.size =
        format.copied operand ∧
      (generalGroup m').2.cpu.unit =
        { m.cpu.unit with fp := m.cpu.fp.set n (format.load operand) } := by
  intro loading storing operand
  -- the first move puts the double of the operand into the register
  have hSourced : sourced loading (.memory format) = some (format.load operand) := by
    rw [sourced_memory_of_route (m := loading) hSource, readThrough_operandAt (route_eq_some.mp hSource).2]
  obtain ⟨hLoaded, hLoadedUnit⟩ := general_of_sourced hSourced n .move
  have hFirst := generalGroup_of_operation hLoad.opcode hLoad.extension hLoaded
  have hBetween : m'.cpu.unit = { m.cpu.unit with fp := m.cpu.fp.set n (format.load operand) } := by
    rw [hUnit, hFirst]
    exact hLoadedUnit
  -- the second finds it there
  have hRegister : storing.cpu.fp.get n = format.load operand := by
    have hFp : m'.cpu.fp = m.cpu.fp.set n (format.load operand) :=
      congrArg UnitRegisters.fp hBetween
    show m'.cpu.fp.get n = _
    rw [hFp, Table.get_set_self]
  have hStored := store_of_route (m := storing) hDestination n
  have hSecond := generalGroup_of_operation hStore.opcode hStore.extension
    (congrArg Prod.fst hStored)
  refine ⟨?_, ?_, ?_, ?_⟩
  · rw [hFirst]
    exact hLoaded
  · rw [hSecond]
    exact congrArg Prod.fst hStored
  · rw [hSecond, operation, hStored, operandAt_charge,
      operandAt_writeThrough (route_eq_some.mp hDestination).2, hRegister, Format.store_fits,
      Format.store_load format (loading.operandAt_fits _ _)]
  · rw [hSecond, ← hBetween]
    exact keeps_store Cpu.apart_unit n format storing

/-- A signalling single in the instruction stream, to be moved to FP3 and from there to A2. -/
def movesSignalling : Machine Ram := .begun 0xF23C [0x4580, 0x7FA1, 0x2345, 0xF20A, 0x6580]

/-- The machine after the first of the two moves, with the opcode of the second fetched. -/
def movesSignallingOn : Machine Ram := (fetchOpcode (generalGroup movesSignalling).2).2

theorem copy_through_register_signalling :
    (generalGroup movesSignalling).1 = .ok () ∧ (generalGroup movesSignallingOn).1 = .ok () ∧
      (generalGroup movesSignallingOn).2.operandAt (.addressRegister 2) .long = 0x7FE12345 ∧
      (generalGroup movesSignallingOn).2.cpu.fpsr = 0 := by
  have hLoad : movesSignalling.Decodes (.general (.memory .single) 3 .move) := ⟨rfl, rfl⟩
  have hSource : Mode.route? movesSignalling.cpu.field .long .read = some .immediate := rfl
  have hStore : movesSignallingOn.Decodes (.store 3 .single) := ⟨rfl, rfl⟩
  have hDestination : Mode.route? movesSignallingOn.cpu.field .long .write =
      some (.addressRegister 2) := rfl
  obtain ⟨hFirst, hSecond, hOperand, hUnit⟩ :=
    copy_through_register hLoad hSource hStore hDestination rfl
  refine ⟨hFirst, hSecond, hOperand.trans ?_, congrArg UnitRegisters.fpsr hUnit⟩
  decide +kernel

end M68kFloat
