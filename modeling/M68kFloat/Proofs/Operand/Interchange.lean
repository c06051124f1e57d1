import M68kFloat.Proofs.Operand.Indexing

/-!
# Modes that name one address

The same address can be named by several modes: an address register by itself, with a zero
displacement or through an index word that adds nothing; a short absolute address and an address
relative to the program counter by the long that they come to; and stepping over the operand by
moving the register by hand, before the access or after it.  `Mode.SameAddress` lists these pairs,
each with what the words of the two modes have to hold.

Such modes are interchangeable (`same_address_interchangeable`): where both allow an access it gives
the same operand, puts the same bytes at the same address, and leaves the same registers.
-/

namespace M68kFloat

open Memory Exec

/-- Two modes name the same address, the one on the first machine and the other on the second. -/
inductive Mode.SameAddress (m m' : Machine Ram) : Mode → Mode → Prop
  /-- A displacement of zero. -/
  | displaced (n : RegisterNumber) : m.nextWord = 0 →
      SameAddress m m' (.displaced n) (.indirect n)
  /-- A full index word with its base but neither an index nor a displacement nor a pointer. -/
  | indexed (n : RegisterNumber) {selection : BitVec 7} {inner : BitVec 2} :
      FullForm m.nextWord selection false true inner 0 → displacementBytes inner = 0 →
      SameAddress m m' (.indexed n) (.indirect n)
  /-- A word that stands for a long. -/
  | absolute : m'.bus.memory.peekLong m'.cpu.pc = m.nextWord.signExtend 32 →
      SameAddress m m' .absoluteShort .absoluteLong
  /-- The long that a displacement comes to, counted from where it lies. -/
  | relative : m'.bus.memory.peekLong m'.cpu.pc = m.cpu.pc + m.nextWord.signExtend 32 →
      SameAddress m m' .relative .absoluteLong
  | postincrement (n : RegisterNumber) : SameAddress m m' (.postincrement n) (.indirect n)
  | predecrement (n : RegisterNumber) : SameAddress m m' (.predecrement n) (.indirect n)

/-- What has to be done by hand before an access with the other mode. -/
def Mode.stepBefore (bytes : Nat) (cpu : Cpu) : Mode → Cpu
  | .predecrement n => cpu.setA n (cpu.a.get n - BitVec.ofNat 32 bytes)
  | _ => cpu

/-- What has to be done by hand after an access with the other mode. -/
def Mode.stepAfter (bytes : Nat) (cpu : Cpu) : Mode → Cpu
  | .postincrement n => cpu.setA n (cpu.a.get n + BitVec.ofNat 32 bytes)
  | _ => cpu

/-- The byte at `b` belongs to the words that a mode takes from the instruction stream. -/
def Machine.HoldsWords (m : Machine Ram) (mode : Mode) (size : Size) (b : Long) : Prop :=
  Within m.cpu.pc (mode.streamBytes size m.nextWord) b

namespace Mode.SameAddress

variable {m m' : Machine Ram} {mode mode' : Mode} {size : Size}

/-- **The two modes lead to one address.** -/
theorem place (h : SameAddress m m' mode mode')
    (hCpu : (mode.stepBefore size.bytes m.cpu).AgreeButPc m'.cpu) :
    ∃ a, (locate mode size m).1 = .memory a ∧ (locate mode' size m').1 = .memory a := by
  have hIndirect (n : RegisterNumber) : (locate (.indirect n) size m').1 =
      .memory ((mode.stepBefore size.bytes m.cpu).a.get n) := by
    rw [← hCpu.a]
    rfl
  have hAbsolute : (locate .absoluteLong size m').1 =
      .memory (m'.bus.memory.peekLong m'.cpu.pc) :=
    congrArg (fun r : Long × Machine Ram => Place.memory r.1) (fetchLong_ram m')
  cases h with
  | displaced n hNull =>
    have hSum : (locate (.displaced n) size m).1 =
        .memory (m.cpu.a.get n + m.nextWord.signExtend 32) := rfl
    refine ⟨m.cpu.a.get n, ?_, hIndirect n⟩
    rw [hSum, hNull]
    exact congrArg Place.memory (BitVec.add_zero _)
  | indexed n hFull hNull =>
    have hSum : (locate (.indexed n) size m).1 = .memory (m.indexedPlace (m.cpu.a.get n)) :=
      (leadsTo_indexedPlace rfl size).1.place
    refine ⟨m.cpu.a.get n, ?_, hIndirect n⟩
    rw [hSum, (Machine.indexedPlace_of_direct hFull _).1, displacementAt_of_null hNull]
    exact congrArg Place.memory ((BitVec.add_zero _).trans (BitVec.add_zero _))
  | absolute hLong =>
    exact ⟨m.nextWord.signExtend 32, rfl, hAbsolute.trans (congrArg Place.memory hLong)⟩
  | relative hLong =>
    exact ⟨m.cpu.pc + m.nextWord.signExtend 32, rfl,
      hAbsolute.trans (congrArg Place.memory hLong)⟩
  | postincrement n => exact ⟨m.cpu.a.get n, rfl, hIndirect n⟩
  | predecrement n =>
    refine ⟨_, rfl, (hIndirect n).trans ?_⟩
    exact congrArg Place.memory (Cpu.a_setA_self ..)

/-- **The same registers are left**, with the step taken by hand. -/
theorem cpuThrough (h : SameAddress m m' mode mode')
    (hCpu : (mode.stepBefore size.bytes m.cpu).AgreeButPc m'.cpu) :
    (m.cpuThrough mode size).AgreeButPc
      (mode.stepAfter size.bytes (m'.cpuThrough mode' size)) := by
  cases h with
  | displaced n hNull => exact hCpu.advance _ _
  | indexed n hFull hNull => exact hCpu.advance _ _
  | absolute hLong => exact hCpu.advance _ _
  | relative hLong => exact hCpu.advance _ _
  | postincrement n =>
    have hSame : m'.cpu = { m.cpu with pc := m'.cpu.pc } := hCpu
    rw [Cpu.AgreeButPc, Machine.cpuThrough, Machine.cpuThrough, hSame]
    rfl
  | predecrement n => exact hCpu.advance _ _

end Mode.SameAddress

/-- **Modes that name one address are interchangeable.**

The processors agree in all but the program counter once what comes before has been done by hand,
the memories agree outside the words of the two modes, and the operand lies apart from these.  Then
what is read is the same, what is written is put at the same address, and the registers agree again
once what comes after has been done by hand. -/
theorem same_address_interchangeable {m m' : Machine Ram} {mode mode' : Mode} {size : Size}
    (hSame : Mode.SameAddress m m' mode mode')
    (hCpu : (mode.stepBefore size.bytes m.cpu).AgreeButPc m'.cpu)
    (hMemory : ∀ b, ¬ m.HoldsWords mode size b → ¬ m'.HoldsWords mode' size b →
      m'.bus.memory.peek b = m.bus.memory.peek b)
    (hApart : ∀ b, (locate mode size m).1.Covers size b →
      ¬ m.HoldsWords mode size b ∧ ¬ m'.HoldsWords mode' size b) :
    (∀ field field', Mode.route? field size .read = some mode →
      Mode.route? field' size .read = some mode' →
      let read := readOperand field size m
      let read' := readOperand field' size m'
      (∃ value, read.1 = .ok value ∧ read'.1 = .ok value) ∧
        read.2.cpu.AgreeButPc (mode.stepAfter size.bytes read'.2.cpu) ∧
        read.2.bus = m.bus ∧ read'.2.bus = m'.bus) ∧
    (∀ field field' value, Mode.route? field size .write = some mode →
      Mode.route? field' size .write = some mode' →
      let written := writeOperand field size value m
      let written' := writeOperand field' size value m'
      (written.1 = .ok () ∧ written'.1 = .ok ()) ∧
        written.2.cpu.AgreeButPc (mode.stepAfter size.bytes written'.2.cpu) ∧
        (∃ a, (locate mode size m).1 = .memory a ∧
          written.2.bus = m.bus.modify (·.putOperand a size value) ∧
          written'.2.bus = m'.bus.modify (·.putOperand a size value)) ∧
        ∀ b, ¬ m.HoldsWords mode size b → ¬ m'.HoldsWords mode' size b →
          written'.2.bus.memory.peek b = written.2.bus.memory.peek b) := by
  obtain ⟨a, hPlace, hPlace'⟩ := hSame.place hCpu
  have hLeads := Machine.leadsTo_of_place hPlace
  have hLeads' := Machine.leadsTo_of_place hPlace'
  have hRegisters := hSame.cpuThrough hCpu
  rw [hPlace] at hApart ⊢
  refine ⟨fun field field' hRoute hRoute' => ?_, fun field field' value hRoute hRoute' => ?_⟩
  · obtain ⟨hValue, hAfter, hBus⟩ := hLeads.read field hRoute
    obtain ⟨hValue', hAfter', hBus'⟩ := hLeads'.read field' hRoute'
    have hOperand : m'.bus.memory.operand a size = m.bus.memory.operand a size :=
      operand_congr fun b hb => hMemory b (hApart b hb).1 (hApart b hb).2
    dsimp only
    rw [hAfter, hAfter']
    exact ⟨⟨_, hValue, hOperand ▸ hValue'⟩, hRegisters, hBus, hBus'⟩
  · obtain ⟨hOk, hAfter, hBus⟩ := hLeads.write field value hRoute
    obtain ⟨hOk', hAfter', hBus'⟩ := hLeads'.write field' value hRoute'
    dsimp only
    rw [hAfter, hAfter', hBus, hBus']
    exact ⟨⟨hOk, hOk'⟩, hRegisters, ⟨a, rfl, rfl, rfl⟩,
      fun b hb hb' => peek_putOperand_congr (hMemory b hb hb') a size value⟩

/-- About to follow words at 0x1002, with a long to be found at 0x1012. -/
def following (words : Memory → Memory) : Machine Ram :=
  let m := Machine.begun 0xF230 []
  { m with bus := m.bus.modify fun memory => words (memory.pokeLong 0x1012 0x12345678) }

/-- Sixteen bytes above the displacement, and the long that this comes to. -/
theorem same_address_interchangeable_relative :
    let m := following (·.pokeWord 0x1002 0x0010)
    let m' := following (·.pokeLong 0x1002 0x1012)
    ((readOperand 0x3A .long m).1 = .ok 0x12345678 ∧
      (readOperand 0x39 .long m').1 = .ok 0x12345678) ∧
    (writeOperand 0x3A .long 5 m).2.bus = m.bus.modify (·.putOperand 0x1012 .long 5) ∧
      (writeOperand 0x39 .long 5 m').2.bus = m'.bus.modify (·.putOperand 0x1012 .long 5) := by
  intro m m'
  have hWord := written_pokeWord ((Machine.begun 0xF230 []).bus.memory.pokeLong 0x1012 0x12345678)
    0x1002 0x0010
  have hLong := written_pokeLong ((Machine.begun 0xF230 []).bus.memory.pokeLong 0x1012 0x12345678)
    0x1002 0x1012
  have hMemory (b : Long) (hb : ¬ m.HoldsWords .relative .long b)
      (hb' : ¬ m'.HoldsWords .absoluteLong .long b) :
      m'.bus.memory.peek b = m.bus.memory.peek b :=
    (hLong.peek_of_not_within hb').trans (hWord.peek_of_not_within hb).symm
  have hPlace : (locate .relative .long m).1 = .memory 0x1012 := by decide
  have hApart (b : Long) (hb : (locate .relative .long m).1.Covers .long b) :
      ¬ m.HoldsWords .relative .long b ∧ ¬ m'.HoldsWords .absoluteLong .long b := by
    rw [hPlace] at hb
    exact ⟨not_within_of_distance (by decide) (by decide) hb,
      not_within_of_distance (by decide) (by decide) hb⟩
  have hCpu : (Mode.stepBefore Size.long.bytes m.cpu .relative).AgreeButPc m'.cpu :=
    Cpu.AgreeButPc.refl m.cpu
  obtain ⟨hReads, hWrites⟩ :=
    same_address_interchangeable (.relative (by decide)) hCpu hMemory hApart
  obtain ⟨⟨value, hRead, hRead'⟩, -⟩ := hReads 0x3A 0x39 (by decide) (by decide)
  have hValue : (readOperand 0x3A .long m).1 = .ok 0x12345678 := by decide
  obtain ⟨-, -, ⟨a, ha, hWritten, hWritten'⟩, -⟩ :=
    hWrites 0x3A 0x39 5 (by decide) (by decide)
  obtain rfl : a = 0x1012 := Place.memory.inj (ha.symm.trans hPlace)
  exact ⟨⟨hValue, hRead'.trans (hRead.symm.trans hValue)⟩, hWritten, hWritten'⟩

end M68kFloat
