import M68kFloat.Proofs.Machine.Calls
import M68kFloat.Proofs.Operand.RoundTrip

/-!
# One access to an operand

An operand is read or written through an addressing mode.  `Machine.Accessed` says what this does
on any bus: to the processor, where the mode moves an address register, the operand may be put
into a register, and the program counter moves past the words that the mode takes
(`Mode.streamBytes`); and to the bus, where the calls are first the reads of these words, then
perhaps the read of a pointer, and then those of the operand itself (`Place.calls`).

The four accesses of the machine are like this: `accessed_readThrough`,
`accessed_writeThrough` and the two of an extended image.
-/

namespace M68kFloat

/-! ### The words of a mode -/

def DisplacementWidth.bytes : DisplacementWidth → Nat
  | null => 0
  | word => 2
  | long => 4

/-- The number of bytes of the outer displacement, where there is one. -/
def Indirection.bytes : Indirection → Nat
  | direct => 0
  | preindexed outer | postindexed outer => outer.bytes

/-- The number of bytes of a displacement, by the two bits that give its width. -/
def displacementBytes (bits : BitVec 2) : Nat := if bits = 2 then 2 else if bits = 3 then 4 else 0

/-- The number of bytes of an index word with its displacements.  Bit 8 tells the full form,
bits 5 and 4 the width of its base displacement, and the lowest three bits whether there is an
outer displacement and how wide it is. -/
def indexBytes (word : Word) : Nat :=
  if word.getLsbD 8 then
    2 + displacementBytes (word.extractLsb' 4 2) +
      if word.extractLsb' 0 3 = 0 then 0 else displacementBytes (word.extractLsb' 0 2)
  else 2

/-- Whether an index word leads through a pointer in memory. -/
def leadsThroughPointer (word : Word) : Bool := word.getLsbD 8 && word.extractLsb' 0 3 != 0

namespace Mode

/-- The number of bytes of an operand in the instruction stream. -/
def immediateBytes : Size → Nat
  | .byte | .word => 2
  | .long => 4
  | .double | .extended => 8

/-- The number of bytes that a mode takes from the instruction stream for an operand of a size,
where the word at the program counter is `next`. -/
def streamBytes (size : Size) (next : Word) : Mode → Nat
  | dataRegister _ | addressRegister _ | indirect _ | postincrement _ | predecrement _ => 0
  | displaced _ | absoluteShort | relative => 2
  | absoluteLong => 4
  | indexed _ | relativeIndexed => indexBytes next
  | immediate => immediateBytes size

/-- Whether a mode finds its operand through a pointer in memory. -/
def usesPointer (next : Word) : Mode → Bool
  | indexed _ | relativeIndexed => leadsThroughPointer next
  | _ => false

/-- Whether the operand lies in memory. -/
def inMemory : Mode → Bool
  | dataRegister _ | addressRegister _ | immediate => false
  | _ => true

/-- The address registers after a mode has stepped over so many bytes. -/
def stepped (mode : Mode) (bytes : Nat) (a : Bank Long) : Bank Long :=
  match mode with
  | postincrement n => a.set n (a.get n + BitVec.ofNat 32 bytes)
  | predecrement n => a.set n (a.get n - BitVec.ofNat 32 bytes)
  | _ => a

end Mode

/-- The processor after an access through a mode, but for its program counter. -/
def Cpu.accessed (cpu : Cpu) (mode : Mode) (size : Size) (access : Access) (value : Quad) : Cpu :=
  match mode, access with
  | .dataRegister n, .write => cpu.setD n (withPart (cpu.d.get n) size value)
  | .addressRegister n, .write => cpu.setA n (value.setWidth 32)
  | mode, _ => { cpu with a := mode.stepped size.bytes cpu.a }

namespace Cpu

variable (cpu : Cpu) (mode : Mode) (size : Size) (access : Access) (value : Quad)

/-- An access changes no more than the data and address registers. -/
theorem accessed_eq : cpu.accessed mode size access value =
    { cpu with
      d := (cpu.accessed mode size access value).d
      a := (cpu.accessed mode size access value).a } := by
  cases mode <;> cases access <;> rfl

/-- A data register changes only where it is what is written. -/
theorem d_accessed : (cpu.accessed mode size access value).d = cpu.d ∨
    ∃ n, mode = .dataRegister n ∧ access = .write ∧
      (cpu.accessed mode size access value).d =
        cpu.d.set n (withPart (cpu.d.get n) size value) := by
  cases mode with
  | dataRegister n =>
    cases access with
    | read => exact Or.inl rfl
    | write => exact Or.inr ⟨n, rfl, rfl, rfl⟩
  | addressRegister n => cases access <;> exact Or.inl rfl
  | _ => exact Or.inl rfl

/-- An address register changes where it is what is written, or where the mode steps over the
operand. -/
theorem a_accessed : (cpu.accessed mode size access value).a = mode.stepped size.bytes cpu.a ∨
    ∃ n, mode = .addressRegister n ∧ access = .write ∧
      (cpu.accessed mode size access value).a = cpu.a.set n (value.setWidth 32) := by
  cases mode with
  | addressRegister n =>
    cases access with
    | read => exact Or.inl rfl
    | write => exact Or.inr ⟨n, rfl, rfl, rfl⟩
  | dataRegister n => cases access <;> exact Or.inl rfl
  | _ => exact Or.inl rfl

end Cpu

/-- The calls that move an operand of a size in memory.  A double is two longs, the high one
first, and an extended image is written with a third. -/
def operandCalls (access : Access) (a : Long) (size : Size) (value : Quad) : List BusCall :=
  match access, size with
  | .write, size => Exec.operandWrites a size value
  | .read, .byte => [.read .operand .byte a (value.setWidth 32)]
  | .read, .word => [.read .operand .word a (value.setWidth 32)]
  | .read, .long => [.read .operand .long a (value.setWidth 32)]
  | .read, .double | .read, .extended =>
    [.read .operand .long a (value.extractLsb' 32 32),
      .read .operand .long (a + 4) (value.setWidth 32)]

theorem movesOperand_operandCalls (access : Access) (a : Long) (size : Size) (value : Quad) :
    ∀ call ∈ operandCalls access a size value, call.MovesOperand access := by
  intro call hCall
  cases access <;> cases size <;>
    simp only [operandCalls, Exec.operandWrites, List.mem_cons, List.not_mem_nil, or_false] at hCall
  all_goals rcases hCall with rfl | rfl | rfl <;> rfl

/-- The calls that move an operand of a size at a place.  Registers take none, and an operand in
the instruction stream comes with the words of the mode. -/
def Place.calls (access : Access) (size : Size) (value : Quad) : Place → List BusCall
  | memory a => operandCalls access a size value
  | _ => []

/-- The calls are the read of a pointer, or there are none. -/
def BusCall.Pointer (uses : Bool) (calls : List BusCall) : Prop :=
  if uses then ∃ a value, calls = [.read .pointer .long a value] else calls = []

theorem BusCall.Pointer.eq_nil_or {uses : Bool} {calls : List BusCall} (h : Pointer uses calls) :
    calls = [] ∨ ∃ a value, calls = [.read .pointer .long a value] := by
  cases uses with
  | false => exact Or.inl h
  | true => exact Or.inr h

open BusCall (Tiles Pointer)

variable {β : Type} [Bus β]

namespace Machine

/-- Between two machines there were the reads of `n` bytes of the instruction stream, then the
read of a pointer if one is used, and then the calls given. -/
def Traces (m m' : Machine β) (n : Nat) (uses : Bool) (calls : List BusCall) : Prop :=
  ∃ stream pointer, Calls m m' (stream ++ (pointer ++ calls)) ∧ Tiles m.cpu.pc n stream ∧
    Pointer uses pointer

theorem Calls.traces {m m' : Machine β} {calls : List BusCall} (h : Calls m m' calls) :
    Traces m m' 0 false calls := ⟨[], [], h, BusCall.tiles_nil _, rfl⟩

theorem Traces.calls {m m' : Machine β} {calls : List BusCall} (h : Traces m m' 0 false calls) :
    Calls m m' calls := by
  obtain ⟨stream, pointer, hCalls, hTiles, hPointer⟩ := h
  obtain rfl := hTiles.eq_nil
  obtain rfl : pointer = [] := hPointer
  exact hCalls

theorem Streams.traces {m m' : Machine β} {n : Nat} {stream : List BusCall}
    (h : Streams m m' n stream) : Traces m m' n false [] :=
  ⟨stream, [], by rw [List.append_nil, List.append_nil]; exact h.made, h.tiles, rfl⟩

/-- Calls made after. -/
theorem Traces.trans_calls {m m' m'' : Machine β} {n : Nat} {uses : Bool}
    {calls calls' : List BusCall} (h : Traces m m' n uses calls) (h' : Calls m' m'' calls') :
    Traces m m'' n uses (calls ++ calls') := by
  obtain ⟨stream, pointer, hCalls, hTiles, hPointer⟩ := h
  refine ⟨stream, pointer, ?_, hTiles, hPointer⟩
  rw [← List.append_assoc pointer, ← List.append_assoc stream]
  exact hCalls.trans h'

/-- An operand has been moved through a mode. -/
structure Accessed (mode : Mode) (size : Size) (access : Access) (value : Quad)
    (m m' : Machine β) : Prop where
  cpu : m'.cpu = (m.cpu.accessed mode size access value).advance
    (BitVec.ofNat 32 (mode.streamBytes size m.nextWord))
  trace : Traces m m' (mode.streamBytes size m.nextWord) (mode.usesPointer m.nextWord)
    ((Exec.locate mode size m).1.calls access size value)

/-- The table of costs is not touched by an access. -/
theorem Accessed.costs {mode : Mode} {size : Size} {access : Access} {value : Quad}
    {m m' : Machine β} (h : Accessed mode size access value m m') :
    m'.cpu.costs = m.cpu.costs := by
  rw [h.cpu, Cpu.accessed_eq]
  rfl

end Machine

open Machine

namespace Exec

/-! ### Displacements and index words -/

theorem bytes_ofBits : ∀ bits : BitVec 2,
    (DisplacementWidth.ofBits bits).bytes = displacementBytes bits := by decide

theorem streams_fetchDisplacement (width : DisplacementWidth) (m : Machine β) :
    ∃ calls, Streams m (fetchDisplacement width m).2 width.bytes calls := by
  cases width with
  | null => exact ⟨[], streams_nil m⟩
  | word => exact ⟨_, streams_fetchWord m⟩
  | long => exact streams_fetchLong m

/-- A read that does not move the program counter. -/
theorem calls_readLong (purpose : Purpose) (a : Long) (m : Machine β) :
    Calls m (readLong purpose a m).2
      [.read purpose .long a ((readLong purpose a m).1.setWidth 32)] := ⟨rfl, rfl⟩

/-- The pointer is read after the words. -/
theorem traces_readPointer {m m' : Machine β} {n : Nat} {stream : List BusCall}
    (h : Streams m m' n stream) (a : Long) : Traces m (readLong .pointer a m').2 n true [] := by
  have hPointer := calls_readLong .pointer a m'
  refine ⟨stream, [.read .pointer .long a ((readLong .pointer a m').1.setWidth 32)], ?_,
    h.tiles, a, _, rfl⟩
  rw [List.append_nil]
  exact h.made.trans hPointer

theorem bytes_indirection : ∀ bits : BitVec 3, (Indirection.ofBits bits).bytes =
    if bits = 0 then 0 else displacementBytes (bits.extractLsb' 0 2) := by decide

theorem indirection_ne_direct : ∀ bits : BitVec 3,
    (bits != 0) = decide (Indirection.ofBits bits ≠ .direct) := by decide

/-- Of the three bits of the indirection the lower two are the width of the outer displacement. -/
theorem outerWidth_bits (word : Word) :
    (word.extractLsb' 0 3).extractLsb' 0 2 = word.extractLsb' 0 2 := by
  apply BitVec.eq_of_getLsbD_eq
  intro k hk
  simp [BitVec.getLsbD_extractLsb']

/-- The bits of an index word tell how many bytes it takes and whether it has a pointer. -/
theorem indexBytes_of_full {word : Word} {base : Bool} {index : Option Index}
    {width : DisplacementWidth} {indirection : Indirection}
    (h : IndexWord.ofWord word = .full base index width indirection) :
    indexBytes word = 2 + width.bytes + indirection.bytes ∧
      leadsThroughPointer word = decide (indirection ≠ .direct) := by
  rw [IndexWord.ofWord] at h
  split at h
  · rename_i hFull
    obtain ⟨-, -, rfl, rfl⟩ := IndexWord.full.inj h
    rw [indexBytes, leadsThroughPointer, if_pos hFull, hFull, Bool.true_and, bytes_ofBits,
      bytes_indirection, outerWidth_bits, indirection_ne_direct]
    exact ⟨rfl, rfl⟩
  · cases h

theorem indexBytes_of_brief {word : Word} {index : Index} {displacement : Byte}
    (h : IndexWord.ofWord word = .brief index displacement) :
    indexBytes word = 2 ∧ leadsThroughPointer word = false := by
  rw [IndexWord.ofWord] at h
  split at h
  · cases h
  · rename_i hBrief
    rw [indexBytes, leadsThroughPointer, if_neg hBrief, Bool.eq_false_iff.mpr hBrief]
    exact ⟨rfl, rfl⟩

/-- **An index word is followed** by reading the words that belong to it, and then its pointer. -/
theorem indexedAddress_found (base : Long) (m : Machine β) :
    (indexedAddress base m).2.cpu = m.cpu.advance (BitVec.ofNat 32 (indexBytes m.nextWord)) ∧
      Traces m (indexedAddress base m).2 (indexBytes m.nextWord)
        (leadsThroughPointer m.nextWord) [] := by
  have hWord := streams_fetchWord m
  have hNext : (fetchWord m).1 = m.nextWord := rfl
  rw [indexedAddress, bind_apply, bind_apply, getCpu_apply, hNext]
  dsimp only
  cases h : IndexWord.ofWord m.nextWord with
  | brief index displacement =>
    obtain ⟨hBytes, hPointer⟩ := indexBytes_of_brief h
    rw [hBytes, hPointer]
    exact ⟨hWord.cpu, hWord.traces⟩
  | full hasBase index width indirection =>
    obtain ⟨hBytes, hPointer⟩ := indexBytes_of_full h
    obtain ⟨inner, hInner⟩ := streams_fetchDisplacement width (fetchWord m).2
    have hBoth := hWord.trans hInner
    rw [hBytes, hPointer]
    cases indirection with
    | direct => exact ⟨hBoth.cpu, hBoth.traces⟩
    | preindexed outer =>
      obtain ⟨calls, hOuter⟩ :=
        streams_fetchDisplacement outer (fetchDisplacement width (fetchWord m).2).2
      exact ⟨(hBoth.trans hOuter).cpu, traces_readPointer (hBoth.trans hOuter) _⟩
    | postindexed outer =>
      obtain ⟨calls, hOuter⟩ :=
        streams_fetchDisplacement outer (fetchDisplacement width (fetchWord m).2).2
      exact ⟨(hBoth.trans hOuter).cpu, traces_readPointer (hBoth.trans hOuter) _⟩

/-! ### Places -/

/-- **A mode is followed** to its place.  Only an address register may have changed by then, and
the words that have been read are those of the mode, but for an immediate operand, which is still
to be read. -/
theorem locate_found {mode : Mode} (hMode : mode ≠ .immediate) (size : Size) (m : Machine β) :
    (locate mode size m).2.cpu = Cpu.advance { m.cpu with a := mode.stepped size.bytes m.cpu.a }
        (BitVec.ofNat 32 (mode.streamBytes size m.nextWord)) ∧
      Traces m (locate mode size m).2 (mode.streamBytes size m.nextWord)
        (mode.usesPointer m.nextWord) [] := by
  have hSame (cpu : Cpu) : cpu = cpu.advance (BitVec.ofNat 32 0) := cpu.advance_zero.symm
  have hNone {m' : Machine β} (hCalls : m'.calls = m.calls) (hBus : m'.bus = m.bus) :
      Traces m m' 0 false [] := (calls_nil hCalls hBus).traces
  obtain ⟨words, hWord⟩ := streams_fetchDisplacement .word m
  obtain ⟨longs, hLong⟩ := streams_fetchDisplacement .long m
  cases mode with
  | dataRegister n | addressRegister n | indirect n => exact ⟨hSame _, hNone rfl rfl⟩
  | postincrement n | predecrement n => exact ⟨hSame _, hNone rfl rfl⟩
  | displaced n => exact ⟨hWord.cpu, hWord.traces⟩
  | absoluteShort => exact ⟨hWord.cpu, hWord.traces⟩
  | relative => exact ⟨hWord.cpu, hWord.traces⟩
  | absoluteLong => exact ⟨hLong.cpu, hLong.traces⟩
  | indexed n => exact indexedAddress_found (m.cpu.a.get n) m
  | relativeIndexed => exact indexedAddress_found m.cpu.pc m
  | immediate => exact absurd rfl hMode

theorem locate_inMemory {mode : Mode} (h : mode.inMemory = true) (size : Size) (m : Machine β) :
    ∃ a, (locate mode size m).1 = .memory a := by
  cases mode with
  | dataRegister n => cases h
  | addressRegister n => cases h
  | immediate => cases h
  | _ => exact ⟨_, rfl⟩

/-- Two longs are read as one quad, the high one first. -/
theorem calls_readLongs (a : Long) (m : Machine β) :
    let high := readLong .operand a m
    let low := readLong .operand (a + 4) high.2
    Calls m low.2 (operandCalls .read a .double (high.1 ++ low.1)) := by
  intro high low
  have hHigh : (high.1 ++ low.1).extractLsb' 32 32 = high.1.setWidth 32 :=
    BitVec.extractLsb'_append_eq_left.trans (BitVec.setWidth_eq _).symm
  have hLow : (high.1 ++ low.1).setWidth 32 = low.1.setWidth 32 :=
    BitVec.setWidth_append_eq_right.trans (BitVec.setWidth_eq _).symm
  rw [operandCalls, hHigh, hLow]
  exact (calls_readLong .operand a m).trans (calls_readLong .operand (a + 4) high.2)

theorem readMemory_calls (a : Long) (size : Size) (m : Machine β) :
    (readMemory a size m).2.cpu = m.cpu ∧ Calls m (readMemory a size m).2
      (operandCalls .read a size (readMemory a size m).1) := by
  cases size with
  | byte =>
    have hValue : (readMemory a .byte m).1.setWidth 32 = (readByte .operand a m).1.setWidth 32 :=
      BitVec.setWidth_setWidth_of_le _ (by decide)
    rw [operandCalls, hValue]
    exact ⟨rfl, rfl, rfl⟩
  | word =>
    have hValue : (readMemory a .word m).1.setWidth 32 = (readWord .operand a m).1.setWidth 32 :=
      BitVec.setWidth_setWidth_of_le _ (by decide)
    rw [operandCalls, hValue]
    exact ⟨rfl, rfl, rfl⟩
  | long =>
    have hValue : (readMemory a .long m).1.setWidth 32 = (readLong .operand a m).1.setWidth 32 :=
      BitVec.setWidth_setWidth_of_le _ (by decide)
    rw [operandCalls, hValue]
    exact ⟨rfl, calls_readLong .operand a m⟩
  | double | extended => exact ⟨rfl, calls_readLongs a m⟩

theorem writeMemory_calls (a : Long) (size : Size) (value : Quad) (m : Machine β) :
    (writeMemory a size value m).2.cpu = m.cpu ∧ Calls m (writeMemory a size value m).2
      (operandCalls .write a size value) := by
  cases size with
  | byte =>
    have hValue : ((value.setWidth 8).setWidth 32).setWidth 8 = value.setWidth 8 := by
      rw [BitVec.setWidth_setWidth_of_le _ (by decide), BitVec.setWidth_eq]
    refine ⟨rfl, rfl, ?_⟩
    rw [operandCalls, operandWrites, List.foldl_cons, BusCall.replay, hValue]
    rfl
  | word =>
    have hValue : ((value.setWidth 16).setWidth 32).setWidth 16 = value.setWidth 16 := by
      rw [BitVec.setWidth_setWidth_of_le _ (by decide), BitVec.setWidth_eq]
    refine ⟨rfl, rfl, ?_⟩
    rw [operandCalls, operandWrites, List.foldl_cons, BusCall.replay, hValue]
    rfl
  | long => exact ⟨rfl, rfl, rfl⟩
  | double | extended =>
    refine ⟨rfl, ?_, rfl⟩
    rw [operandCalls, operandWrites]
    simp only [writeMemory, bind_apply, writeLong, callWith, List.append_assoc,
      List.cons_append, List.nil_append]

theorem streams_readStream (size : Size) (m : Machine β) :
    ∃ calls, Streams m (readStream size m).2 (Mode.immediateBytes size) calls := by
  cases size with
  | byte | word => exact ⟨_, streams_fetchWord m⟩
  | long => exact streams_fetchLong m
  | double | extended =>
    obtain ⟨high, hHigh⟩ := streams_fetchLong m
    obtain ⟨low, hLow⟩ := streams_fetchLong (fetchLong m).2
    exact ⟨_, hHigh.trans hLow⟩

/-! ### The four accesses -/

section Accesses

variable {mode : Mode} {access : Access} {value : Quad} {m m' : Machine β} (size : Size)

/-- An operand in memory is accessed after its place has been found. -/
theorem accessed_inMemory (h : mode.inMemory = true)
    (hCpu : m'.cpu = (locate mode size m).2.cpu)
    (hCalls : Calls (locate mode size m).2 m' ((locate mode size m).1.calls access size value)) :
    Accessed mode size access value m m' := by
  have hMode : mode ≠ .immediate := by
    rintro rfl
    cases h
  obtain ⟨hLocated, hTrace⟩ := locate_found hMode size m
  refine ⟨?_, hTrace.trans_calls hCalls⟩
  rw [hCpu, hLocated]
  cases mode <;> first | rfl | cases h

/-- A register is accessed without any call. -/
theorem accessed_register {n : RegisterNumber}
    (h : mode = .dataRegister n ∨ mode = .addressRegister n)
    (hCpu : m'.cpu = m.cpu.accessed mode size access value) (hCalls : m'.calls = m.calls)
    (hBus : m'.bus = m.bus) : Accessed mode size access value m m' := by
  rcases h with rfl | rfl
  · exact ⟨hCpu.trans (Cpu.advance_zero _).symm, (calls_nil hCalls hBus).traces⟩
  · exact ⟨hCpu.trans (Cpu.advance_zero _).symm, (calls_nil hCalls hBus).traces⟩

variable (mode m)

theorem accessed_readThrough :
    Accessed mode size .read (readThrough size mode m).1 m (readThrough size mode m).2 := by
  by_cases h : mode.inMemory = true
  · obtain ⟨a, hPlace⟩ := locate_inMemory h size m
    obtain ⟨hCpu, hCalls⟩ := readMemory_calls a size (locate mode size m).2
    have hRead : readThrough size mode m = readMemory a size (locate mode size m).2 := by
      rw [readThrough, bind_apply, hPlace]
      rfl
    rw [hRead]
    refine accessed_inMemory size h hCpu ?_
    rw [hPlace]
    exact hCalls
  · cases mode with
    | dataRegister n =>
      have hSame : (readThrough size (.dataRegister n) m).2 = m := by cases size <;> rfl
      rw [hSame]
      exact accessed_register size (Or.inl rfl) rfl rfl rfl
    | addressRegister n => exact accessed_register size (Or.inr rfl) rfl rfl rfl
    | immediate =>
      obtain ⟨calls, hStream⟩ := streams_readStream size m
      exact ⟨hStream.cpu, hStream.traces⟩
    | _ => exact absurd rfl h

variable {mode} (value)

theorem accessed_writeThrough (hMode : mode ≠ .immediate) :
    Accessed mode size .write value m (writeThrough size value mode m).2 := by
  by_cases h : mode.inMemory = true
  · obtain ⟨a, hPlace⟩ := locate_inMemory h size m
    obtain ⟨hCpu, hCalls⟩ := writeMemory_calls a size value (locate mode size m).2
    have hWrite : writeThrough size value mode m =
        writeMemory a size value (locate mode size m).2 := by
      rw [writeThrough, bind_apply, hPlace]
      rfl
    rw [hWrite]
    refine accessed_inMemory size h hCpu ?_
    rw [hPlace]
    exact hCalls
  · cases mode with
    | dataRegister n =>
      have hWrite : (writeThrough size value (.dataRegister n) m).2 =
          { m with cpu := m.cpu.setD n (withPart (m.cpu.d.get n) size value) } := by
        cases size <;> rfl
      rw [hWrite]
      exact accessed_register size (Or.inl rfl) rfl rfl rfl
    | addressRegister n => exact accessed_register size (Or.inr rfl) rfl rfl rfl
    | immediate => exact absurd rfl hMode
    | _ => exact absurd rfl h

/-- An extended image lies in memory, and the message before it does nothing to the bus. -/
theorem accessed_readExtendedThrough (h : mode.inMemory = true) :
    Accessed mode .extended .read (readExtendedThrough mode m).1.bits m
      (readExtendedThrough mode m).2 := by
  obtain ⟨a, hPlace⟩ := locate_inMemory h .extended m
  obtain ⟨hCpu, hCalls⟩ := readMemory_calls a .extended
    (say (.extended .read (.memory a)) (locate mode .extended m).2).2
  rw [readExtendedThrough, bind_apply, hPlace]
  refine accessed_inMemory .extended h hCpu ?_
  rw [hPlace]
  exact ⟨hCalls.recorded, hCalls.bus⟩

theorem accessed_writeExtendedThrough (h : mode.inMemory = true) (value : Double) :
    Accessed mode .extended .write value.bits m (writeExtendedThrough value mode m).2 := by
  obtain ⟨a, hPlace⟩ := locate_inMemory h .extended m
  obtain ⟨hCpu, hCalls⟩ := writeMemory_calls a .extended value.bits
    (say (.extended .write (.memory a)) (locate mode .extended m).2).2
  rw [writeExtendedThrough, bind_apply, hPlace]
  refine accessed_inMemory .extended h hCpu ?_
  rw [hPlace]
  exact ⟨hCalls.recorded, hCalls.bus⟩

end Accesses

end Exec

end M68kFloat
