import M68kFloat.Proofs.Operand.Fetching

/-!
# Reading what was written

An operand is written through an addressing mode, the program counter is put back, and the
operand is read through the same mode.  `read_after_write` says that the value comes back,
cut to its size, and what has not changed, for every mode that may be used in both
directions and does not move an address register.

A data register keeps its upper part (`getLsbD_withPart`).  In memory, the read fetches the
same words and the same pointer again as long as the operand has not been put over them,
since the execution that finds the address is determined by what it reads (`Fetches`).
-/

namespace M68kFloat

open Memory

/-- The calls on the bus that a machine has made since it was `before`. -/
def Machine.callsSince {β : Type} (m before : Machine β) : List BusCall :=
  m.calls.drop before.calls.length

theorem Machine.callsSince_eq {β : Type} {m before : Machine β} {calls : List BusCall}
    (h : m.calls = before.calls ++ calls) : m.callsSince before = calls := by
  rw [callsSince, h, List.drop_left]

/-- No byte that is written has been read. -/
def BusCall.Separate (calls : List BusCall) : Prop :=
  ∀ b, (∃ call ∈ calls, call.Writes b) → ∀ call ∈ calls, ¬ call.Reads b

/-- The byte at `b` belongs to an operand of a size at the place. -/
def Place.Covers (size : Size) (b : Long) : Place → Prop
  | memory a => Within a size.bytes b
  | _ => False

/-! ### Data registers -/

/-- The part of a register that an operand of a size is. -/
def partOf (register : Long) : Size → Quad
  | .byte => (register.setWidth 8).setWidth 64
  | .word => (register.setWidth 16).setWidth 64
  | _ => register.setWidth 64

/-- A register with its part replaced. -/
def withPart (register : Long) (size : Size) (value : Quad) : Long :=
  match size with
  | .byte => register.extractLsb' 8 24 ++ value.setWidth 8
  | .word => register.extractLsb' 16 16 ++ value.setWidth 16
  | _ => value.setWidth 32

theorem partOf_withPart (register : Long) {size : Size} (value : Quad) (h : size.bytes ≤ 4) :
    partOf (withPart register size value) size =
      (value.setWidth (8 * size.bytes)).setWidth 64 := by
  cases size with
  | byte => exact congrArg (BitVec.setWidth 64) BitVec.setWidth_append_eq_right
  | word => exact congrArg (BitVec.setWidth 64) BitVec.setWidth_append_eq_right
  | long => rfl
  | double => exact absurd h (by decide)
  | extended => exact absurd h (by decide)

/-- The bits above a part. -/
theorem getLsbD_append_part {w : Nat} (register : Long) (part : BitVec w) {k : Nat} (h : w ≤ k) :
    (register.extractLsb' w (32 - w) ++ part).getLsbD k = register.getLsbD k := by
  have hBit : w + (k - w) = k := by omega
  rw [BitVec.getLsbD_append, if_neg (by omega), BitVec.getLsbD_extractLsb', hBit]
  by_cases hk : k < 32
  · rw [decide_eq_true (show k - w < 32 - w by omega), Bool.true_and]
  · rw [BitVec.getLsbD_of_ge register k (by omega), Bool.and_false]

theorem getLsbD_withPart (register : Long) {size : Size} (value : Quad) {k : Nat}
    (hSize : size.bytes ≤ 4) (h : 8 * size.bytes ≤ k) :
    (withPart register size value).getLsbD k = register.getLsbD k := by
  cases size with
  | byte => exact getLsbD_append_part register (value.setWidth 8) h
  | word => exact getLsbD_append_part register (value.setWidth 16) h
  | long =>
    have hk : 32 ≤ k := h
    rw [BitVec.getLsbD_of_ge _ k hk, BitVec.getLsbD_of_ge _ k hk]
  | double => exact absurd hSize (by decide)
  | extended => exact absurd hSize (by decide)

namespace Exec

theorem readThrough_dataRegister (n : RegisterNumber) (size : Size) (m : Machine Ram) :
    readThrough size (.dataRegister n) m = (partOf (m.cpu.d.get n) size, m) := by
  cases size <;> rfl

theorem writeThrough_dataRegister (n : RegisterNumber) (size : Size) (value : Quad)
    (m : Machine Ram) :
    writeThrough size value (.dataRegister n) m =
      ((), { m with cpu := m.cpu.setD n (withPart (m.cpu.d.get n) size value) }) := by
  cases size <;> rfl

/-! ### Memory -/

/-- The modes through which an operand may move both ways: a data register, and those that
find an address by fetching alone. -/
theorem locate_of_two_way {mode : Mode} {size : Size} (hRead : mode.allows size .read = true)
    (hWrite : mode.allows size .write = true) (hOnce : ∀ n, mode ≠ .postincrement n) :
    (∃ n, mode = .dataRegister n ∧ size.bytes ≤ 4) ∨
      ∃ address : Exec Ram Long, Fetches address ∧
        locate mode size = Place.memory <$> address := by
  cases mode with
  | dataRegister n =>
    refine Or.inl ⟨n, rfl, ?_⟩
    cases size <;> first | decide | cases hRead
  | indirect n =>
    exact Or.inr ⟨_, fetches_getCpu.map fun cpu => cpu.a.get n, rfl⟩
  | displaced n =>
    exact Or.inr ⟨_, fetches_getCpu.bind fun cpu =>
      (fetches_fetchDisplacement .word).map (cpu.a.get n + ·), rfl⟩
  | indexed n =>
    exact Or.inr ⟨_, fetches_getCpu.bind fun cpu => fetches_indexedAddress (cpu.a.get n), rfl⟩
  | absoluteLong =>
    exact Or.inr ⟨_, fetches_fetchDisplacement .long, rfl⟩
  | relative =>
    exact Or.inr ⟨_, fetches_getCpu.bind fun cpu =>
      (fetches_fetchDisplacement .word).map (cpu.pc + ·), rfl⟩
  | postincrement n => exact absurd rfl (hOnce n)
  | addressRegister n => cases hRead
  | predecrement n => cases hRead
  | absoluteShort => cases hWrite
  | relativeIndexed => cases hRead
  | immediate => cases hWrite

/-- The bytes of an operand are those that its calls write. -/
theorem exists_operandWrites_writes (a : Long) (size : Size) (value : Quad) (b : Long) :
    (∃ call ∈ operandWrites a size value, call.Writes b) ↔ Within a size.bytes b := by
  have hDouble : Within a 8 b ↔ Within a 4 b ∨ Within (a + 4) 4 b :=
    within_append_iff (n := 4) (k := 4) (by decide)
  have hExtended : Within a 12 b ↔ Within a 8 b ∨ Within (a + 8) 4 b :=
    within_append_iff (n := 8) (k := 4) (by decide)
  cases size with
  | byte | word | long =>
    simp only [operandWrites, List.mem_singleton, exists_eq_left]
    rfl
  | double =>
    simp only [operandWrites, List.mem_cons, List.not_mem_nil, or_false, exists_eq_or_imp,
      exists_eq_left]
    exact hDouble.symm
  | extended =>
    simp only [operandWrites, List.mem_cons, List.not_mem_nil, or_false, exists_eq_or_imp,
      exists_eq_left]
    exact ((hExtended.trans (or_congr_left hDouble)).trans or_assoc).symm

/-- The reads before an operand write nothing. -/
theorem exists_writes_iff {memory : Memory} {reads : List BusCall}
    (hReads : ∀ call ∈ reads, call.AnsweredBy memory) (a : Long) (size : Size) (value : Quad)
    (b : Long) :
    (∃ call ∈ reads ++ operandWrites a size value, call.Writes b) ↔ Within a size.bytes b := by
  rw [← exists_operandWrites_writes a size value b]
  constructor
  · rintro ⟨call, hCall, hWrites⟩
    rcases List.mem_append.mp hCall with h | h
    · exact absurd hWrites ((hReads call h).not_writes b)
    · exact ⟨call, h, hWrites⟩
  · rintro ⟨call, hCall, hWrites⟩
    exact ⟨call, List.mem_append_right _ hCall, hWrites⟩

variable {mode : Mode} {size : Size} {address : Exec Ram Long} {m : Machine Ram} {a bytes : Long}
  {reads : List BusCall}

theorem readThrough_of_address (hLocate : locate mode size = Place.memory <$> address)
    (hAddress : address m = (a, fetched m bytes reads)) :
    readThrough size mode m = (m.bus.memory.operand a size,
      fetched m bytes (reads ++ operandReads m.bus.memory a size)) := by
  rw [readThrough, hLocate, bind_apply, map_apply, hAddress]
  rw [readPlace, readMemory_apply]
  simp only [fetched, List.append_assoc]

theorem writeThrough_of_address (hLocate : locate mode size = Place.memory <$> address)
    (hAddress : address m = (a, fetched m bytes reads)) (value : Quad) :
    writeThrough size value mode m = ((),
      { fetched m bytes (reads ++ operandWrites a size value) with
        bus := m.bus.modify (·.putOperand a size value) }) := by
  rw [writeThrough, hLocate, bind_apply, map_apply, hAddress]
  rw [writePlace, writeMemory_apply]
  simp only [fetched, List.append_assoc]

end Exec

open Exec

/-! ### The round trip -/

/-- The machine with its program counter replaced. -/
def Machine.withPc {β : Type} (m : Machine β) (pc : Long) : Machine β :=
  { m with cpu := { m.cpu with pc := pc } }

/-- What a read finds after an operand has been written from `m`: the operand, the program
counter where the write left it, and everything else as it was. -/
structure ReadsBack (m written : Machine Ram) (mode : Mode) (size : Size) (value : Quad)
    (read : Except Fault Quad × Machine Ram) : Prop where
  operand : read.1 = .ok ((value.setWidth (8 * size.bytes)).setWidth 64)
  cpu : read.2.cpu = { m.cpu with pc := written.cpu.pc, d := read.2.cpu.d }
  data : ∀ n, mode ≠ .dataRegister n → read.2.cpu.d.get n = m.cpu.d.get n
  upper : ∀ n k, mode = .dataRegister n → 8 * size.bytes ≤ k →
    (read.2.cpu.d.get n).getLsbD k = (m.cpu.d.get n).getLsbD k
  memory : ∀ b, ¬ (locate mode size m).1.Covers size b →
    read.2.bus.memory.peek b = m.bus.memory.peek b

theorem readsBack_dataRegister (m : Machine Ram) (n : RegisterNumber) {size : Size}
    (value : Quad) (hSize : size.bytes ≤ 4) :
    let written := (writeThrough size value (.dataRegister n) m).2
    ReadsBack m written (.dataRegister n) size value
      ((Except.ok <$> readThrough size (.dataRegister n) : Exec Ram _)
        (written.withPc m.cpu.pc)) := by
  dsimp only
  rw [map_apply, readThrough_dataRegister, writeThrough_dataRegister]
  have hSelf := Table.get_set_self m.cpu.d n (withPart (m.cpu.d.get n) size value)
  constructor
  · show Except.ok (partOf ((m.cpu.d.set n _).get n) size) = _
    rw [hSelf, partOf_withPart _ _ hSize]
  · rfl
  · intro n' hn
    exact Table.get_set_ne _ _ fun h => hn (h ▸ rfl)
  · intro n' k hn hk
    obtain rfl : n = n' := Mode.dataRegister.inj hn
    show ((m.cpu.d.set n _).get n).getLsbD k = _
    rw [hSelf, getLsbD_withPart _ _ hSize hk]
  · intro b _
    rfl

theorem readsBack_of_address {mode : Mode} {size : Size} {address : Exec Ram Long}
    (hFetches : Fetches address) (hLocate : locate mode size = Place.memory <$> address)
    (m : Machine Ram) (value : Quad) :
    let written := (writeThrough size value mode m).2
    (∀ b, (∃ call ∈ written.callsSince m, call.Writes b) ↔
      (locate mode size m).1.Covers size b) ∧
    (BusCall.Separate (written.callsSince m) →
      ReadsBack m written mode size value
        ((Except.ok <$> readThrough size mode : Exec Ram _) (written.withPc m.cpu.pc))) := by
  obtain ⟨bytes, reads, hReads, hRun⟩ := hFetches m
  have hAddress := hRun m rfl hReads
  generalize (address m).1 = a at hAddress hRun
  have hPlace : (locate mode size m).1 = .memory a := by rw [hLocate, map_apply, hAddress]
  rw [writeThrough_of_address hLocate hAddress, hPlace]
  dsimp only
  rw [Machine.callsSince_eq (m := { fetched m bytes _ with bus := _ }) rfl]
  have hCovers := exists_writes_iff hReads a size value
  refine ⟨hCovers, fun hSeparate => ?_⟩
  have hWritten := written_putOperand m.bus.memory a size value
  -- the write leaves alone what the address was found with
  have hAgain : ∀ call ∈ reads,
      call.AnsweredBy (m.bus.memory.putOperand a size value) := by
    intro call hCall
    refine (hReads call hCall).congr fun b hb => hWritten.peek_of_not_within fun hWithin => ?_
    exact hSeparate b ((hCovers b).mpr hWithin) call (List.mem_append_left _ hCall) hb
  generalize hm' : Machine.withPc _ m.cpu.pc = m'
  have hRunAgain := hRun m' (by rw [← hm']; rfl) (by rw [← hm']; exact hAgain)
  rw [map_apply, readThrough_of_address hLocate hRunAgain]
  subst hm'
  constructor
  · exact congrArg Except.ok (operand_putOperand _ _ _ _)
  · rfl
  · intro n _
    rfl
  · rintro n k rfl
    cases hPlace
  · intro b hb
    rw [hPlace] at hb
    exact hWritten.peek_of_not_within hb

/-- **What is written through a mode is read through it.**  The mode is one that may be used
in both directions and does not step past the operand.  The write succeeds and covers the
bytes of the operand at its place.  If the bytes that it has read on the way are not among
these, the read from the same program counter gives the operand cut to its size, ends
where the write ended, and finds all else as it was before the write. -/
theorem read_after_write {field : Byte} {mode : Mode} {size : Size} (m : Machine Ram)
    (value : Quad) (hRead : Mode.route? field size .read = some mode)
    (hWrite : Mode.route? field size .write = some mode) (hOnce : ∀ n, mode ≠ .postincrement n) :
    let written := (writeOperand field size value m).2
    (writeOperand field size value m).1 = .ok () ∧
    (∀ b, (∃ call ∈ written.callsSince m, call.Writes b) ↔
      (locate mode size m).1.Covers size b) ∧
    (BusCall.Separate (written.callsSince m) →
      ReadsBack m written mode size value (readOperand field size (written.withPc m.cpu.pc))) := by
  rw [writeOperand, readOperand, withOperand_of_route hWrite, withOperand_of_route hRead]
  have hTwoWay := locate_of_two_way (route_eq_some.mp hRead).2 (route_eq_some.mp hWrite).2 hOnce
  rcases hTwoWay with ⟨n, rfl, hSize⟩ | ⟨address, hFetches, hLocate⟩
  · have hNone : (writeThrough size value (.dataRegister n) m).2.callsSince m = [] :=
      Machine.callsSince_eq (by rw [writeThrough_dataRegister, List.append_nil])
    rw [map_apply]
    dsimp only
    rw [hNone]
    refine ⟨rfl, fun b => ?_, fun _ => readsBack_dataRegister m n value hSize⟩
    constructor
    · rintro ⟨call, hCall, -⟩
      cases hCall
    · intro h
      cases h
  · exact ⟨rfl, readsBack_of_address hFetches hLocate m value⟩

/-- A long about to be stored at D1 and four above the pointer at A0 and sixteen, with all
four given by a full index word. -/
def storesThroughPointer : Machine Ram :=
  let m := Machine.begun 0xF230 [0x1126, 0x0010, 0x0004]
  { m with
    cpu := (m.cpu.setA 0 0x2000).setD 1 0x20
    bus := m.bus.modify (·.pokeLong 0x2010 0x3000) }

theorem read_after_write_through_pointer :
    let written := (writeOperand 0x30 .long 0x123456789ABCDEF0 storesThroughPointer).2
    BusCall.Separate (written.callsSince storesThroughPointer) ∧
      (readOperand 0x30 .long (written.withPc 0x1002)).1 = .ok 0x9ABCDEF0 := by
  have hCalls : (writeOperand 0x30 .long 0x123456789ABCDEF0 storesThroughPointer).2.callsSince
      storesThroughPointer =
      [.read .stream .word 0x1002 0x1126, .read .stream .word 0x1004 0x10,
        .read .stream .word 0x1006 0x04, .read .pointer .long 0x2010 0x3000,
        .write .long 0x3024 0x9ABCDEF0] := by decide
  have hRead : Mode.route? 0x30 .long .read = some (.indexed 0) := by decide
  have hWrite : Mode.route? 0x30 .long .write = some (.indexed 0) := by decide
  obtain ⟨-, -, hBack⟩ :=
    read_after_write storesThroughPointer 0x123456789ABCDEF0 hRead hWrite (by decide)
  have hSeparate : BusCall.Separate ((writeOperand 0x30 .long 0x123456789ABCDEF0
      storesThroughPointer).2.callsSince storesThroughPointer) := by
    rw [hCalls]
    intro b hWrites
    simp only [List.mem_cons, List.not_mem_nil, or_false, exists_eq_or_imp, exists_eq_left,
      forall_eq_or_imp, forall_eq, BusCall.Writes, BusCall.Reads, false_or, not_false_eq_true,
      and_true] at hWrites ⊢
    refine ⟨?_, ?_, ?_, ?_⟩ <;> exact not_within_of_distance (by decide) (by decide) hWrites
  exact ⟨hSeparate, (hBack hSeparate).operand⟩

end M68kFloat
