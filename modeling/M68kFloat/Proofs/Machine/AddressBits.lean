import M68kFloat.Proofs.Machine.Indistinct

/-!
# The address bits that count

A memory looks at 24 bits of an address.  The unit computes addresses with all 32, but from the
low 24 bits of what it adds and shifts follow the low 24 bits of the result, and no instruction
copies an address into data.  So the top bytes of the program counter and of the address registers
never show: `high_address_bits_do_not_matter`.
-/

namespace M68kFloat

open Memory Exec

/-- Two processors in which all registers are the same, but those that hold addresses only name
the same bytes of memory. -/
structure Cpu.SameBytes (c c' : Cpu) : Prop where
  d : c.d = c'.d
  fp : c.fp = c'.fp
  fpcr : c.fpcr = c'.fpcr
  fpsr : c.fpsr = c'.fpsr
  fpiar : c.fpiar = c'.fpiar
  ir : c.ir = c'.ir
  costs : c.costs = c'.costs
  cycles : c.cycles = c'.cycles
  a : ∀ n, index (c.a.get n) = index (c'.a.get n)
  pc : index c.pc = index c'.pc
  start : index c.start = index c'.start

structure Machine.SameBytes (m m' : Machine Ram) : Prop where
  cpu : m.cpu.SameBytes m'.cpu
  bus : m.bus = m'.bus

/-- The two transitions are both accepted, or refused for the same cause and at the same byte, and
end at machines that are the same in the bits that count. -/
structure Transition.SameBytes (t t' : Transition Ram) : Prop where
  result : (t.result = .ok () ∧ t'.result = .ok ()) ∨
    ∃ cause pc pc', t.result = .error ⟨cause, pc⟩ ∧ t'.result = .error ⟨cause, pc'⟩ ∧
      index pc = index pc'
  after : t.after.SameBytes t'.after

/-! ### Memory at equal indices -/

namespace Memory

variable {a a' b b' : Long}

theorem index_add_congr (h : index a = index a') (hb : index b = index b') :
    index (a + b) = index (a' + b') := by
  have hAdd (x y : Long) : index (x + y) = index x + index y := BitVec.setWidth_add x y (by decide)
  rw [hAdd, hAdd, h, hb]

theorem index_shift_congr (n : BitVec 2) (h : index a = index a') :
    index (a <<< n) = index (a' <<< n) := by
  have hShift (x : Long) : index (x <<< n) = index x <<< n.toNat :=
    BitVec.setWidth_shiftLeft_of_le (by decide)
  rw [hShift, hShift, h]

theorem low_congr (h : index a = index a') : a.setWidth 16 = a'.setWidth 16 := by
  have hLow (x : Long) : x.setWidth 16 = (index x).setWidth 16 :=
    (BitVec.setWidth_setWidth_of_le x (by decide)).symm
  rw [hLow, hLow, h]

variable (memory : Memory) (h : index a = index a')

include h

theorem peek_congr : memory.peek a = memory.peek a' := by
  rw [peek, peek, h]

theorem poke_congr (value : Byte) : memory.poke a value = memory.poke a' value := by
  rw [poke, poke, h]

theorem peekWord_congr : memory.peekWord a = memory.peekWord a' := by
  rw [peekWord, peekWord, peek_congr memory h, peek_congr memory (index_add_congr h rfl)]

theorem pokeWord_congr (value : Word) : memory.pokeWord a value = memory.pokeWord a' value := by
  rw [pokeWord, pokeWord, poke_congr memory h, poke_congr _ (index_add_congr h rfl)]

theorem peekLong_congr : memory.peekLong a = memory.peekLong a' := by
  have hPeek (offset : Long) : memory.peek (a + offset) = memory.peek (a' + offset) :=
    peek_congr memory (index_add_congr h rfl)
  rw [peekLong, peekLong, peek_congr memory h, hPeek, hPeek, hPeek]

theorem pokeLong_congr (value : Long) : memory.pokeLong a value = memory.pokeLong a' value := by
  rw [pokeLong, pokeLong, pokeWord_congr memory h, pokeWord_congr _ (index_add_congr h rfl)]

end Memory

/-! ### The observer at the memory -/

/-- The observer who sees of an address the bits that memory looks at, and everything else. -/
def Observer.memory : Observer where
  Near a a' := index a = index a'
  SeesControl := True
  near_refl _ := rfl
  near_add := index_add_congr
  near_shift := index_shift_congr
  low := low_congr

namespace Observer

theorem serves_memory : memory.Serves Ram where
  readByte h ram := congrArg (·, ram) (peek_congr ram.memory h)
  readWord h ram := congrArg (·, ram) (peekWord_congr ram.memory h)
  readLong h ram := congrArg (·, ram) (peekLong_congr ram.memory h)
  writeByte h value ram := congrArg (Ram.mk · _) (poke_congr ram.memory h value)
  writeWord h value ram := congrArg (Ram.mk · _) (pokeWord_congr ram.memory h value)
  writeLong h value ram := congrArg (Ram.mk · _) (pokeLong_congr ram.memory h value)

theorem alike_memory {m m' : Machine Ram} : memory.Alike m m' ↔ m.SameBytes m' := by
  constructor
  · rintro ⟨hCpu, hBus⟩
    obtain ⟨hFpcr, hFpiar, hCosts, hCycles⟩ := hCpu.control trivial
    exact ⟨⟨hCpu.d, hCpu.fp, hFpcr, hCpu.fpsr, hFpiar, hCpu.ir, hCosts, hCycles, hCpu.a, hCpu.pc,
      hCpu.start⟩, hBus⟩
  · rintro ⟨hCpu, hBus⟩
    exact ⟨⟨hCpu.d, hCpu.fp, hCpu.fpsr, hCpu.ir, hCpu.a, hCpu.pc, hCpu.start,
      fun _ => ⟨hCpu.fpcr, hCpu.fpiar, hCpu.costs, hCpu.cycles⟩⟩, hBus⟩

theorem sameBytes_of_alike {t t' : Transition Ram} (h : memory.TransitionAlike t t') :
    t.SameBytes t' := by
  refine ⟨?_, alike_memory.mp h.after⟩
  have hResult := h.result
  generalize t.result = result, t'.result = result' at hResult
  rcases hResult with hDone | @⟨⟨cause, pc⟩, ⟨cause', pc'⟩, hCause, hPc⟩
  · exact Or.inl ⟨rfl, rfl⟩
  · obtain rfl : cause = cause' := hCause
    exact Or.inr ⟨cause, pc, pc', rfl, rfl, hPc⟩

end Observer

/-- **The high bits of addresses do not matter.**  Take two machines with the same memory whose
program counters and address registers agree in the 24 low bits and which are otherwise the same.
Whatever a run does, in every turn they are both accepted or refused for the same cause, and after
it they are again the same in this way, with the same memory, clock and count of cancelled
traces. -/
theorem high_address_bits_do_not_matter {m m' : Machine Ram} (hSame : m.SameBytes m')
    (turns : List (Turn Ram)) :
    List.Forall₂ Transition.SameBytes (m.history turns) (m'.history turns) := by
  have hAlike := Observer.alike_memory.mpr hSame
  exact (Machine.alike_history Observer.serves_memory hAlike fun _ _ _ _ => Or.inl trivial).imp
    fun _ _ => Observer.sameBytes_of_alike

/-- A load over which A0 steps, a sum indexed by the low word of A0, two registers stored below
A2, a refused instruction and a branch. -/
def addressesLow : Machine Ram :=
  let m := Machine.begun 0 [0xF218, 0x4080, 0xF231, 0x40A2, 0x8004, 0xF222, 0xE003, 0xF240, 0xF28F,
    0x0002]
  { m with cpu := { m.cpu with a := ((m.cpu.a.set 0 0x1000).set 1 0x100).set 2 0x3000 } }

/-- The same with other top bytes in all addresses. -/
def addressesHigh : Machine Ram :=
  let cpu := addressesLow.cpu
  { addressesLow with
    cpu := { cpu with
      a := ((cpu.a.set 0 0xAB001000).set 1 0xCD000100).set 2 0x01003000
      pc := 0xFF001002
      start := 0x99001000 } }

def addressesTurns : List (Turn Ram) := List.replicate 5 ⟨id, .general⟩

theorem high_address_bits_do_not_matter_differing :
    (addressesLow.history addressesTurns).map (fun t => Outcome.ofResult t.result) =
      [.done, .done, .done, .rejected ⟨.mainOp 1, 0x1010⟩, .done] ∧
    (addressesHigh.history addressesTurns).map (fun t => Outcome.ofResult t.result) =
      [.done, .done, .done, .rejected ⟨.mainOp 1, 0xFF001010⟩, .done] ∧
    List.Forall₂ Transition.SameBytes (addressesLow.history addressesTurns)
      (addressesHigh.history addressesTurns) := by
  have hA : ∀ n, index (addressesLow.cpu.a.get n) = index (addressesHigh.cpu.a.get n) := by decide
  have hSame : addressesLow.SameBytes addressesHigh :=
    ⟨⟨rfl, rfl, rfl, rfl, rfl, rfl, rfl, rfl, hA, rfl, rfl⟩, rfl⟩
  exact ⟨by decide +kernel, by decide +kernel,
    high_address_bits_do_not_matter hSame addressesTurns⟩

end M68kFloat
