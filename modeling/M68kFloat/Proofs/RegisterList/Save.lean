import M68kFloat.Proofs.RegisterList.Restore

/-!
# What a save leaves in memory

A store of a register list through `-(An)` leaves one image of twelve bytes below the other, that of
the lowest register on top, and touches nothing else (`save_leaves_images`).  Software that switches
contexts relies on the layout.

A list may also be stored in two parts.  The loop over the whole list goes on where the loop over
the lower part has ended, with the same address register and the same floating-point registers
(`transferAll_append`, `listed_of_split`), so it makes no difference whether an instruction ends
there.  The second instruction only has to be still there when it is its turn.
-/

namespace M68kFloat

open Memory Exec

/-! ### The processor -/

namespace Cpu

/-- The processor apart from where it is in its program: the program counter, the opcode and the
address where the instruction starts. -/
def withoutPlace (cpu : Cpu) : Cpu := { cpu with pc := 0, ir := 0, start := 0 }

/-- The processor after a store of a number of registers. -/
def stored (cpu : Cpu) (r : RegisterNumber) (count : Nat) : Cpu :=
  { cpu with
    a := cpu.a.set r (cpu.a.get r - BitVec.ofNat 32 (12 * count))
    cycles := cpu.cycles + BitVec.ofNat 64 count * cpu.costs.multiple.setWidth 64 }

theorem withoutPlace_stored (cpu : Cpu) (r : RegisterNumber) (count : Nat) :
    (cpu.stored r count).withoutPlace = cpu.withoutPlace.stored r count := rfl

theorem withoutPlace_advance (cpu : Cpu) (bytes : Long) :
    (cpu.advance bytes).withoutPlace = cpu.withoutPlace := rfl

theorem stored_stored (cpu : Cpu) (r : RegisterNumber) (n k : Nat) :
    (cpu.stored r n).stored r k = cpu.stored r (n + k) := by
  simp only [stored, Table.get_set_self, Table.set_set, sub_ofNat_sub, Nat.mul_add,
    BitVec.ofNat_add, BitVec.add_mul, BitVec.add_assoc]

end Cpu

/-! ### Stores one after the other -/

namespace Exec

theorem transferAll_append (access : Access) (mode : Mode) (bits rest : List RegisterNumber)
    (m : Machine Ram) :
    transferAll access mode (bits ++ rest) m =
      transferAll access mode rest (transferAll access mode bits m).2 := by
  induction bits generalizing m with
  | nil => rfl
  | cons bit bits ih => rw [List.cons_append, transferAll_cons, ih, transferAll_cons]

/-- What a store leaves at an address depends on the registers and on the byte there alone. -/
theorem peek_transferAll_write_congr (r : RegisterNumber) (bits : List RegisterNumber)
    {m m' : Machine Ram} {b : Long} (hA : m'.cpu.a.get r = m.cpu.a.get r)
    (hFp : m'.cpu.fp = m.cpu.fp) (h : m'.bus.memory.peek b = m.bus.memory.peek b) :
    (transferAll .write (.predecrement r) bits m').2.bus.memory.peek b =
      (transferAll .write (.predecrement r) bits m).2.bus.memory.peek b := by
  induction bits generalizing m m' with
  | nil => exact h
  | cons bit bits ih =>
    rw [transferAll_cons, transferAll_cons]
    apply ih
    · rw [a_transfer_write, a_transfer_write, hA]
    · rw [fp_transfer_write, fp_transfer_write, hFp]
    · rw [transfer_write_apply, transfer_write_apply, hA, hFp]
      exact peek_putOperand_congr h (m.cpu.a.get r - 12) .extended (m.cpu.fp.get bit).bits

end Exec

/-! ### The list in two parts -/

/-- A list is put together from two lists, the first one below the second. -/
structure SplitsInto (list low high : Byte) : Prop where
  union : list = low ||| high
  below : ∀ i j : RegisterNumber, low.getLsbD i.toNat = true → high.getLsbD j.toNat = true → i < j

theorem listed_of_split {list low high : Byte} (h : SplitsInto list low high) :
    listed list = listed low ++ listed high := by
  refine listed_eq_of_pairwise ?_ fun r => ?_
  · refine List.pairwise_append.mpr ⟨pairwise_listed low, pairwise_listed high, fun i hi j hj => ?_⟩
    exact h.below i j ((mem_listed low i).mp hi) ((mem_listed high j).mp hj)
  · rw [List.mem_append, mem_listed, mem_listed, h.union, BitVec.getLsbD_or, Bool.or_eq_true]

/-! ### The instruction -/

section

variable {m first second : Machine Ram} {r : RegisterNumber} {list low high : Byte}

theorem cpu_after_save (h : m.BegunMultiple .write list (.predecrement r)) :
    (generalGroup m).2.cpu = (m.cpu.advance 2).stored r (listed list).length := by
  obtain ⟨-, hCpu, -⟩ := generalGroup_multiple h rfl
  rw [hCpu, cpu_transferAll_write]
  rfl

theorem peek_after_save (h : m.BegunMultiple .write list (.predecrement r)) {b : Long}
    (hb : ¬ Within (m.cpu.a.get r - BitVec.ofNat 32 (12 * (listed list).length))
      (12 * (listed list).length) b) :
    (generalGroup m).2.bus.memory.peek b = m.bus.memory.peek b := by
  obtain ⟨-, -, hBus⟩ := generalGroup_multiple h rfl
  have hLength := length_listed_le list
  rw [hBus]
  exact peek_transferAll_write r (decoded m (.multiple .write list)) (by omega) hb

/-- A list is about to be stored by one instruction in `m` and by two in `first` and `second`.  The
machine `first` has the registers of `m`, and `second` has what `first` leaves; its extension word
has been there from the start, away from the bytes that are stored. -/
structure Machine.InTwo (m first second : Machine Ram) (r : RegisterNumber)
    (list low high : Byte) : Prop where
  split : SplitsInto list low high
  lower : first.BegunMultiple .write low (.predecrement r)
  registers : first.cpu.withoutPlace = m.cpu.withoutPlace
  upper : Machine.BegunMultiple { second with bus := first.bus } .write high (.predecrement r)
  left : second.cpu.withoutPlace = (generalGroup first).2.cpu.withoutPlace
  memory : second.bus.memory = (generalGroup first).2.bus.memory
  apart : ∀ b, Within second.cpu.pc 2 b →
    ¬ Within (m.cpu.a.get r - BitVec.ofNat 32 (12 * (listed list).length))
      (12 * (listed list).length) b

namespace Machine.InTwo

theorem a_first (h : m.InTwo first second r list low high) : first.cpu.a = m.cpu.a :=
  (congrArg Cpu.a h.registers :)

theorem length_listed (h : m.InTwo first second r list low high) :
    (listed list).length = (listed low).length + (listed high).length := by
  rw [listed_of_split h.split, List.length_append]

/-- The second instruction is still there. -/
theorem begun_second (h : m.InTwo first second r list low high) :
    second.BegunMultiple .write high (.predecrement r) := by
  have hBytes : ∀ b, Within second.cpu.pc 2 b →
      second.bus.memory.peek b = first.bus.memory.peek b := by
    intro b hb
    rw [h.memory]
    refine peek_after_save h.lower fun hWithin => h.apart b hb ?_
    have hLength := h.length_listed
    have hRoom := length_listed_le list
    rw [h.a_first] at hWithin
    exact within_sub_mono hWithin (by omega) (by omega)
  have hWord : second.bus.memory.peekWord second.cpu.pc =
      first.bus.memory.peekWord second.cpu.pc :=
    (reads_peekWord _ _).unique (n := 2) ((reads_peekWord _ _).congr (by decide) hBytes)
  refine ⟨h.upper.opcode, ?_, h.upper.field⟩
  rw [hWord]
  exact h.upper.extension

/-- Before the second instruction the registers are those in the middle of the loop. -/
theorem registers_second (h : m.InTwo first second r list low high) :
    second.cpu.withoutPlace = m.cpu.withoutPlace.stored r (listed low).length := by
  calc second.cpu.withoutPlace
      = first.cpu.withoutPlace.stored r (listed low).length := by
        rw [h.left, cpu_after_save h.lower, Cpu.withoutPlace_stored, Cpu.withoutPlace_advance]
    _ = m.cpu.withoutPlace.stored r (listed low).length := by rw [h.registers]

/-- **The registers do not show how many instructions there were**, -/
theorem cpu_second (h : m.InTwo first second r list low high)
    (hSave : m.BegunMultiple .write list (.predecrement r)) :
    (generalGroup second).2.cpu.withoutPlace = (generalGroup m).2.cpu.withoutPlace := by
  calc (generalGroup second).2.cpu.withoutPlace
      = second.cpu.withoutPlace.stored r (listed high).length := by
        rw [cpu_after_save h.begun_second, Cpu.withoutPlace_stored, Cpu.withoutPlace_advance]
    _ = m.cpu.withoutPlace.stored r (listed list).length := by
        rw [h.registers_second, Cpu.stored_stored, h.length_listed]
    _ = (generalGroup m).2.cpu.withoutPlace := by
        rw [cpu_after_save hSave, Cpu.withoutPlace_stored, Cpu.withoutPlace_advance]

/-- and neither does the memory. -/
theorem peek_second (h : m.InTwo first second r list low high)
    (hSave : m.BegunMultiple .write list (.predecrement r)) {b : Long}
    (hb : first.bus.memory.peek b = m.bus.memory.peek b) :
    (generalGroup second).2.bus.memory.peek b = (generalGroup m).2.bus.memory.peek b := by
  obtain ⟨-, -, hBus⟩ := generalGroup_multiple hSave rfl
  obtain ⟨-, -, hBusFirst⟩ := generalGroup_multiple h.lower rfl
  obtain ⟨-, -, hBusSecond⟩ := generalGroup_multiple h.begun_second rfl
  generalize hMiddle : transferAll .write (.predecrement r) (listed low)
    (decoded m (.multiple .write list)) = middle
  have hCpu : middle.2.cpu = (m.cpu.advance 2).stored r (listed low).length := by
    rw [← hMiddle, cpu_transferAll_write]
    rfl
  have hRegisters : second.cpu.withoutPlace = middle.2.cpu.withoutPlace := by
    rw [h.registers_second, hCpu, Cpu.withoutPlace_stored, Cpu.withoutPlace_advance]
  have hMemory : second.bus.memory.peek b = middle.2.bus.memory.peek b := by
    rw [h.memory, hBusFirst, ← hMiddle]
    have hA : first.cpu.a = m.cpu.a := h.a_first
    have hFp : first.cpu.fp = m.cpu.fp := (congrArg Cpu.fp h.registers :)
    exact peek_transferAll_write_congr r (listed low) (congrArg (·.get r) hA) hFp hb
  have hA : second.cpu.a = middle.2.cpu.a := (congrArg Cpu.a hRegisters :)
  have hFp : second.cpu.fp = middle.2.cpu.fp := (congrArg Cpu.fp hRegisters :)
  rw [hBusSecond, hBus, listed_of_split h.split, transferAll_append, hMiddle]
  exact peek_transferAll_write_congr r (listed high) (congrArg (·.get r) hA) hFp hMemory

end Machine.InTwo

/-- **A save leaves its images, whether in one instruction or in two.**  The store of `n` registers
through `-(An)` succeeds.  The register of the `k`-th bit lies `12 (k + 1)` bytes below the first
address, in eight bytes with the most significant first, and four zeros follow.  No byte outside the
`12 n` bytes below changes, the address register is as much lower, and no floating-point register
changes.

If the list is split in a lower and an upper part and these are stored one after the other, both
stores succeed and leave the same registers and the same memory, in every byte that was the same
before. -/
theorem save_leaves_images {n : Nat} {bits : Fin n → RegisterNumber}
    (hSave : m.BegunMultiple .write list (.predecrement r)) (hBits : Enumerates bits list) :
    let a := m.cpu.a.get r
    let after := (generalGroup m).2
    (generalGroup m).1 = .ok () ∧
    (∀ k : Fin n, Reads after.bus.memory (a - BitVec.ofNat 32 (12 * (k + 1))) 12
      ((m.cpu.fp.get (bits k)).bits ++ (0 : Long))) ∧
    (∀ b, ¬ Within (a - BitVec.ofNat 32 (12 * n)) (12 * n) b →
      after.bus.memory.peek b = m.bus.memory.peek b) ∧
    after.cpu.a = m.cpu.a.set r (a - BitVec.ofNat 32 (12 * n)) ∧
    after.cpu.fp = m.cpu.fp ∧
    ∀ (low high : Byte) (first second : Machine Ram), m.InTwo first second r list low high →
      (generalGroup first).1 = .ok () ∧ (generalGroup second).1 = .ok () ∧
      (generalGroup second).2.cpu.withoutPlace = after.cpu.withoutPlace ∧
      ∀ b, first.bus.memory.peek b = m.bus.memory.peek b →
        (generalGroup second).2.bus.memory.peek b = after.bus.memory.peek b := by
  intro a after
  have hLength : (listed list).length = n := by rw [listed_eq_ofFn hBits, List.length_ofFn]
  have hCpu : after.cpu = (m.cpu.advance 2).stored r n := by
    rw [← hLength]
    exact cpu_after_save hSave
  refine ⟨(generalGroup_multiple hSave rfl).1, reads_after_save hSave hBits, fun b hb => ?_, ?_, ?_,
    fun low high first second h => ?_⟩
  · rw [← hLength] at hb
    exact peek_after_save hSave hb
  · rw [hCpu]
    rfl
  · rw [hCpu]
    rfl
  · exact ⟨(generalGroup_multiple h.lower rfl).1, (generalGroup_multiple h.begun_second rfl).1,
      h.cpu_second hSave, fun b hb => h.peek_second hSave hb⟩

end

/-- FP0, a signalling NaN, and FP2 about to be saved below address 8.  Two stores with the same
effect follow in the program. -/
def savesBoth : Machine Ram :=
  let m := Machine.begun 0xF227 [0xE005, 0xF227, 0xE001, 0xF227, 0xE004]
  { m with cpu := ((m.cpu.setA 7 8).setFp 0 ⟨0x7FF0000000000001⟩).setFp 2 ⟨0xBFF0000000000000⟩ }

/-- The same registers where FP0 is about to be saved, -/
def savesLower : Machine Ram :=
  { savesBoth with cpu := { savesBoth.cpu with pc := 0x1006, start := 0x1004 } }

/-- and then FP2. -/
def savesUpper : Machine Ram := (fetchOpcode (generalGroup savesLower).2).2

/-- The images wrap around the memory, and two stores leave the same as one. -/
theorem save_leaves_images_two :
    (generalGroup savesBoth).1 = .ok () ∧
      Reads (generalGroup savesBoth).2.bus.memory 0xFFFFFFFC 12
        ((0x7FF0000000000001 : Quad) ++ (0 : Long)) ∧
      (generalGroup savesBoth).2.cpu.a.get 7 = 0xFFFFFFF0 ∧
      (generalGroup savesUpper).2.cpu.withoutPlace =
        (generalGroup savesBoth).2.cpu.withoutPlace ∧
      ∀ b, (generalGroup savesUpper).2.bus.memory.peek b =
        (generalGroup savesBoth).2.bus.memory.peek b := by
  have hBits : Enumerates ([0, 2] : List RegisterNumber).get 0x05 := ⟨by decide, by decide⟩
  have hSave : savesBoth.BegunMultiple .write 0x05 (.predecrement 7) := ⟨rfl, rfl, rfl⟩
  have hTwo : savesBoth.InTwo savesLower savesUpper 7 0x05 0x01 0x04 :=
    { split := ⟨by decide, by decide⟩
      lower := ⟨rfl, by decide +kernel, rfl⟩
      registers := rfl
      upper := ⟨by decide +kernel, by decide +kernel, by decide +kernel⟩
      left := rfl
      memory := rfl
      apart := fun b hb => not_within_of_distance (by decide +kernel) (by decide +kernel) hb }
  obtain ⟨hOk, hReads, -, hA, -, hInTwo⟩ := save_leaves_images hSave hBits
  obtain ⟨-, -, hCpu, hMemory⟩ := hInTwo _ _ _ _ hTwo
  refine ⟨hOk, hReads 0, ?_, hCpu, fun b => hMemory b rfl⟩
  rw [hA]
  decide +kernel

end M68kFloat
