import M68kFloat.Proofs.Machine.Steps
import M68kFloat.Proofs.Memory.Operand

/-!
# Register lists in memory

The two loops of a multiple move on a `Ram`.  The store walks down through `-(An)` and the
load walks up through `(An)+`, twelve bytes for each register.

* `reads_transferAll_write`: after a store the `k`-th register of the list has its image
  `12 (k + 1)` bytes below the address register, and `peek_transferAll_write` says that no
  byte away from the images has changed.
* `fp_transferAll_read`: after a load the register filled for the `k`-th bit holds the
  double that was `12 k` bytes above the address register.

All of them go by induction on the list.  An image that is there is not touched by what
follows, since the registers after it lie below.
-/

namespace M68kFloat.Exec

open Memory

/-! ### One register -/

theorem transfer_write_apply (r bit : RegisterNumber) (m : Machine Ram) :
    transfer .write (.predecrement r) bit m = ((),
      { cpu := (m.cpu.setA r (m.cpu.a.get r - 12)).charge m.cpu.costs.multiple
        bus := m.bus.modify (·.putOperand (m.cpu.a.get r - 12) .extended (m.cpu.fp.get bit).bits)
        calls := m.calls ++
          operandWrites (m.cpu.a.get r - 12) .extended (m.cpu.fp.get bit).bits
        messages := m.messages ++ [.extended .write (.memory (m.cpu.a.get r - 12))] }) := by
  simp only [transfer, bind_apply, getCpu_apply, writeExtendedThrough, locate, modifyCpu_apply,
    pure_apply, say_apply, writePlace, writeMemory_apply]
  rfl

theorem transfer_read_apply (r bit : RegisterNumber) (m : Machine Ram) :
    transfer .read (.postincrement r) bit m = ((),
      { cpu := ((m.cpu.setA r (m.cpu.a.get r + 12)).setFp (7 - bit)
          ⟨m.bus.memory.operand (m.cpu.a.get r) .extended⟩).charge m.cpu.costs.multiple
        bus := m.bus
        calls := m.calls ++ operandReads m.bus.memory (m.cpu.a.get r) .extended
        messages := m.messages ++ [.extended .read (.memory (m.cpu.a.get r))] }) := by
  simp only [transfer, bind_apply, getCpu_apply, readExtendedThrough, locate, modifyCpu_apply,
    pure_apply, say_apply, readPlace, readMemory_apply]
  rfl

theorem transferAll_cons (access : Access) (mode : Mode) (bit : RegisterNumber)
    (bits : List RegisterNumber) (m : Machine Ram) :
    transferAll access mode (bit :: bits) m =
      transferAll access mode bits (transfer access mode bit m).2 := rfl

/-! ### Addresses -/

/-- One image further down. -/
theorem sub_image_sub (a : Long) (k : Nat) :
    a - 12 - BitVec.ofNat 32 (12 * k) = a - BitVec.ofNat 32 (12 * (k + 1)) := by
  rw [Nat.mul_add_one, Nat.add_comm]
  exact sub_ofNat_sub a 12 (12 * k)

/-! ### The store -/

section Store

variable (r bit : RegisterNumber) (bits : List RegisterNumber) (m : Machine Ram)

theorem a_transfer_write :
    (transfer .write (.predecrement r) bit m).2.cpu.a.get r = m.cpu.a.get r - 12 := by
  rw [transfer_write_apply]
  exact Table.get_set_self _ _ _

theorem fp_transfer_write : (transfer .write (.predecrement r) bit m).2.cpu.fp = m.cpu.fp := by
  rw [transfer_write_apply]
  rfl

theorem written_transfer_write :
    Written m.bus.memory (transfer .write (.predecrement r) bit m).2.bus.memory
      (m.cpu.a.get r - 12) 12 (bigEndian ((m.cpu.fp.get bit).bits ++ (0 : Long))) := by
  rw [transfer_write_apply]
  exact written_putOperand _ _ .extended _

/-- What a store does to the processor: the address register goes down and the cycles go
up. -/
theorem cpu_transferAll_write :
    (transferAll .write (.predecrement r) bits m).2.cpu =
      { m.cpu with
        a := m.cpu.a.set r (m.cpu.a.get r - BitVec.ofNat 32 (12 * bits.length))
        cycles := m.cpu.cycles +
          BitVec.ofNat 64 bits.length * m.cpu.costs.multiple.setWidth 64 } := by
  induction bits generalizing m with
  | nil => simp [transferAll, pure_apply]
  | cons bit bits ih =>
    have hCycles : m.cpu.cycles + m.cpu.costs.multiple.setWidth 64 +
        BitVec.ofNat 64 bits.length * m.cpu.costs.multiple.setWidth 64 = m.cpu.cycles +
          BitVec.ofNat 64 (bits.length + 1) * m.cpu.costs.multiple.setWidth 64 := by
      rw [BitVec.ofNat_add, BitVec.add_mul, BitVec.one_mul, BitVec.add_assoc,
        BitVec.add_comm (BitVec.setWidth _ _)]
    rw [transferAll_cons, ih, transfer_write_apply]
    simp only [Cpu.charge, Cpu.setA, Table.get_set_self, Table.set_set, List.length_cons,
      sub_image_sub, hCycles]

variable {bits}

/-- **Bytes away from the images stay.** -/
theorem peek_transferAll_write {b : Long} (hRoom : 12 * bits.length ≤ 2 ^ 24)
    (hb : ¬ Within (m.cpu.a.get r - BitVec.ofNat 32 (12 * bits.length)) (12 * bits.length) b) :
    (transferAll .write (.predecrement r) bits m).2.bus.memory.peek b = m.bus.memory.peek b := by
  induction bits generalizing m with
  | nil => rfl
  | cons bit bits ih =>
    rw [List.length_cons, Nat.mul_add, Nat.add_comm] at hRoom hb
    rw [within_add_iff hRoom, not_or] at hb
    have hRest := ih (transfer .write (.predecrement r) bit m).2 (by omega)
      (by rw [a_transfer_write]; exact hb.2)
    rw [transferAll_cons, hRest]
    exact (written_transfer_write r bit m).peek_of_not_within hb.1

/-- **The images of a store.**  The register of the `k`-th bit lies `12 (k + 1)` bytes below
the address register, followed by a zero long. -/
theorem reads_transferAll_write (hRoom : 12 * bits.length ≤ 2 ^ 24) {k : Nat}
    (hk : k < bits.length) :
    Reads (transferAll .write (.predecrement r) bits m).2.bus.memory
      (m.cpu.a.get r - BitVec.ofNat 32 (12 * (k + 1))) 12
      ((m.cpu.fp.get bits[k]).bits ++ (0 : Long)) := by
  induction bits generalizing m k with
  | nil => cases hk
  | cons bit bits ih =>
    rw [List.length_cons] at hRoom
    cases k with
    | zero =>
      -- the registers after the first lie below it
      have hImage := (written_transfer_write r bit m).reads (by decide)
      refine hImage.congr (by decide) fun b hb => ?_
      refine peek_transferAll_write r (transfer .write (.predecrement r) bit m).2 ?_ ?_
      · omega
      · rw [a_transfer_write]
        exact not_within_sub_of_within hb (by omega)
    | succ k =>
      have h := ih (transfer .write (.predecrement r) bit m).2 (by omega) (k := k)
        (by simpa using hk)
      rwa [a_transfer_write, fp_transfer_write, sub_image_sub] at h

end Store

/-! ### The load -/

section Load

variable (r bit : RegisterNumber) (bits : List RegisterNumber) (m : Machine Ram)

/-- One image further up. -/
theorem add_image_add (a : Long) (k : Nat) :
    a + 12 + BitVec.ofNat 32 (12 * k) = a + BitVec.ofNat 32 (12 * (k + 1)) := by
  rw [Nat.mul_add, Nat.add_comm, BitVec.ofNat_add, BitVec.add_assoc]
  rfl

theorem a_transfer_read :
    (transfer .read (.postincrement r) bit m).2.cpu.a.get r = m.cpu.a.get r + 12 := by
  rw [transfer_read_apply]
  exact Table.get_set_self _ _ _

theorem bus_transfer_read : (transfer .read (.postincrement r) bit m).2.bus = m.bus := by
  rw [transfer_read_apply]

theorem fp_transfer_read :
    (transfer .read (.postincrement r) bit m).2.cpu.fp =
      m.cpu.fp.set (7 - bit) ⟨m.bus.memory.operand (m.cpu.a.get r) .extended⟩ := by
  rw [transfer_read_apply]
  rfl

theorem a_transferAll_read :
    (transferAll .read (.postincrement r) bits m).2.cpu.a.get r =
      m.cpu.a.get r + BitVec.ofNat 32 (12 * bits.length) := by
  induction bits generalizing m with
  | nil => simp [transferAll, pure_apply]
  | cons bit bits ih =>
    rw [transferAll_cons, ih, a_transfer_read, add_image_add, List.length_cons]

variable {bits}

/-- A register that no bit of the list names keeps its value. -/
theorem fp_transferAll_read_of_ne {s : RegisterNumber} (hs : ∀ bit ∈ bits, s ≠ 7 - bit) :
    (transferAll .read (.postincrement r) bits m).2.cpu.fp.get s = m.cpu.fp.get s := by
  induction bits generalizing m with
  | nil => rfl
  | cons bit bits ih =>
    rw [List.forall_mem_cons] at hs
    rw [transferAll_cons, ih _ hs.2, fp_transfer_read, Table.get_set_ne _ _ hs.1]

/-- **The registers of a load.**  The register of the `k`-th bit, counted from the other
end, gets the double `12 k` bytes above the address register. -/
theorem fp_transferAll_read (hBits : bits.Nodup) {k : Nat} (hk : k < bits.length) :
    (transferAll .read (.postincrement r) bits m).2.cpu.fp.get (7 - bits[k]) =
      ⟨m.bus.memory.operand (m.cpu.a.get r + BitVec.ofNat 32 (12 * k)) .extended⟩ := by
  induction bits generalizing m k with
  | nil => cases hk
  | cons bit bits ih =>
    rw [List.nodup_cons] at hBits
    rw [transferAll_cons]
    cases k with
    | zero =>
      -- the bits after the first name other registers
      have hOther : ∀ b ∈ bits, (7 : RegisterNumber) - bit ≠ 7 - b := by
        intro b hb hEq
        have hSame : bit = b := by bv_omega
        exact hBits.1 (hSame ▸ hb)
      rw [List.getElem_cons_zero, fp_transferAll_read_of_ne r _ hOther, fp_transfer_read,
        Table.get_set_self]
      simp
    | succ k =>
      rw [List.getElem_cons_succ, ih _ hBits.2, bus_transfer_read, a_transfer_read, add_image_add]

end Load

end M68kFloat.Exec
