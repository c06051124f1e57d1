import Mathlib.Data.List.OfFn
import M68kFloat.Proofs.RegisterList.Transfer

/-!
# Saving and restoring registers

A store through `-(An)` puts the registers of its list down from the lowest bit to the
highest, and a load through `(An)+` takes them up again.  So the last register stored is
the first one loaded, and since the load counts the registers from the other end, it fills
the register that is as far from the top as the bit is from the bottom.

`restore_after_save` says what a load finds after a store with as many registers.  The two
lists need not have anything else to do with each other, and between the two instructions
everything may change but the address register and the bytes stored.  Where the second list
is the first one reversed, every register comes back.
-/

namespace M68kFloat

open Memory Exec

/-- `bits` are the set bits of a register list, the lowest first. -/
structure Enumerates {n : Nat} (bits : Fin n → RegisterNumber) (list : Byte) : Prop where
  ascending : ∀ ⦃i j⦄, i < j → bits i < bits j
  set_iff : ∀ r : RegisterNumber, list.getLsbD r.toNat = true ↔ ∃ i, bits i = r

/-- The instruction that has begun moves a register list through a mode: its class has an
extension word, the word says so, and the field of the opcode names the mode. -/
structure Machine.BegunMultiple (m : Machine Ram) (access : Access) (list : Byte) (mode : Mode) :
    Prop where
  opcode : m.cpu.ir.extractLsb' 6 2 = 0
  extension : Operation.ofExtension (m.bus.memory.peekWord m.cpu.pc) =
    .ok (.multiple access list)
  field : Mode.ofField? m.cpu.field = some mode

/-! ### The bits of a list -/

theorem mem_listed (list : Byte) (r : RegisterNumber) :
    r ∈ listed list ↔ list.getLsbD r.toNat = true := by
  have hAll : ∀ r : RegisterNumber, r ∈ ([0, 1, 2, 3, 4, 5, 6, 7] : List RegisterNumber) := by
    decide
  simp only [listed, List.mem_filter, hAll, true_and]

theorem pairwise_listed (list : Byte) : (listed list).Pairwise (· < ·) :=
  List.Pairwise.filter _ (by decide)

theorem nodup_listed (list : Byte) : (listed list).Nodup :=
  (pairwise_listed list).imp fun h => BitVec.ne_of_lt h

theorem length_listed_le (list : Byte) : (listed list).length ≤ 8 :=
  List.length_filter_le _ _

/-- The loops visit the set bits in ascending order, which is the only order of that kind. -/
theorem listed_eq_of_pairwise {list : Byte} {bits : List RegisterNumber}
    (hSorted : bits.Pairwise (· < ·)) (hBits : ∀ r, r ∈ bits ↔ list.getLsbD r.toNat = true) :
    listed list = bits := by
  have hNodup : bits.Nodup := hSorted.imp fun h => BitVec.ne_of_lt h
  have hSame : (listed list).Perm bits := by
    refine (List.perm_ext_iff_of_nodup (nodup_listed list) hNodup).mpr fun r => ?_
    rw [mem_listed, hBits]
  refine hSame.eq_of_pairwise ?_ (pairwise_listed list) hSorted
  intro a b _ _ hab hba
  exact absurd hab (BitVec.lt_asymm hba)

theorem listed_eq_ofFn {n : Nat} {bits : Fin n → RegisterNumber} {list : Byte}
    (h : Enumerates bits list) : listed list = List.ofFn bits := by
  refine listed_eq_of_pairwise (List.pairwise_ofFn.mpr h.ascending) fun r => ?_
  rw [h.set_iff, List.mem_ofFn]

/-- The set bits can be counted in one way only. -/
theorem Enumerates.unique {n : Nat} {bits bits' : Fin n → RegisterNumber} {list : Byte}
    (h : Enumerates bits list) (h' : Enumerates bits' list) : bits = bits' :=
  List.ofFn_injective ((listed_eq_ofFn h).symm.trans (listed_eq_ofFn h'))

/-- The bits of the reversed list, counted from the other end. -/
theorem Enumerates.reverse {n : Nat} {bits : Fin n → RegisterNumber} {list : Byte}
    (h : Enumerates bits list.reverse) : Enumerates (fun i => 7 - bits i.rev) list where
  ascending i j hij := by
    have hBits : bits j.rev < bits i.rev := h.ascending (Fin.rev_lt_rev.mpr hij)
    show (7 : RegisterNumber) - bits i.rev < 7 - bits j.rev
    bv_omega
  set_iff r := by
    have hBit : list.reverse.getLsbD (7 - r).toNat = list.getLsbD r.toNat := by
      have hNumber : 7 - (7 - r).toNat = r.toNat := by bv_omega
      have hSize : (7 - r).toNat < 8 := by bv_omega
      rw [BitVec.getLsbD_reverse, BitVec.getMsbD_eq_getLsbD, decide_eq_true hSize, Bool.true_and]
      exact congrArg _ hNumber
    rw [← hBit, h.set_iff]
    constructor
    · rintro ⟨i, hi⟩
      refine ⟨i.rev, ?_⟩
      rw [Fin.rev_rev, hi]
      bv_omega
    · rintro ⟨i, hi⟩
      refine ⟨i.rev, ?_⟩
      rw [← hi]
      bv_omega

/-! ### The instructions -/

/-- A multiple move through a mode that is allowed succeeds, and does to the processor and
to the bus what the loop does. -/
theorem generalGroup_multiple {m : Machine Ram} {access : Access} {list : Byte} {mode : Mode}
    (h : m.BegunMultiple access list mode) (hAllowed : mode.allows .extended access = true) :
    let moved := (transferAll access mode (listed list) (decoded m (.multiple access list))).2
    (generalGroup m).1 = .ok () ∧ (generalGroup m).2.cpu = moved.cpu ∧
      (generalGroup m).2.bus = moved.bus := by
  have hRoute : Mode.route? (decoded m (.multiple access list)).cpu.field .extended access =
      some mode := route_eq_some.mpr ⟨h.field, hAllowed⟩
  have hMultiple := multiple_of_route hRoute list
  have hGroup := generalGroup_of_operation h.opcode h.extension (congrArg Prod.fst hMultiple)
  rw [hGroup]
  rw [operation, hMultiple]
  exact ⟨rfl, rfl, rfl⟩

section

variable {n : Nat} {saved loaded : Byte} {s l : Fin n → RegisterNumber}

/-- The image of the `k`-th register saved. -/
theorem reads_after_save {m : Machine Ram} {r : RegisterNumber}
    (hSave : m.BegunMultiple .write saved (.predecrement r)) (hSaved : Enumerates s saved)
    (k : Fin n) :
    Reads (generalGroup m).2.bus.memory (m.cpu.a.get r - BitVec.ofNat 32 (12 * (k + 1))) 12
      ((m.cpu.fp.get (s k)).bits ++ (0 : Long)) := by
  obtain ⟨-, -, hBus⟩ := generalGroup_multiple hSave rfl
  have hList := listed_eq_ofFn hSaved
  have hLength := length_listed_le saved
  rw [hList, List.length_ofFn] at hLength
  have hIndex : k < (List.ofFn s).length := by rw [List.length_ofFn]; exact k.isLt
  rw [hBus, hList]
  have h := reads_transferAll_write r (decoded m (.multiple .write saved))
    (show 12 * (List.ofFn s).length ≤ 2 ^ 24 by rw [List.length_ofFn]; omega) hIndex
  rwa [List.getElem_ofFn] at h

theorem a_after_save {m : Machine Ram} {r : RegisterNumber}
    (hSave : m.BegunMultiple .write saved (.predecrement r)) (hSaved : Enumerates s saved) :
    (generalGroup m).2.cpu.a.get r = m.cpu.a.get r - BitVec.ofNat 32 (12 * n) := by
  obtain ⟨-, hCpu, -⟩ := generalGroup_multiple hSave rfl
  rw [hCpu, cpu_transferAll_write, listed_eq_ofFn hSaved, List.length_ofFn]
  exact Table.get_set_self _ _ _

/-- The `k`-th double from the bottom of the images, in any machine that has kept them and
the address register, is the `k`-th register from the end of the list. -/
theorem operand_after_save {m m' : Machine Ram} {r : RegisterNumber}
    (hSave : m.BegunMultiple .write saved (.predecrement r)) (hSaved : Enumerates s saved)
    (hAddress : m'.cpu.a.get r = m.cpu.a.get r - BitVec.ofNat 32 (12 * n))
    (hBytes : ∀ b, Within (m.cpu.a.get r - BitVec.ofNat 32 (12 * n)) (12 * n) b →
      m'.bus.memory.peek b = (generalGroup m).2.bus.memory.peek b) (k : Fin n) :
    m'.bus.memory.operand (m'.cpu.a.get r + BitVec.ofNat 32 (12 * k)) .extended =
      (m.cpu.fp.get (s k.rev)).bits := by
  have hCount : n ≤ 8 := by
    have h := length_listed_le saved
    rwa [listed_eq_ofFn hSaved, List.length_ofFn] at h
  have hSplit : 12 * n = 12 * (k.rev + 1) + 12 * k := by rw [Fin.val_rev]; omega
  have hPlace : m.cpu.a.get r - BitVec.ofNat 32 (12 * n) + BitVec.ofNat 32 (12 * k) =
      m.cpu.a.get r - BitVec.ofNat 32 (12 * (k.rev + 1)) := by
    rw [hSplit, BitVec.ofNat_add, ← BitVec.sub_sub, BitVec.sub_add_cancel]
  have hImage := (reads_after_save hSave hSaved k.rev).of_append (n := 8) (k := 4)
  rw [hAddress, hPlace]
  refine operand_extended_of_reads (hImage.congr (by decide) fun b hb => hBytes b ?_)
  -- the image lies among the bytes that have been kept
  simp only [Within, distance_sub_left] at hb ⊢
  omega

/-- **Registers come back after a save.**  A store of `n` registers through `-(An)` is
followed by a load of `n` registers through `(An)+`, from any machine with the same address
register and the same `12 n` bytes below the first one.  Both succeed; the register of the
`k`-th bit of the second list gets the pattern of the register of the `k`-th bit from the
end of the first, no other register changes, and the address register is where it was.
With the reversed list all saved registers are restored. -/
theorem restore_after_save {m m' : Machine Ram} {r : RegisterNumber}
    (hSave : m.BegunMultiple .write saved (.predecrement r)) (hSaved : Enumerates s saved)
    (hLoad : m'.BegunMultiple .read loaded (.postincrement r)) (hLoaded : Enumerates l loaded)
    (hAddress : m'.cpu.a.get r = (generalGroup m).2.cpu.a.get r)
    (hBytes : ∀ b, Within (m.cpu.a.get r - BitVec.ofNat 32 (12 * n)) (12 * n) b →
      m'.bus.memory.peek b = (generalGroup m).2.bus.memory.peek b) :
    (generalGroup m).1 = .ok () ∧ (generalGroup m').1 = .ok () ∧
      (∀ k : Fin n, (generalGroup m').2.cpu.fp.get (7 - l k) = m.cpu.fp.get (s k.rev)) ∧
      (∀ f, (∀ k, f ≠ 7 - l k) →
        (generalGroup m').2.cpu.fp.get f = m'.cpu.fp.get f) ∧
      (generalGroup m').2.cpu.a.get r = m.cpu.a.get r ∧
      (loaded = saved.reverse → ∀ f : RegisterNumber, saved.getLsbD f.toNat = true →
        (generalGroup m').2.cpu.fp.get f = m.cpu.fp.get f) := by
  obtain ⟨hSaveOk, -, -⟩ := generalGroup_multiple hSave rfl
  obtain ⟨hLoadOk, hCpu, -⟩ := generalGroup_multiple hLoad rfl
  have hNodup := nodup_listed loaded
  rw [listed_eq_ofFn hLoaded] at hCpu hNodup
  rw [a_after_save hSave hSaved] at hAddress
  have hFilled : ∀ k : Fin n,
      (generalGroup m').2.cpu.fp.get (7 - l k) = m.cpu.fp.get (s k.rev) := by
    intro k
    have h := fp_transferAll_read r (decoded m' (.multiple .read loaded)) hNodup (k := k)
      (by rw [List.length_ofFn]; exact k.isLt)
    rw [List.getElem_ofFn] at h
    rw [hCpu]
    refine h.trans ?_
    exact congrArg _ (operand_after_save hSave hSaved hAddress hBytes k)
  refine ⟨hSaveOk, hLoadOk, hFilled, ?_, ?_, ?_⟩
  · intro f hf
    rw [hCpu]
    refine fp_transferAll_read_of_ne r (decoded m' (.multiple .read loaded)) fun bit hBit => ?_
    obtain ⟨k, rfl⟩ := List.mem_ofFn.mp hBit
    exact hf k
  · rw [hCpu, a_transferAll_read, List.length_ofFn]
    show m'.cpu.a.get r + _ = _
    rw [hAddress, BitVec.sub_add_cancel]
  · rintro rfl f hf
    obtain ⟨k, rfl⟩ := (hSaved.set_iff f).mp hf
    have hNumber : 7 - l k.rev = s k := congrFun (hLoaded.reverse.unique hSaved) k
    have h := hFilled k.rev
    rwa [hNumber, Fin.rev_rev] at h

end

/-- FP0, a signalling NaN, and FP2 about to be saved below address 8. -/
def savesTwo : Machine Ram :=
  let m := Machine.begun 0xF227 [0xE005, 0xF21F, 0xD0A0]
  { m with cpu := ((m.cpu.setA 7 8).setFp 0 ⟨0x7FF0000000000001⟩).setFp 2 ⟨0xBFF0000000000000⟩ }

/-- The load that follows, with all registers cleared. -/
def restoresTwo : Machine Ram :=
  { (generalGroup savesTwo).2 with
    cpu := { (generalGroup savesTwo).2.cpu with
      fp := .fill .zero 3, pc := 0x1006, ir := 0xF21F, start := 0x1004 } }

/-- The images wrap around the memory, and both registers come back. -/
theorem restore_after_save_two :
    (generalGroup savesTwo).1 = .ok () ∧ (generalGroup restoresTwo).1 = .ok () ∧
      (generalGroup restoresTwo).2.cpu.fp.get 0 = ⟨0x7FF0000000000001⟩ ∧
      (generalGroup restoresTwo).2.cpu.fp.get 2 = ⟨0xBFF0000000000000⟩ ∧
      (generalGroup restoresTwo).2.cpu.a.get 7 = 8 := by
  have hSaved : Enumerates ([0, 2] : List RegisterNumber).get 0x05 := ⟨by decide, by decide⟩
  have hLoaded : Enumerates ([5, 7] : List RegisterNumber).get 0xA0 := ⟨by decide, by decide⟩
  have hSave : savesTwo.BegunMultiple .write 0x05 (.predecrement 7) := ⟨rfl, rfl, rfl⟩
  have hLoad : restoresTwo.BegunMultiple .read 0xA0 (.postincrement 7) :=
    ⟨rfl, by decide +kernel, rfl⟩
  obtain ⟨hSaveOk, hLoadOk, -, -, hAddress, hReverse⟩ :=
    restore_after_save hSave hSaved hLoad hLoaded (by dsimp only [restoresTwo])
      (by dsimp only [restoresTwo]; exact fun _ _ => rfl)
  exact ⟨hSaveOk, hLoadOk, hReverse (by decide) 0 (by decide), hReverse (by decide) 2 (by decide),
    hAddress⟩

end M68kFloat
