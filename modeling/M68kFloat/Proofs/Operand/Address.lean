import M68kFloat.Proofs.Operand.Access
import M68kFloat.Proofs.Operand.Copy

/-!
# Operands found in memory

Where a mode leads to memory, the address is all that an access takes from it: a read gives the
operand that lies there (`readOperand_at`) and a write puts one there (`writeOperand_at`), the
words of the mode have been passed, and an address register may have been stepped.  Extended
images are accessed in the same way.

`Machine.LeadsTo` puts this together for a mode, so two modes that find the same address give the
same operand as soon as the two memories agree on its bytes.
-/

namespace M68kFloat

open Memory

/-- The processors agree in all but the program counter. -/
def Cpu.AgreeButPc (cpu cpu' : Cpu) : Prop := cpu' = { cpu with pc := cpu'.pc }

theorem Cpu.AgreeButPc.refl (cpu : Cpu) : cpu.AgreeButPc cpu := rfl

theorem Cpu.AgreeButPc.a {cpu cpu' : Cpu} (h : cpu.AgreeButPc cpu') : cpu'.a = cpu.a := by
  rw [h]

theorem Cpu.AgreeButPc.advance {cpu cpu' : Cpu} (h : cpu.AgreeButPc cpu') (bytes bytes' : Long) :
    (cpu.advance bytes).AgreeButPc (cpu'.advance bytes') := by
  rw [AgreeButPc, h]
  rfl

@[simp] theorem Cpu.a_setA_self (cpu : Cpu) (n : RegisterNumber) (value : Long) :
    (cpu.setA n value).a.get n = value := Table.get_set_self ..

/-- The processor after an access through a mode to an operand in memory. -/
def Machine.cpuThrough (m : Machine Ram) (mode : Mode) (size : Size) : Cpu :=
  Cpu.advance { m.cpu with a := mode.stepped size.bytes m.cpu.a }
    (BitVec.ofNat 32 (mode.streamBytes size m.nextWord))

namespace Exec

variable {m : Machine Ram} {field : Byte} {mode : Mode} {size : Size} {a : Long}

/-- Finding an operand leaves the bus alone. -/
theorem bus_locate (mode : Mode) (size : Size) (m : Machine Ram) :
    (locate mode size m).2.bus = m.bus := by
  rcases locate_cases mode size m with hSame | ⟨_, _, hBus⟩
  · rw [hSame]
  · exact hBus

/-- A mode that leads to memory has by then taken its words and its step. -/
theorem cpu_locate (hPlace : (locate mode size m).1 = .memory a) :
    (locate mode size m).2.cpu = m.cpuThrough mode size := by
  have hMode : mode ≠ .immediate := by
    rintro rfl
    cases hPlace
  exact (locate_found hMode size m).1

theorem readOperand_at (hRoute : Mode.route? field size .read = some mode)
    (hPlace : (locate mode size m).1 = .memory a) :
    (readOperand field size m).1 = .ok (m.bus.memory.operand a size) ∧
      (readOperand field size m).2.cpu = m.cpuThrough mode size ∧
      (readOperand field size m).2.bus = m.bus := by
  rw [readOperand, withOperand_of_route hRoute, map_apply, readThrough, bind_apply, hPlace,
    readPlace, readMemory_apply]
  exact ⟨by rw [bus_locate], cpu_locate hPlace, bus_locate mode size m⟩

theorem writeOperand_at (hRoute : Mode.route? field size .write = some mode)
    (hPlace : (locate mode size m).1 = .memory a) (value : Quad) :
    (writeOperand field size value m).1 = .ok () ∧
      (writeOperand field size value m).2.cpu = m.cpuThrough mode size ∧
      (writeOperand field size value m).2.bus = m.bus.modify (·.putOperand a size value) := by
  rw [writeOperand, withOperand_of_route hRoute, map_apply, writeThrough, bind_apply, hPlace,
    writePlace, writeMemory_apply]
  exact ⟨rfl, cpu_locate hPlace, by rw [bus_locate]⟩

theorem readExtended_at (hRoute : Mode.route? field .extended .read = some mode)
    (hPlace : (locate mode .extended m).1 = .memory a) :
    (readExtended field m).1 = .ok ⟨m.bus.memory.operand a .extended⟩ ∧
      (readExtended field m).2.cpu = m.cpuThrough mode .extended ∧
      (readExtended field m).2.bus = m.bus := by
  rw [readExtended, withOperand_of_route hRoute, map_apply, readExtendedThrough, bind_apply, hPlace,
    bind_apply, bind_apply, readPlace, readMemory_apply]
  exact ⟨by rw [say_apply, bus_locate]; rfl, cpu_locate hPlace, bus_locate mode .extended m⟩

theorem writeExtended_at (hRoute : Mode.route? field .extended .write = some mode)
    (hPlace : (locate mode .extended m).1 = .memory a) (value : Double) :
    (writeExtended field value m).1 = .ok () ∧
      (writeExtended field value m).2.cpu = m.cpuThrough mode .extended ∧
      (writeExtended field value m).2.bus =
        m.bus.modify (·.putOperand a .extended value.bits) := by
  rw [writeExtended, withOperand_of_route hRoute, map_apply, writeExtendedThrough, bind_apply,
    hPlace, bind_apply, writePlace, writeMemory_apply, say_apply, ← bus_locate mode .extended m]
  have hCpu := cpu_locate hPlace
  exact ⟨rfl, hCpu, rfl⟩

end Exec

/-- A mode leads to an address: an operand of the size is read from there and put there. -/
structure Machine.LeadsTo (m : Machine Ram) (mode : Mode) (size : Size) (a : Long) : Prop where
  place : (Exec.locate mode size m).1 = .memory a
  cpu : (Exec.locate mode size m).2.cpu = m.cpuThrough mode size
  bus : (Exec.locate mode size m).2.bus = m.bus
  read : ∀ field, Mode.route? field size .read = some mode →
    (Exec.readOperand field size m).1 = .ok (m.bus.memory.operand a size) ∧
      (Exec.readOperand field size m).2.cpu = m.cpuThrough mode size ∧
      (Exec.readOperand field size m).2.bus = m.bus
  write : ∀ field value, Mode.route? field size .write = some mode →
    (Exec.writeOperand field size value m).1 = .ok () ∧
      (Exec.writeOperand field size value m).2.cpu = m.cpuThrough mode size ∧
      (Exec.writeOperand field size value m).2.bus = m.bus.modify (·.putOperand a size value)

theorem Machine.leadsTo_of_place {m : Machine Ram} {mode : Mode} {size : Size} {a : Long}
    (hPlace : (Exec.locate mode size m).1 = .memory a) : m.LeadsTo mode size a where
  place := hPlace
  cpu := Exec.cpu_locate hPlace
  bus := Exec.bus_locate mode size m
  read _ hRoute := Exec.readOperand_at hRoute hPlace
  write _ value hRoute := Exec.writeOperand_at hRoute hPlace value

end M68kFloat
