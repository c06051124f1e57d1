import M68kFloat.Proofs.Machine.Frame

/-!
# General operations

A general operation takes a double from its source and operates on the registers of the unit
with it.  Where the source is in memory, the access to the operand changes none of these, so
`general_of_sourced` gives all registers after the operation from those before it.
-/

namespace M68kFloat

/-- An arithmetic operation on the registers of the unit. -/
def UnitRegisters.operate (unit : UnitRegisters) (opmode : Opmode) (destination : RegisterNumber)
    (source : Double) : UnitRegisters :=
  let value := opmode.value (unit.fp.get destination) source
  { unit with
    fp := if opmode.writes then unit.fp.set destination value else unit.fp
    fpsr :=
      if opmode.setsCodes then (ConditionCodes.ofDouble value).replace unit.fpsr else unit.fpsr }

theorem UnitRegisters.get_operate {opmode : Opmode} (h : opmode.writes = true)
    (unit : UnitRegisters) (destination : RegisterNumber) (source : Double) :
    (unit.operate opmode destination source).fp.get destination =
      opmode.value (unit.fp.get destination) source := by
  rw [operate, h]
  exact Table.get_set_self _ _ _

theorem Cpu.unit_operate (cpu : Cpu) (opmode : Opmode) (destination : RegisterNumber)
    (source : Double) :
    (cpu.operate opmode destination source).unit = cpu.unit.operate opmode destination source := by
  cases opmode <;> rfl

namespace Exec

variable {β : Type} [Bus β]

/-- The double that a source holds, if its operand is not refused. -/
def sourced (m : Machine β) : Source RegisterNumber → Option Double
  | .register n => some (m.cpu.fp.get n)
  | .memory format => (readOperand m.cpu.field format.size m).1.toOption.map format.load

theorem sourced_memory_of_route {m : Machine β} {format : Format} {mode : Mode}
    (h : Mode.route? m.cpu.field format.size .read = some mode) :
    sourced m (.memory format) = some (format.load (readThrough format.size mode m).1) := by
  rw [sourced, readOperand, withOperand_of_route h]
  rfl

variable {source : Source RegisterNumber} {m : Machine β}

theorem general_of_route {format : Format} {mode : Mode}
    (h : Mode.route? m.cpu.field format.size .read = some mode) (destination : RegisterNumber)
    (opmode : Opmode) :
    let read := readThrough format.size mode m
    general (.memory format) destination opmode m =
      (.ok (), { read.2 with
        cpu := read.2.cpu.operate opmode destination (format.load read.1) }) := by
  rw [general, bind_apply, getCpu_apply]
  dsimp only
  rw [withOperand_of_route h]
  rfl

/-- A general operation with a source is carried out. -/
theorem general_of_sourced {value : Double} (h : sourced m source = some value)
    (destination : RegisterNumber) (opmode : Opmode) :
    (general source destination opmode m).1 = .ok () ∧
      (general source destination opmode m).2.cpu.unit =
        m.cpu.unit.operate opmode destination value := by
  cases source with
  | register n =>
    obtain rfl : m.cpu.fp.get n = value := Option.some.inj h
    exact ⟨rfl, Cpu.unit_operate _ _ _ _⟩
  | memory format =>
    cases hRoute : Mode.route? m.cpu.field format.size .read with
    | none =>
      rw [sourced, readOperand, withOperand_of_refused hRoute] at h
      cases h
    | some mode =>
      obtain rfl := Option.some.inj ((sourced_memory_of_route hRoute).symm.trans h)
      have hKept := keeps_readThrough Cpu.apart_unit format.size mode m
      rw [general_of_route hRoute, ← hKept]
      exact ⟨rfl, Cpu.unit_operate _ _ _ _⟩

theorem exists_sourced_of_ok {destination : RegisterNumber} {opmode : Opmode}
    (h : (general source destination opmode m).1 = .ok ()) :
    ∃ value, sourced m source = some value := by
  cases source with
  | register n => exact ⟨_, rfl⟩
  | memory format =>
    rw [general, bind_apply, getCpu_apply] at h
    dsimp only at h
    cases hRoute : Mode.route? m.cpu.field format.size .read with
    | none =>
      rw [withOperand_of_refused hRoute] at h
      cases h
    | some mode => exact ⟨_, sourced_memory_of_route hRoute⟩

end Exec

end M68kFloat
