import Mathlib.Data.List.Forall2
import M68kFloat.Proofs.Binary.Comparison
import M68kFloat.Proofs.Machine.Status

/-!
# NaNs that stay

A register that holds a NaN keeps it under arithmetic.  The four operations with a number, or with
the register itself, and the square root make it quiet and leave the rest of its pattern alone; the
absolute value and the negation only touch its sign.  So the pattern after many operations is told
by the operations (`Cpu.Carries`): the payload is the one from the start, the quiet bit is set from
the first operation on that sets it, and the sign is what the absolute values and negations have
made of it.  The condition codes are those of a NaN with this sign, unless the last operation was a
division, which sets none.

`Double.carried_value` is the step for patterns, `Cpu.Carries.step` for the processor, and
`nan_stays` follows by induction on the run.
-/

namespace M68kFloat

/-! ### What an operation leaves of a NaN -/

namespace Opmode

/-- Whether an operation makes a NaN quiet. -/
def quiets : Opmode → Bool
  | sqrt | div | add | mul | sub => true
  | move | abs | neg | cmp | tst => false

/-- The sign of a NaN after an operation. -/
def signAfter (sign : Bool) : Opmode → Bool
  | abs => false
  | neg => !sign
  | move | sqrt | div | add | mul | sub | cmp | tst => sign

end Opmode

namespace Double

/-- The part of a NaN below its quiet bit. -/
def payload (d : Double) : BitVec 51 := d.bits.setWidth 51

def isQuiet (d : Double) : Bool := d.bits.getLsbD 51

/-- A NaN after an operation: the same one, but for the quiet bit and the sign. -/
structure Carried (opmode : Opmode) (d d' : Double) : Prop where
  nan : d'.isNaN = true
  payload : d'.payload = d.payload
  quiet : d'.isQuiet = (d.isQuiet || opmode.quiets)
  sign : d'.sign = opmode.signAfter d.sign

variable {d : Double}

theorem carried_quiet {opmode : Opmode} (hQuiets : opmode.quiets = true)
    (hSign : opmode.signAfter d.sign = d.sign) (h : d.isNaN = true) : Carried opmode d d.quiet := by
  have hMask : BitVec.setWidth 51 (0x0008000000000000 : Quad) = 0 := by decide
  constructor
  · exact isNaN_quiet h
  · rw [payload, quiet, BitVec.setWidth_or, hMask]
    exact BitVec.or_zero
  · rw [isQuiet, quiet, BitVec.getLsbD_or, hQuiets]
    exact congrArg (d.isQuiet || ·) (by decide)
  · rw [hSign, sign, quiet, BitVec.msb_or]
    exact Bool.or_false _

theorem carried_abs (h : d.isNaN = true) : Carried .abs d d.abs := by
  have hMask : BitVec.setWidth 51 (0x7FFFFFFFFFFFFFFF : Quad) = BitVec.allOnes 51 := by decide
  have hAll : BitVec.setWidth 63 (0x7FFFFFFFFFFFFFFF : Quad) = BitVec.allOnes 63 := by decide
  have hBit : (0x7FFFFFFFFFFFFFFF : Quad).getLsbD 51 = true := by decide
  constructor
  · have hMagnitude : d.abs.magnitude = d.magnitude := by
      rw [magnitude, abs, BitVec.setWidth_and, hAll, BitVec.and_allOnes]
      rfl
    rwa [isNaN, hMagnitude]
  · rw [payload, abs, BitVec.setWidth_and, hMask, BitVec.and_allOnes]
    rfl
  · rw [isQuiet, abs, BitVec.getLsbD_and, hBit, Bool.and_true]
    exact (Bool.or_false _).symm
  · rw [sign, abs, BitVec.msb_and]
    exact Bool.and_false _

theorem carried_neg (h : d.isNaN = true) : Carried .neg d d.neg := by
  have hMask : BitVec.setWidth 51 (0x8000000000000000 : Quad) = 0 := by decide
  have hBit : (0x8000000000000000 : Quad).getLsbD 51 = false := by decide
  constructor
  · rwa [isNaN, magnitude_neg]
  · rw [payload, neg, BitVec.setWidth_xor, hMask]
    exact BitVec.xor_zero
  · rw [isQuiet, neg, BitVec.getLsbD_xor, hBit, Bool.xor_false]
    exact (Bool.or_false _).symm
  · exact sign_neg d

end Double

/-- A source brings no other NaN to a register: it is the register itself, or a number where the
operation has two operands.  What becomes of two different NaNs is not asked here. -/
def Opmode.Admits (opmode : Opmode) (n : RegisterNumber) (source : Source RegisterNumber)
    (value : Double) : Prop :=
  match opmode with
  | add | sub | mul | div => source = .register n ∨ value.isNaN = false
  | sqrt | abs | neg => source = .register n
  | move | cmp | tst => False

/-- **The value of an operation on a NaN is this NaN.** -/
theorem Double.carried_value {opmode : Opmode} {n : RegisterNumber}
    {source : Source RegisterNumber} {d value : Double} (hNaN : d.isNaN = true)
    (hAdmits : opmode.Admits n source value) (hSame : source = .register n → value = d) :
    Carried opmode d (opmode.value d value) := by
  have hPropagate (otherwise : Double) : propagate d value otherwise = d.quiet := if_pos hNaN
  cases opmode with
  | add | sub | mul | div =>
    show Carried _ d (propagate d value _)
    rw [hPropagate]
    exact carried_quiet rfl rfl hNaN
  | sqrt =>
    obtain rfl := hSame hAdmits
    have hRoot : value.sqrt = value.quiet := if_pos hNaN
    show Carried _ value value.sqrt
    rw [hRoot]
    exact carried_quiet rfl rfl hNaN
  | abs =>
    obtain rfl := hSame hAdmits
    exact carried_abs hNaN
  | neg =>
    obtain rfl := hSame hAdmits
    exact carried_neg hNaN
  | move | cmp | tst => exact hAdmits.elim

theorem Opmode.Admits.writes {opmode : Opmode} {n : RegisterNumber}
    {source : Source RegisterNumber} {value : Double} (h : opmode.Admits n source value) :
    opmode.writes = true := by
  cases opmode <;> first | rfl | exact h.elim

theorem Opmode.Admits.setsCodes {opmode : Opmode} {n : RegisterNumber}
    {source : Source RegisterNumber} {value : Double} (h : opmode.Admits n source value)
    (hDiv : opmode ≠ .div) : opmode.setsCodes = true := by
  cases opmode <;> first | rfl | exact h.elim | exact absurd rfl hDiv

theorem ConditionCodes.ofDouble_of_isNaN {d : Double} (h : d.isNaN = true) :
    ofDouble d = ⟨d.sign, false, false, true⟩ := by
  have hGreater : Layout.double.infinity < d.magnitude := of_decide_eq_true h
  have hInfinite : d.isInfinite = false := decide_eq_false (by omega)
  rw [ofDouble, Double.isZero_of_isNaN h, hInfinite, h]

/-! ### Transitions -/

open Exec

variable {β : Type} [Bus β]

namespace Transition

/-- A transition carries out an operation to a register, from a source that brings no other NaN. -/
def Accumulates (n : RegisterNumber) (t : Transition β) (opmode : Opmode) : Prop :=
  ∃ source value, t.operation? = some (.general source n opmode) ∧
    sourced (decoded t.begun (.general source n opmode)) source = some value ∧
    opmode.Admits n source value

/-- The registers of the unit after a transition that accumulates. -/
theorem Accumulates.exists_unit {n : RegisterNumber} {t : Transition β} {opmode : Opmode}
    (h : t.Accumulates n opmode) :
    ∃ source value, opmode.Admits n source value ∧
      (source = .register n → value = t.before.cpu.fp.get n) ∧
      t.after.cpu.unit = t.before.cpu.unit.operate opmode n value := by
  obtain ⟨source, value, hOperation, hSource, hAdmits⟩ := h
  obtain ⟨-, hUnit⟩ := general_of_sourced hSource n opmode
  refine ⟨source, value, hAdmits, ?_, ?_⟩
  · rintro rfl
    exact (Option.some.inj hSource).symm
  · rw [(operation_of_some hOperation).2]
    exact hUnit

end Transition

/-! ### Runs -/

/-- The processor after operations on a register that has held a NaN. -/
structure Cpu.Carries (cpu : Cpu) (n : RegisterNumber) (first : Double) (opmodes : List Opmode) :
    Prop where
  nan : (cpu.fp.get n).isNaN = true
  payload : (cpu.fp.get n).payload = first.payload
  quiet : (cpu.fp.get n).isQuiet = (first.isQuiet || opmodes.any Opmode.quiets)
  sign : (cpu.fp.get n).sign = opmodes.foldl Opmode.signAfter first.sign
  codes : ∀ last, opmodes.getLast? = some last → last ≠ .div →
    cpu.codes = ⟨(cpu.fp.get n).sign, false, false, true⟩

theorem Cpu.carries_nil {cpu : Cpu} {n : RegisterNumber} (h : (cpu.fp.get n).isNaN = true) :
    cpu.Carries n (cpu.fp.get n) [] where
  nan := h
  payload := rfl
  quiet := (Bool.or_false _).symm
  sign := rfl
  codes _ hLast := nomatch hLast

/-- **One more operation.** -/
theorem Cpu.Carries.step {t : Transition β} {n : RegisterNumber} {first : Double}
    {opmodes : List Opmode} {opmode : Opmode} (h : t.before.cpu.Carries n first opmodes)
    (hStep : t.Accumulates n opmode) : t.after.cpu.Carries n first (opmodes ++ [opmode]) := by
  obtain ⟨source, value, hAdmits, hSame, hUnit⟩ := hStep.exists_unit
  have hFp : t.after.cpu.fp.get n = opmode.value (t.before.cpu.fp.get n) value := by
    have hBank : t.after.cpu.fp = (t.before.cpu.unit.operate opmode n value).fp :=
      congrArg UnitRegisters.fp hUnit
    rw [hBank, UnitRegisters.get_operate hAdmits.writes]
    rfl
  have hCarried := Double.carried_value h.nan hAdmits hSame
  rw [← hFp] at hCarried
  constructor
  · exact hCarried.nan
  · rw [hCarried.payload, h.payload]
  · rw [hCarried.quiet, h.quiet, List.any_append, List.any_cons, List.any_nil, Bool.or_false,
      Bool.or_assoc]
  · rw [hCarried.sign, h.sign, List.foldl_append]
    rfl
  · intro last hLast hDiv
    rw [List.getLast?_concat] at hLast
    obtain rfl := Option.some.inj hLast
    have hStatus : t.after.cpu.fpsr = (t.before.cpu.unit.operate opmode n value).fpsr :=
      congrArg UnitRegisters.fpsr hUnit
    have hClass := classifies_operate (hAdmits.setsCodes hDiv) t.before.cpu.unit n value
    rw [Cpu.codes, hStatus, hClass.codes, ← ConditionCodes.ofDouble_of_isNaN hCarried.nan, hFp]
    rfl

theorem Machine.carries_reached {n : RegisterNumber} {first : Double} {turns : List (Turn β)}
    {opmodes done : List Opmode} {m : Machine β} (h : m.cpu.Carries n first done)
    (hRun : List.Forall₂ (Transition.Accumulates n) (m.history turns) opmodes) :
    ∀ (k : ℕ) (m' : Machine β), (m.reached turns)[k]? = some m' →
      m'.cpu.Carries n first (done ++ opmodes.take k) := by
  induction turns generalizing m opmodes done with
  | nil =>
    intro k m' hReached
    cases hRun
    cases k with
    | zero =>
      obtain rfl := Option.some.inj hReached
      rwa [List.take_nil, List.append_nil]
    | succ k => cases hReached
  | cons turn turns ih =>
    intro k m' hReached
    obtain ⟨opmode, opmodes', hStep, hRest, rfl⟩ := List.forall₂_cons_left_iff.mp hRun
    cases k with
    | zero =>
      obtain rfl := Option.some.inj hReached
      rwa [List.take_zero, List.append_nil]
    | succ k =>
      have hLater := ih (h.step hStep) hRest k m' hReached
      rwa [List.append_assoc] at hLater

/-- **A NaN in a register stays that NaN.**  On any bus, let a register hold a NaN and let every
transition of a run carry out one of the seven operations to it: a sum, a difference, a product or a
quotient with itself or with a number, from a register or from an operand of any format, or its own
square root, absolute value or negation.  Then every machine of the run holds the NaN as
`Cpu.Carries` says of the operations so far. -/
theorem nan_stays {m : Machine β} {n : RegisterNumber} {turns : List (Turn β)}
    {opmodes : List Opmode} (hNaN : (m.cpu.fp.get n).isNaN = true)
    (hRun : List.Forall₂ (Transition.Accumulates n) (m.history turns) opmodes) :
    ∀ (k : ℕ) (m' : Machine β), (m.reached turns)[k]? = some m' →
      m'.cpu.Carries n (m.cpu.fp.get n) (opmodes.take k) :=
  Machine.carries_reached (Cpu.carries_nil hNaN) hRun

/-- A signalling NaN in FP1 about to be negated, added to an immediate byte and multiplied by the
infinity in FP0. -/
def negatesSignalling : Machine Ram :=
  let m := Machine.begun 0 [0xF200, 0x049A, 0xF23C, 0x58A2, 0x0005, 0xF200, 0x00A3]
  { m with cpu := (m.cpu.setFp 0 (.infinity false)).setFp 1 ⟨0x7FF4000000000123⟩ }

def negatesSignallingTurns : List (Turn Ram) := [⟨id, .general⟩, ⟨id, .general⟩, ⟨id, .general⟩]

theorem nan_stays_signalling :
    (negatesSignalling.reached negatesSignallingTurns).map (fun m => (m.cpu.fp.get 1).bits) =
      [0x7FF4000000000123, 0xFFF4000000000123, 0xFFFC000000000123, 0xFFFC000000000123] ∧
    (negatesSignalling.final negatesSignallingTurns).cpu.Carries 1 ⟨0x7FF4000000000123⟩
      [.neg, .add, .mul] ∧
    (negatesSignalling.final negatesSignallingTurns).cpu.codes = ⟨true, false, false, true⟩ := by
  have hRun : List.Forall₂ (Transition.Accumulates 1)
      (negatesSignalling.history negatesSignallingTurns) [.neg, .add, .mul] := by
    refine .cons ⟨.register 1, ⟨0x7FF4000000000123⟩, ?_, ?_, rfl⟩
      (.cons ⟨.memory .byte, ⟨0x4014000000000000⟩, ?_, ?_, Or.inr ?_⟩
        (.cons ⟨.register 0, .infinity false, ?_, ?_, Or.inr ?_⟩ .nil))
    all_goals decide +kernel
  have hCarries := nan_stays (by decide) hRun 3 (negatesSignalling.final negatesSignallingTurns) rfl
  have hSign : ((negatesSignalling.final negatesSignallingTurns).cpu.fp.get 1).sign = true :=
    hCarries.sign
  have hCodes := hCarries.codes .mul rfl (by decide)
  rw [hSign] at hCodes
  exact ⟨by decide +kernel, hCarries, hCodes⟩

end M68kFloat
