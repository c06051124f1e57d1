import M68kFloat.Proofs.Machine.Indistinct

/-!
# The control state does not interfere

The control register, the instruction address, the table of costs and the clock are kept for the
guest and the host.  Nothing that the unit does depends on them: `control_does_not_interfere`
runs two machines that may differ in them, and they do the same as long as the guest puts neither
register down where it could look at it.
-/

namespace M68kFloat

/-- Two processors that may differ in the control register, the instruction address, the costs
and the clock. -/
structure Cpu.SameButControl (c c' : Cpu) : Prop where
  d : c.d = c'.d
  a : c.a = c'.a
  fp : c.fp = c'.fp
  pc : c.pc = c'.pc
  fpsr : c.fpsr = c'.fpsr
  ir : c.ir = c'.ir
  start : c.start = c'.start

structure Machine.SameButControl {β : Type} (m m' : Machine β) : Prop where
  cpu : m.cpu.SameButControl m'.cpu
  bus : m.bus = m'.bus

/-- The two transitions have the same result, make the same calls on the bus and end at the same
machine but for its control state. -/
structure Transition.SameButControl {β : Type} [Bus β] (t t' : Transition β) : Prop where
  result : t.result = t'.result
  calls : ∃ calls, t.after.calls = t.before.calls ++ calls ∧
    t'.after.calls = t'.before.calls ++ calls
  after : t.after.SameButControl t'.after

/-! ### The observer who does not see the control state -/

/-- He sees all addresses. -/
def Observer.guest : Observer where
  Near := Eq
  SeesControl := False
  near_refl _ := rfl
  near_add h h' := congrArg₂ (· + ·) h h'
  near_shift n := congrArg (· <<< n)
  low := congrArg (BitVec.setWidth 16)

namespace Observer

variable {β : Type}

/-- Every bus does the same at the same address. -/
theorem serves_guest [Bus β] : guest.Serves β where
  readByte h bus := congrArg (Bus.readByte · bus) h
  readWord h bus := congrArg (Bus.readWord · bus) h
  readLong h bus := congrArg (Bus.readLong · bus) h
  writeByte h value bus := congrArg (Bus.writeByte · value bus) h
  writeWord h value bus := congrArg (Bus.writeWord · value bus) h
  writeLong h value bus := congrArg (Bus.writeLong · value bus) h

theorem alike_guest {m m' : Machine β} : guest.Alike m m' ↔ m.SameButControl m' := by
  constructor
  · rintro ⟨hCpu, hBus⟩
    exact ⟨⟨hCpu.d, Table.ext hCpu.a, hCpu.fp, hCpu.pc, hCpu.fpsr, hCpu.ir, hCpu.start⟩, hBus⟩
  · rintro ⟨hCpu, hBus⟩
    exact ⟨⟨hCpu.d, hCpu.fp, hCpu.fpsr, hCpu.ir, fun n => congrArg (Table.get · n) hCpu.a, hCpu.pc,
      hCpu.start, False.elim⟩, hBus⟩

theorem eq_of_resultAlike {α : Type} {result result' : Except Fault α}
    (h : guest.ResultAlike Eq result result') : result = result' := by
  rcases h with ⟨rfl⟩ | @⟨⟨cause, pc⟩, ⟨cause', pc'⟩, hCause, hPc⟩
  · rfl
  · obtain rfl : cause = cause' := hCause
    obtain rfl : pc = pc' := hPc
    rfl

theorem eq_of_callAlike {call call' : BusCall} (h : guest.CallAlike call call') : call = call' := by
  rcases h with ⟨⟨⟩⟩ | ⟨⟨⟩⟩ | _ <;> rfl

theorem sameButControl_of_alike [Bus β] {t t' : Transition β} (h : guest.TransitionAlike t t') :
    t.SameButControl t' := by
  refine ⟨eq_of_resultAlike h.result, ?_, alike_guest.mp h.after⟩
  obtain ⟨calls, calls', hCalls, hCalls', hAlike⟩ := h.calls
  have hSame : List.Forall₂ Eq calls calls' := hAlike.imp fun _ _ => eq_of_callAlike
  rw [List.forall₂_eq_eq_eq] at hSame
  subst hSame
  exact ⟨calls, hCalls, hCalls'⟩

end Observer

/-- **The control state does not interfere.**  On any bus, take two machines that may differ in
the control register, the instruction address, the costs and the clock.  In a run that puts
neither of the two registers down they have the same results and make the same calls in every
turn, and after it they are again the same but for the control state. -/
theorem control_does_not_interfere {β : Type} [Bus β] {m m' : Machine β} {turns : List (Turn β)}
    (hSame : m.SameButControl m')
    (hStores : ∀ t ∈ m.history turns, t.operation? ≠ some (.control .write .fpcr) ∧
      t.operation? ≠ some (.control .write .fpiar)) :
    List.Forall₂ Transition.SameButControl (m.history turns) (m'.history turns) := by
  have hHidden : ∀ t ∈ m.history turns, ∀ op, t.operation? = some op →
      Observer.guest.SeesControl ∨ op.reveals = false := by
    intro t ht op hOp
    obtain ⟨hFpcr, hFpiar⟩ := hStores t ht
    refine Or.inr (Operation.reveals_eq_false ?_ ?_)
    · rintro rfl
      exact hFpcr hOp
    · rintro rfl
      exact hFpiar hOp
  exact (Machine.alike_history Observer.serves_guest (Observer.alike_guest.mpr hSame) hHidden).imp
    fun _ _ => Observer.sameButControl_of_alike

/-- A sum, a load of the control register, a refused store of it, a store of the status register
and a branch. -/
def computesUntimed : Machine Ram :=
  .begun 0 [0xF200, 0x0022, 0xF200, 0x9000, 0xF23C, 0xB000, 0xF201, 0xA800, 0xF28F, 0x0002]

/-- The same in another mode, where sums are free, and later. -/
def computesTimed : Machine Ram :=
  { computesUntimed with
    cpu := { computesUntimed.cpu with
      fpcr := 0x30
      fpiar := 0x1234
      cycles := 99
      costs := { Costs.m68040 with add := 0 } } }

def computesTurns : List (Turn Ram) := List.replicate 5 ⟨id, .general⟩

theorem control_does_not_interfere_clocks :
    (computesUntimed.history computesTurns).map (fun t => t.result.isOk) =
      [true, true, false, true, true] ∧
    (computesUntimed.final computesTurns).cpu.cycles = 9 + 10 + 10 + 7 ∧
    (computesTimed.final computesTurns).cpu.cycles = 99 + 10 + 10 + 7 ∧
    List.Forall₂ Transition.SameButControl (computesUntimed.history computesTurns)
      (computesTimed.history computesTurns) := by
  have hStores : ∀ t ∈ computesUntimed.history computesTurns,
      t.operation? ≠ some (.control .write .fpcr) ∧
        t.operation? ≠ some (.control .write .fpiar) := by
    decide +kernel
  have hSame : computesUntimed.SameButControl computesTimed :=
    ⟨⟨rfl, rfl, rfl, rfl, rfl, rfl, rfl⟩, rfl⟩
  exact ⟨by decide +kernel, by decide +kernel, by decide +kernel,
    control_does_not_interfere hSame hStores⟩

end M68kFloat
