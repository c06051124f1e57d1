import M68kFloat.Proofs.Machine.Execution

/-!
# Cycles over runs

`Instruction.cost` is what the table of costs says about an instruction.  An accepted
instruction adds exactly this to the clock (`cycles_of_ok`) and a refused one nothing, and the
table is the same all the time, so the clock at the end of a run is told by the instructions
that were accepted in it.
-/

namespace M68kFloat

variable {β : Type} [Bus β]

namespace Instruction

/-- What an instruction costs.  A register list costs as much for each of its registers, and the
moves of state frames are free. -/
def cost (costs : Costs) : Instruction → Nat
  | operation (.general _ _ opmode) => (opmode.cost costs).toNat
  | operation (.store _ _) => costs.store.toNat
  | operation (.control _ _) => costs.control.toNat
  | operation (.multiple _ list) => list.cpop.toNat * costs.multiple.toNat
  | branch _ _ => costs.branch.toNat
  | saveFrame | restoreFrame => 0

/-- The cost of an instruction is the cost of its moves. -/
theorem sum_moves (ins : Instruction) (costs : Costs) :
    (ins.moves.map fun move => (move.cost costs).toNat).sum = ins.cost costs := by
  have hSingle (cost : Nat) : [cost].sum = cost := List.sum_singleton
  cases ins with
  | operation op =>
    cases op with
    | general source destination opmode => cases source <;> exact hSingle _
    | store source format => exact hSingle _
    | control access register => cases access <;> exact hSingle _
    | multiple access list =>
      have hEach : (fun bit => ((Move.register access bit).cost costs).toNat) =
          fun _ => costs.multiple.toNat := by
        cases access <;> rfl
      rw [moves, Operation.moves, List.map_map, Function.comp_def, hEach, List.map_const',
        length_listed, List.sum_replicate_nat]
      rfl
  | branch condition form => exact hSingle _
  | saveFrame => rfl
  | restoreFrame => rfl

end Instruction

/-- **An accepted instruction adds its cost to the clock.** -/
theorem Machine.cycles_of_ok {m : Machine β} {group : Group} (h : (group.execute m).1 = .ok ()) :
    ∃ ins, m.accepted? group = some ins ∧ (group.execute m).2.cpu.costs = m.cpu.costs ∧
      (group.execute m).2.cpu.cycles = m.cpu.cycles + BitVec.ofNat 64 (ins.cost m.cpu.costs) := by
  obtain ⟨ins, values, hAccepted, hExecuted⟩ := exists_accepted? h
  obtain ⟨stream, hPrepares⟩ := ins.exists_prepares m
  obtain ⟨-, -, hCosts⟩ := hExecuted.performed.kept
  have hCycles := hExecuted.performed.cycles
  rw [ins.sum_moves, hPrepares.cpu] at hCycles
  exact ⟨ins, hAccepted, hCosts.trans hPrepares.kept.2.2, hCycles⟩

theorem Machine.cycles_of_error {m : Machine β} {group : Group} {fault : Fault}
    (h : (group.execute m).1 = .error fault) :
    (group.execute m).2.cpu.costs = m.cpu.costs ∧
      (group.execute m).2.cpu.cycles = m.cpu.cycles := by
  rcases group.left_of_error h with hSame | hFetched
  · rw [hSame.cpu]
    exact ⟨rfl, rfl⟩
  · rw [hFetched.cpu]
    exact ⟨rfl, rfl⟩

/-! ### Runs -/

namespace Transition

/-- What a transition costs by a table: the cost of its instruction, and nothing if that is
refused. -/
def cost (costs : Costs) (t : Transition β) : Nat :=
  (t.begun.accepted? t.turn.group).elim 0 fun ins => ins.cost costs

theorem cycles_after (t : Transition β) :
    t.after.cpu.costs = t.before.cpu.costs ∧
      t.after.cpu.cycles =
        t.before.cpu.cycles + BitVec.ofNat 64 (t.cost t.before.cpu.costs) := by
  have hBegun : t.begun.cpu.costs = t.before.cpu.costs ∧
      t.begun.cpu.cycles = t.before.cpu.cycles := ⟨rfl, rfl⟩
  cases hResult : t.result with
  | ok a =>
    obtain ⟨ins, hAccepted, hCosts, hCycles⟩ := Machine.cycles_of_ok hResult
    rw [hBegun.1] at hCosts hCycles
    rw [hBegun.2] at hCycles
    refine ⟨hCosts, ?_⟩
    rw [cost, hAccepted]
    exact hCycles
  | error fault =>
    obtain ⟨hCosts, hCycles⟩ := Machine.cycles_of_error hResult
    refine ⟨hCosts.trans hBegun.1, ?_⟩
    rw [cost, Machine.accepted?_of_error hResult]
    exact (hCycles.trans hBegun.2).trans (BitVec.add_zero _).symm

end Transition

namespace Machine

/-- The clock at the end of a run, and the table. -/
theorem cycles_final (m : Machine β) (turns : List (Turn β)) :
    (m.final turns).cpu.cycles = m.cpu.cycles +
        BitVec.ofNat 64 ((m.history turns).map (Transition.cost m.cpu.costs)).sum ∧
      (m.final turns).cpu.costs = m.cpu.costs := by
  induction turns generalizing m with
  | nil => exact ⟨(BitVec.add_zero _).symm, rfl⟩
  | cons turn turns ih =>
    obtain ⟨hCosts, hCycles⟩ := (Transition.mk m turn).cycles_after
    obtain ⟨ihCycles, ihCosts⟩ := ih (Transition.mk m turn).after
    rw [hCosts] at ihCycles ihCosts
    rw [hCycles, BitVec.add_assoc, ← BitVec.ofNat_add] at ihCycles
    exact ⟨ihCycles, ihCosts⟩

/-- The clock after a sum that it can hold. -/
theorem toNat_add_ofNat {cycles : Quad} {sum : Nat} (h : cycles.toNat + sum < 2 ^ 64) :
    (cycles + BitVec.ofNat 64 sum).toNat = cycles.toNat + sum := by
  rw [BitVec.toNat_add, BitVec.toNat_ofNat]
  omega

/-- As long as the clock does not overflow, it does not go back. -/
theorem pairwise_reached {m : Machine β} {turns : List (Turn β)}
    (h : m.cpu.cycles.toNat + ((m.history turns).map (Transition.cost m.cpu.costs)).sum < 2 ^ 64) :
    (m.reached turns).Pairwise fun earlier later => earlier.cpu.cycles ≤ later.cpu.cycles := by
  induction turns generalizing m with
  | nil => exact List.pairwise_singleton _ _
  | cons turn turns ih =>
    obtain ⟨hCosts, hCycles⟩ := (Transition.mk m turn).cycles_after
    rw [history, List.map_cons, List.sum_cons] at h
    -- the clock after the first transition is bounded by the one after all of them
    have hNext := toNat_add_ofNat (Nat.lt_of_le_of_lt
      (Nat.add_le_add_left (Nat.le_add_right _ _) _) h)
    rw [← hCycles] at hNext
    have hTotal : (Transition.mk m turn).after.cpu.cycles.toNat +
        (((Transition.mk m turn).after.history turns).map
          (Transition.cost (Transition.mk m turn).after.cpu.costs)).sum < 2 ^ 64 := by
      rw [hCosts, hNext, Nat.add_assoc]
      exact h
    have hRest := ih hTotal
    have hFirst : m.cpu.cycles ≤ (Transition.mk m turn).after.cpu.cycles := by
      rw [BitVec.le_def, hNext]
      exact Nat.le_add_right _ _
    rw [reached_cons, List.pairwise_cons]
    refine ⟨?_, hRest⟩
    intro m' hm
    rw [reached, List.pairwise_cons] at hRest
    rcases List.mem_cons.mp hm with rfl | hm
    · exact hFirst
    · exact BitVec.le_trans hFirst (hRest.1 m' hm)

end Machine

/-- **The clock over runs.**  On any bus, from any machine and with any table of costs: the
transitions of a run that are accepted carry out an instruction, the others none, and the clock
at the end is what it was at the start plus the costs of these instructions.  As long as it does
not overflow, it never goes back. -/
theorem cycles_over_runs (m : Machine β) (turns : List (Turn β)) :
    let total := ((m.history turns).map (Transition.cost m.cpu.costs)).sum
    (∀ t ∈ m.history turns, t.result = .ok () ↔ (t.begun.accepted? t.turn.group).isSome) ∧
    (m.final turns).cpu.cycles = m.cpu.cycles + BitVec.ofNat 64 total ∧
    (total < 2 ^ 64 → ((m.final turns).cpu.cycles - m.cpu.cycles).toNat = total) ∧
    (m.cpu.cycles.toNat + total < 2 ^ 64 →
      (m.final turns).cpu.cycles.toNat = m.cpu.cycles.toNat + total ∧
      (m.reached turns).Pairwise fun earlier later =>
        earlier.cpu.cycles ≤ later.cpu.cycles) := by
  intro total
  obtain ⟨hCycles, -⟩ := m.cycles_final turns
  refine ⟨?_, hCycles, ?_, ?_⟩
  · intro t _
    cases hResult : t.result with
    | ok a =>
      obtain ⟨ins, values, hAccepted, -⟩ := Machine.exists_accepted? hResult
      rw [hAccepted]
      exact iff_of_true rfl rfl
    | error fault =>
      rw [Machine.accepted?_of_error hResult]
      exact iff_of_false nofun nofun
  · intro hTotal
    rw [hCycles, BitVec.add_comm, BitVec.add_sub_cancel, BitVec.toNat_ofNat,
      Nat.mod_eq_of_lt hTotal]
  · intro hTotal
    refine ⟨?_, Machine.pairwise_reached hTotal⟩
    rw [hCycles]
    exact Machine.toNat_add_ofNat hTotal

/-- A sum, a refused instruction, two registers stored, a branch and a frame, where a sum and a
register have other costs than usual. -/
def chargesCustom : Machine Ram :=
  let m := Machine.begun 0 [0xF200, 0x0022, 0xF240, 0xF227, 0xE005, 0xF28F, 0x0002, 0xF350]
  { m with
    cpu := { m.cpu with
      cycles := 5
      costs := { Costs.m68040 with add := 1000, multiple := 0xFFFFFFFF } } }

def chargesCustomTurns : List (Turn Ram) :=
  [⟨id, .general⟩, ⟨id, .general⟩, ⟨id, .general⟩, ⟨id, .general⟩, ⟨id, .frame⟩]

theorem cycles_over_runs_custom :
    (chargesCustom.history chargesCustomTurns).map (Transition.cost chargesCustom.cpu.costs) =
      [1000, 0, 2 * 0xFFFFFFFF, 7, 0] ∧
    (chargesCustom.final chargesCustomTurns).cpu.cycles.toNat = 5 + 1000 + 2 * 0xFFFFFFFF + 7 ∧
    ((chargesCustom.final chargesCustomTurns).cpu.cycles - 5).toNat =
      1000 + 2 * 0xFFFFFFFF + 7 ∧
    (chargesCustom.reached chargesCustomTurns).Pairwise fun earlier later =>
      earlier.cpu.cycles ≤ later.cpu.cycles := by
  have hCosts : (chargesCustom.history chargesCustomTurns).map
      (Transition.cost chargesCustom.cpu.costs) = [1000, 0, 2 * 0xFFFFFFFF, 7, 0] := by
    decide +kernel
  obtain ⟨-, -, hDifference, hClock⟩ := cycles_over_runs chargesCustom chargesCustomTurns
  rw [hCosts] at hDifference hClock
  obtain ⟨hFinal, hPairwise⟩ := hClock (by decide)
  exact ⟨hCosts, hFinal, hDifference (by decide), hPairwise⟩

end M68kFloat
