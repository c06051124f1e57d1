import Mathlib.Algebra.GroupWithZero.Nat
import M68kFloat.Proofs.Machine.Instruction

/-!
# Moves made

`Made` says that an operand has been moved and what follows it has been done, and `Performed`
that moves have been made one after the other through one addressing mode.  What a sequence of
moves does to a machine follows by induction: the registers of the unit are those that the moves
make of them (`Performed.unit`), each move has its cost (`Performed.cycles`), and
`Performed.reached` says what happens to the other registers and on the bus.  Only the modes that
step over their operand are used again and again, and these read no words.
-/

namespace M68kFloat

open Machine (Calls Traces Accessed SameButMessages calls_nil)

variable {β : Type} [Bus β]

/-! ### One move -/

/-- The processor that has accessed its operand, if it has one. -/
def Machine.transferred (m : Machine β) (operand? : Option Operand) (value : Quad) : Cpu :=
  match operand? with
  | none => m.cpu
  | some operand =>
    (m.cpu.accessed operand.mode operand.size operand.access value).advance
      (BitVec.ofNat 32 (operand.streamBytes m))

/-- The calls of an operand, if there is one: the words of its mode, a pointer, and its own. -/
def Machine.Reaches (m m' : Machine β) (values : List Quad) : Option Operand → Prop
  | none => Calls m m' []
  | some operand => Traces m m' (operand.streamBytes m) (operand.mode.usesPointer m.nextWord)
      (operand.calls m values)

/-- A move has been made. -/
structure Made (operand? : Option Operand) (move : Move) (value : Quad) (m m' : Machine β) :
    Prop where
  stored : ∀ operand, operand? = some operand → operand.access = .write →
    value = move.stored m.cpu.unit
  cpu : m'.cpu = (m.transferred operand? value).finish move value
  reaches : m.Reaches m' [value] operand?

/-- Moves have been made, one after the other. -/
inductive Performed (operand? : Option Operand) :
    List Move → List Quad → Machine β → Machine β → Prop
  | nil {m m' : Machine β} (h : SameButMessages m m') : Performed operand? [] [] m m'
  | cons {move : Move} {moves : List Move} {value : Quad} {values : List Quad}
      {m m' m'' : Machine β} (first : Made operand? move value m m')
      (rest : Performed operand? moves values m' m'') :
      Performed operand? (move :: moves) (value :: values) m m''

variable {operand? : Option Operand} {move : Move} {moves : List Move} {value : Quad}
  {values : List Quad} {m m' m'' : Machine β}

/-- An access changes no more than the data and address registers and the program counter. -/
theorem Machine.transferred_eq (m : Machine β) (operand? : Option Operand) (value : Quad) :
    m.transferred operand? value =
      { m.cpu with
        d := (m.transferred operand? value).d
        a := (m.transferred operand? value).a
        pc := (m.transferred operand? value).pc } := by
  cases operand? with
  | none => rfl
  | some operand =>
    obtain ⟨mode, size, access⟩ := operand
    cases mode <;> cases access <;> rfl

namespace Made

theorem unit (h : Made operand? move value m m') :
    m'.cpu.unit = move.finish value m.cpu.unit := by
  rw [h.cpu, Machine.transferred_eq]
  rfl

theorem cycles (h : Made operand? move value m m') :
    m'.cpu.cycles = m.cpu.cycles + (move.cost m.cpu.costs).setWidth 64 := by
  rw [h.cpu, Machine.transferred_eq]
  rfl

theorem kept (h : Made operand? move value m m') :
    m'.cpu.ir = m.cpu.ir ∧ m'.cpu.start = m.cpu.start ∧ m'.cpu.costs = m.cpu.costs := by
  rw [h.cpu, Machine.transferred_eq]
  exact ⟨rfl, rfl, rfl⟩

end Made

/-- A move is made by an access and what follows it. -/
theorem made_of_accessed {operand : Operand} {accessed : Machine β}
    (h : Accessed operand.mode operand.size operand.access value m accessed)
    (hStored : operand.access = .write → value = move.stored m.cpu.unit)
    (hCpu : m'.cpu = accessed.cpu.finish move value) (hCalls : m'.calls = accessed.calls)
    (hBus : m'.bus = accessed.bus) : Made (some operand) move value m m' where
  stored := by
    rintro _ ⟨⟩
    exact hStored
  cpu := by
    rw [hCpu, h.cpu]
    rfl
  reaches := by
    have hTrace := h.trace.trans_calls (calls_nil hCalls hBus)
    rw [List.append_nil, ← Operand.calls_single] at hTrace
    exact hTrace

/-- A move without an operand. -/
theorem made_alone (hCpu : m'.cpu = m.cpu.finish move value) (hCalls : m'.calls = m.calls)
    (hBus : m'.bus = m.bus) : Made none move value m m' where
  stored _ h := nomatch h
  cpu := hCpu
  reaches := calls_nil hCalls hBus

/-! ### All moves -/

namespace Performed

theorem single (h : Made operand? move value m m') : Performed operand? [move] [value] m m' :=
  .cons h (.nil ⟨rfl, rfl, rfl⟩)

/-- Messages after the moves do not matter. -/
theorem congr (h : Performed operand? moves values m m') (hSame : SameButMessages m' m'') :
    Performed operand? moves values m m'' := by
  induction h with
  | nil h =>
    exact .nil ⟨hSame.cpu.trans h.cpu, hSame.bus.trans h.bus, hSame.calls.trans h.calls⟩
  | cons first rest ih => exact .cons first (ih hSame)

theorem length_values (h : Performed operand? moves values m m') :
    values.length = moves.length := by
  induction h with
  | nil h => rfl
  | cons first rest ih => rw [List.length_cons, List.length_cons, ih]

/-- What the moves make of the registers of the unit. -/
theorem unit (h : Performed operand? moves values m m') :
    m'.cpu.unit =
      (moves.zip values).foldl (fun unit (move, value) => move.finish value unit) m.cpu.unit := by
  induction h with
  | nil h => rw [h.cpu]; rfl
  | cons first rest ih => rw [ih, first.unit]; rfl

/-- What all moves leave alone. -/
theorem keeps {σ : Type} (view : UnitRegisters → σ) (h : Performed operand? moves values m m')
    (hView : ∀ move ∈ moves, ∀ value unit, view (move.finish value unit) = view unit) :
    view m'.cpu.unit = view m.cpu.unit := by
  induction h with
  | nil h => rw [h.cpu]
  | cons first rest ih =>
    rw [List.forall_mem_cons] at hView
    rw [ih hView.2, first.unit, hView.1]

theorem kept (h : Performed operand? moves values m m') :
    m'.cpu.ir = m.cpu.ir ∧ m'.cpu.start = m.cpu.start ∧ m'.cpu.costs = m.cpu.costs := by
  induction h with
  | nil h =>
    rw [h.cpu]
    exact ⟨rfl, rfl, rfl⟩
  | cons first rest ih =>
    obtain ⟨hIr, hStart, hCosts⟩ := first.kept
    rwa [hIr, hStart, hCosts] at ih

/-- **Each move has its cost.** -/
theorem cycles (h : Performed operand? moves values m m') :
    m'.cpu.cycles = m.cpu.cycles +
      BitVec.ofNat 64 (moves.map fun move => (move.cost m.cpu.costs).toNat).sum := by
  induction h with
  | nil h =>
    rw [h.cpu]
    exact (BitVec.add_zero _).symm
  | cons first rest ih =>
    rw [ih, first.cycles, first.kept.2.2, List.map_cons, List.sum_cons, BitVec.ofNat_add,
      BitVec.ofNat_toNat, BitVec.add_assoc]

/-- What stores put down is what the registers held before the first of them. -/
theorem values_eq (h : Performed operand? moves values m m') {operand : Operand}
    (hOperand : operand? = some operand) (hWrite : operand.access = .write)
    (hStores : ∀ move ∈ moves, ∀ value unit, move.finish value unit = unit) :
    values = moves.map fun move => move.stored m.cpu.unit := by
  induction h with
  | nil h => rfl
  | cons first rest ih =>
    rw [List.forall_mem_cons] at hStores
    rw [ih hStores.2, first.unit, hStores.1, List.map_cons,
      ← first.stored operand hOperand hWrite]

end Performed

/-! ### Registers and calls -/

theorem Exec.locate_postincrement (n : RegisterNumber) (size : Size) (m : Machine β) :
    (locate (.postincrement n) size m).1 = .memory (m.cpu.a.get n) := rfl

theorem Exec.locate_predecrement (n : RegisterNumber) (size : Size) (m : Machine β) :
    (locate (.predecrement n) size m).1 =
      .memory (m.cpu.a.get n - BitVec.ofNat 32 size.bytes) := rfl

/-- Whether a mode steps over its operand. -/
def Mode.steps : Mode → Bool
  | postincrement _ | predecrement _ => true
  | _ => false

/-- What moves through a mode do to the machine, but for the registers of the unit and the clock.
A data or an address register holds the operand where it is the operand itself. -/
structure Machine.Reached (operand? : Option Operand) (values : List Quad) (m m' : Machine β) :
    Prop where
  d : m'.cpu.d = m.cpu.d ∨ ∃ n size value, operand? = some ⟨.dataRegister n, size, .write⟩ ∧
    m'.cpu.d = m.cpu.d.set n (withPart (m.cpu.d.get n) size value)
  a : m'.cpu.a = (operand?.elim m.cpu.a fun operand =>
      operand.mode.stepped (operand.size.bytes * values.length) m.cpu.a) ∨
    ∃ n size value, operand? = some ⟨.addressRegister n, size, .write⟩ ∧
      m'.cpu.a = m.cpu.a.set n value
  pc : m'.cpu.pc = m.cpu.pc + BitVec.ofNat 32 (operand?.elim 0 fun operand => operand.streamBytes m)
  reaches : m.Reaches m' values operand?

namespace Mode

theorem stepped_zero (mode : Mode) (a : Bank Long) : mode.stepped 0 a = a := by
  cases mode <;> simp [stepped]

theorem stepped_stepped (mode : Mode) (n k : Nat) (a : Bank Long) :
    mode.stepped k (mode.stepped n a) = mode.stepped (n + k) a := by
  cases mode with
  | postincrement r =>
    simp only [stepped, Table.get_set_self, Table.set_set, BitVec.ofNat_add, BitVec.add_assoc]
  | predecrement r => simp only [stepped, Table.get_set_self, Table.set_set, Memory.sub_ofNat_sub]
  | _ => rfl

end Mode

namespace Operand

variable {operand : Operand}

theorem calls_nil (m : Machine β) : operand.calls m [] = [] := by
  rw [calls, List.zip_nil_right]
  rfl

/-- The operands that follow the first lie where a machine finds them that has stepped over it. -/
theorem addresses_succ (hSteps : operand.mode.steps = true)
    (hA : m'.cpu.a = operand.mode.stepped operand.size.bytes m.cpu.a) (count : Nat) :
    operand.addresses m (count + 1) = operand.addresses m 1 ++ operand.addresses m' count := by
  obtain ⟨mode, size, access⟩ := operand
  cases mode with
  | postincrement n =>
    have hNext : m'.cpu.a.get n = m.cpu.a.get n + BitVec.ofNat 32 size.bytes := by
      rw [hA]
      exact Table.get_set_self _ _ _
    simp only [addresses, Exec.locate_postincrement, Mode.addressAfter, hNext,
      Nat.add_comm count 1, List.range_add, List.map_append, List.map_map]
    congr 1
    refine List.map_congr_left fun i _ => ?_
    simp only [Function.comp_apply, Nat.mul_add, Nat.mul_one, BitVec.ofNat_add, BitVec.add_assoc]
  | predecrement n =>
    have hNext : m'.cpu.a.get n = m.cpu.a.get n - BitVec.ofNat 32 size.bytes := by
      rw [hA]
      exact Table.get_set_self _ _ _
    simp only [addresses, Exec.locate_predecrement, Mode.addressAfter, hNext,
      Nat.add_comm count 1, List.range_add, List.map_append, List.map_map]
    congr 1
    refine List.map_congr_left fun i _ => ?_
    simp only [Function.comp_apply, Nat.mul_add, Nat.mul_one, Memory.sub_ofNat_sub, Nat.add_assoc]
  | _ => cases hSteps

theorem length_addresses_one (hSteps : operand.mode.steps = true) (m : Machine β) :
    (operand.addresses m 1).length = 1 := by
  obtain ⟨mode, size, access⟩ := operand
  cases mode <;> first | rfl | cases hSteps

theorem calls_cons (hSteps : operand.mode.steps = true)
    (hA : m'.cpu.a = operand.mode.stepped operand.size.bytes m.cpu.a) :
    operand.calls m (value :: values) = operand.calls m [value] ++ operand.calls m' values := by
  obtain ⟨a, hFirst⟩ := List.length_eq_one_iff.mp (length_addresses_one hSteps m)
  rw [calls, calls, calls, List.length_cons, addresses_succ hSteps hA, List.length_singleton,
    hFirst]
  simp only [List.cons_append, List.nil_append, List.zip_cons_cons, List.zip_nil_left,
    List.flatMap_cons, List.flatMap_nil, List.append_nil]

end Operand

namespace Machine

/-- What one move does. -/
theorem reached_of_made (h : Made operand? move value m m') : Reached operand? [value] m m' := by
  have hD : m'.cpu.d = (m.transferred operand? value).d := by rw [h.cpu]; rfl
  have hA : m'.cpu.a = (m.transferred operand? value).a := by rw [h.cpu]; rfl
  have hPc : m'.cpu.pc = (m.transferred operand? value).pc := by rw [h.cpu]; rfl
  cases operand? with
  | none => exact ⟨Or.inl hD, Or.inl hA, hPc.trans (BitVec.add_zero _).symm, h.reaches⟩
  | some operand =>
    obtain ⟨mode, size, access⟩ := operand
    refine ⟨?_, ?_, ?_, h.reaches⟩
    · rcases Cpu.d_accessed m.cpu mode size access value with hSame | ⟨n, rfl, rfl, hSet⟩
      · exact Or.inl (hD.trans hSame)
      · exact Or.inr ⟨n, size, value, rfl, hD.trans hSet⟩
    · rcases Cpu.a_accessed m.cpu mode size access value with hStepped | ⟨n, rfl, rfl, hSet⟩
      · left
        rw [hA, Option.elim_some, List.length_singleton, Nat.mul_one]
        exact hStepped
      · exact Or.inr ⟨n, size, _, rfl, hA.trans hSet⟩
    · rw [hPc, transferred, Cpu.accessed_eq]
      rfl

theorem Reached.congr (h : Reached operand? values m m') (hSame : SameButMessages m' m'') :
    Reached operand? values m m'' where
  d := by rw [hSame.cpu]; exact h.d
  a := by rw [hSame.cpu]; exact h.a
  pc := by rw [hSame.cpu]; exact h.pc
  reaches := by
    have hNone : Calls m' m'' [] := calls_nil hSame.calls hSame.bus
    cases operand? with
    | none => exact h.reaches.trans hNone
    | some operand =>
      have hTrace := Traces.trans_calls h.reaches hNone
      rwa [List.append_nil] at hTrace

/-- Where a mode that steps is used, or no operand, no words are read and no pointer. -/
theorem reached_iff_of_steps
    (hSteps : ∀ operand, operand? = some operand → operand.mode.steps = true) :
    Reached operand? values m m' ↔ m'.cpu.d = m.cpu.d ∧
      m'.cpu.a = (operand?.elim m.cpu.a fun operand =>
        operand.mode.stepped (operand.size.bytes * values.length) m.cpu.a) ∧
      m'.cpu.pc = m.cpu.pc ∧
      Calls m m' (operand?.elim [] fun operand => operand.calls m values) := by
  have hZero : m.cpu.pc + BitVec.ofNat 32 0 = m.cpu.pc := BitVec.add_zero _
  cases operand? with
  | none =>
    constructor
    · intro h
      refine ⟨?_, ?_, h.pc.trans hZero, h.reaches⟩
      · exact h.d.resolve_right fun ⟨_, _, _, hOperand, _⟩ => nomatch hOperand
      · exact h.a.resolve_right fun ⟨_, _, _, hOperand, _⟩ => nomatch hOperand
    · rintro ⟨hD, hA, hPc, hCalls⟩
      exact ⟨Or.inl hD, Or.inl hA, hPc.trans hZero.symm, hCalls⟩
  | some operand =>
    have hMode := hSteps operand rfl
    have hWords : operand.streamBytes m = 0 ∧ operand.mode.usesPointer m.nextWord = false := by
      obtain ⟨mode, size, access⟩ := operand
      cases mode <;> first | exact ⟨rfl, rfl⟩ | cases hMode
    constructor
    · intro h
      have hReaches := h.reaches
      rw [Reaches, hWords.1, hWords.2] at hReaches
      refine ⟨?_, ?_, ?_, hReaches.calls⟩
      · refine h.d.resolve_right ?_
        rintro ⟨n, size, value, hOperand, -⟩
        cases hOperand
        cases hMode
      · refine h.a.resolve_right ?_
        rintro ⟨n, size, value, hOperand, -⟩
        cases hOperand
        cases hMode
      · rw [h.pc, Option.elim_some, hWords.1, hZero]
    · rintro ⟨hD, hA, hPc, hCalls⟩
      refine ⟨Or.inl hD, Or.inl hA, ?_, ?_⟩
      · rw [hPc, Option.elim_some, hWords.1, hZero]
      · rw [Reaches, hWords.1, hWords.2]
        exact hCalls.traces

/-- Nothing but messages. -/
theorem reached_nil (hSteps : ∀ operand, operand? = some operand → operand.mode.steps = true)
    (h : SameButMessages m m') : Reached operand? [] m m' := by
  rw [reached_iff_of_steps hSteps, h.cpu]
  have hNone : Calls m m' [] := calls_nil h.calls h.bus
  cases operand? with
  | none => exact ⟨rfl, rfl, rfl, hNone⟩
  | some operand =>
    rw [Option.elim_some, Option.elim_some, Operand.calls_nil]
    exact ⟨rfl, (Mode.stepped_zero _ _).symm, rfl, hNone⟩

/-- One move and then others, each of which steps over its own operand. -/
theorem Reached.trans (hSteps : ∀ operand, operand? = some operand → operand.mode.steps = true)
    (h : Reached operand? [value] m m') (h' : Reached operand? values m' m'') :
    Reached operand? (value :: values) m m'' := by
  rw [reached_iff_of_steps hSteps] at h h' ⊢
  obtain ⟨hD, hA, hPc, hCalls⟩ := h
  obtain ⟨hD', hA', hPc', hCalls'⟩ := h'
  refine ⟨hD'.trans hD, ?_, hPc'.trans hPc, ?_⟩
  · cases operand? with
    | none => exact hA'.trans hA
    | some operand =>
      rw [Option.elim_some] at hA hA' ⊢
      rw [hA', hA, Mode.stepped_stepped, List.length_singleton, List.length_cons, ← Nat.mul_add,
        Nat.add_comm 1]
  · cases operand? with
    | none => exact hCalls.trans hCalls'
    | some operand =>
      rw [Option.elim_some, List.length_singleton, Nat.mul_one] at hA
      rw [Option.elim_some, Operand.calls_cons (hSteps operand rfl) hA]
      exact hCalls.trans hCalls'

end Machine

/-- **Moves through a mode.**  There is one, or the mode steps over its operands, or there is
no operand at all. -/
theorem Performed.reached (h : Performed operand? moves values m m')
    (hOnce : moves.length = 1 ∨ ∀ operand, operand? = some operand → operand.mode.steps = true) :
    Machine.Reached operand? values m m' := by
  rcases hOnce with hLength | hSteps
  · cases h with
    | nil h => cases hLength
    | cons first rest =>
      cases rest with
      | nil hSame => exact (Machine.reached_of_made first).congr hSame
      | cons second rest => cases hLength
  -- the mode stays the same, and each move leaves its register where the next one finds it
  · induction h with
    | nil h => exact Machine.reached_nil hSteps h
    | cons first rest ih => exact (Machine.reached_of_made first).trans hSteps ih

end M68kFloat
