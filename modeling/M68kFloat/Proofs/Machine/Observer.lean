import Mathlib.Data.List.Forall2
import M68kFloat.Proofs.Machine.Refusal
import M68kFloat.Proofs.Machine.Runs

/-!
# What an observer can tell apart

An `Observer` looks at two machines with the same bus behind them.  It takes some addresses for
the same, and it may not see the state that only controls and times the unit.  Address arithmetic
must not bring to light what it cannot see, which is what the laws of an observer say.

Instructions do not bring it to light either.  `Observer.Indistinct S x y` says of two executions
that from machines that are alike they have results in the relation `S`, make calls that are alike
and leave machines that are alike.  The property composes, so each step of an instruction has its
lemma, and `Transition.alike_after` puts them together for whole instructions.  Two things have to
be granted: a bus that serves addresses alike which the observer takes for the same
(`Observer.Serves`), and that no control register is put down which the observer does not see.
-/

namespace M68kFloat

/-- How closely processors are looked at. -/
structure Observer where
  /-- The addresses that are taken for the same. -/
  Near : Long → Long → Prop
  /-- Whether the control register, the instruction address, the costs and the clock are seen. -/
  SeesControl : Prop
  near_refl : ∀ a, Near a a
  near_add : ∀ {a a' b b'}, Near a a' → Near b b' → Near (a + b) (a' + b')
  near_shift : ∀ {a a'} (n : BitVec 2), Near a a' → Near (a <<< n) (a' <<< n)
  /-- The low word of an address may be an index by itself, so it is seen. -/
  low : ∀ {a a'}, Near a a' → a.setWidth 16 = a'.setWidth 16

/-- An operation that puts down a register which no other instruction looks at. -/
def Operation.reveals : Operation RegisterNumber → Bool
  | control .write .fpcr | control .write .fpiar => true
  | _ => false

theorem Operation.reveals_eq_false {op : Operation RegisterNumber}
    (hFpcr : op ≠ .control .write .fpcr) (hFpiar : op ≠ .control .write .fpiar) :
    op.reveals = false := by
  unfold reveals
  split
  · exact absurd rfl hFpcr
  · exact absurd rfl hFpiar
  · rfl

namespace Observer

variable (o : Observer) {β α α' γ γ' : Type}

/-! ### What is alike -/

structure CpuAlike (c c' : Cpu) : Prop where
  d : c.d = c'.d
  fp : c.fp = c'.fp
  fpsr : c.fpsr = c'.fpsr
  ir : c.ir = c'.ir
  a : ∀ n, o.Near (c.a.get n) (c'.a.get n)
  pc : o.Near c.pc c'.pc
  start : o.Near c.start c'.start
  control : o.SeesControl →
    c.fpcr = c'.fpcr ∧ c.fpiar = c'.fpiar ∧ c.costs = c'.costs ∧ c.cycles = c'.cycles

/-- Two machines that look the same.  What has happened to them so far is not compared. -/
structure Alike (m m' : Machine β) : Prop where
  cpu : o.CpuAlike m.cpu m'.cpu
  bus : m.bus = m'.bus

inductive CallAlike : BusCall → BusCall → Prop
  | read {purpose : Purpose} {width : BusWidth} {a a' value : Long} (h : o.Near a a') :
    CallAlike (.read purpose width a value) (.read purpose width a' value)
  | write {width : BusWidth} {a a' value : Long} (h : o.Near a a') :
    CallAlike (.write width a value) (.write width a' value)
  | cancelTrace : CallAlike .cancelTrace .cancelTrace

/-- Two places with the same operand.  An address register is none, as what it holds may only
look the same. -/
inductive PlaceAlike : Place → Place → Prop
  | dataRegister (n : RegisterNumber) : PlaceAlike (.dataRegister n) (.dataRegister n)
  | memory {a a' : Long} (h : o.Near a a') : PlaceAlike (.memory a) (.memory a')
  | immediate : PlaceAlike .immediate .immediate

/-- The calls on the way from `m` to `n` are like those from `m'` to `n'`. -/
def CallsAlike (m n m' n' : Machine β) : Prop :=
  ∃ calls calls', n.calls = m.calls ++ calls ∧ n'.calls = m'.calls ++ calls' ∧
    List.Forall₂ o.CallAlike calls calls'

/-- Two results that are in a relation, or two faults with the same cause. -/
inductive ResultAlike (S : α → γ → Prop) : Except Fault α → Except Fault γ → Prop
  | ok {a : α} {b : γ} (h : S a b) : ResultAlike S (.ok a) (.ok b)
  | error {fault fault' : Fault} (hCause : fault.cause = fault'.cause)
    (hPc : o.Near fault.pc fault'.pc) : ResultAlike S (.error fault) (.error fault')

/-- An execution of `x` from `m` looks like one of `y` from `m'`. -/
structure LooksSame (S : α → γ → Prop) (x : Exec β α) (y : Exec β γ) (m m' : Machine β) :
    Prop where
  result : S (x m).1 (y m').1
  left : o.Alike (x m).2 (y m').2
  calls : o.CallsAlike m (x m).2 m' (y m').2

/-- Machines that are alike do not let the two executions be told apart. -/
def Indistinct (S : α → γ → Prop) (x : Exec β α) (y : Exec β γ) : Prop :=
  ∀ m m', o.Alike m m' → o.LooksSame S x y m m'

/-- A bus that does the same at addresses which the observer takes for the same. -/
structure Serves (β : Type) [Bus β] : Prop where
  readByte : ∀ {a a'}, o.Near a a' → ∀ bus : β, Bus.readByte a bus = Bus.readByte a' bus
  readWord : ∀ {a a'}, o.Near a a' → ∀ bus : β, Bus.readWord a bus = Bus.readWord a' bus
  readLong : ∀ {a a'}, o.Near a a' → ∀ bus : β, Bus.readLong a bus = Bus.readLong a' bus
  writeByte : ∀ {a a'}, o.Near a a' → ∀ (value : Byte) (bus : β),
    Bus.writeByte a value bus = Bus.writeByte a' value bus
  writeWord : ∀ {a a'}, o.Near a a' → ∀ (value : Word) (bus : β),
    Bus.writeWord a value bus = Bus.writeWord a' value bus
  writeLong : ∀ {a a'}, o.Near a a' → ∀ (value : Long) (bus : β),
    Bus.writeLong a value bus = Bus.writeLong a' value bus

variable {o}

/-! ### Calls and results -/

theorem callsAlike_nil {m n m' n' : Machine β} (h : n.calls = m.calls) (h' : n'.calls = m'.calls) :
    o.CallsAlike m n m' n' :=
  ⟨[], [], by rw [h, List.append_nil], by rw [h', List.append_nil], .nil⟩

theorem callsAlike_single {m n m' n' : Machine β} {call call' : BusCall}
    (h : n.calls = m.calls ++ [call]) (h' : n'.calls = m'.calls ++ [call'])
    (hCall : o.CallAlike call call') : o.CallsAlike m n m' n' :=
  ⟨[call], [call'], h, h', .cons hCall .nil⟩

theorem CallsAlike.trans {m n k m' n' k' : Machine β} (h : o.CallsAlike m n m' n')
    (hNext : o.CallsAlike n k n' k') : o.CallsAlike m k m' k' := by
  obtain ⟨calls, calls', hCalls, hCalls', hAlike⟩ := h
  obtain ⟨more, more', hMore, hMore', hAlikeMore⟩ := hNext
  refine ⟨calls ++ more, calls' ++ more', ?_, ?_, List.rel_append hAlike hAlikeMore⟩
  · rw [hMore, hCalls, List.append_assoc]
  · rw [hMore', hCalls', List.append_assoc]

/-! ### Changes of the processor -/

namespace CpuAlike

variable {c c' : Cpu} (h : o.CpuAlike c c')

include h

theorem field : c.field = c'.field := by
  rw [Cpu.field, h.ir, Cpu.field]

theorem codes : c.codes = c'.codes := by
  rw [Cpu.codes, h.fpsr, Cpu.codes]

theorem costs (cost : Costs → Long) : o.SeesControl → cost c.costs = cost c'.costs := by
  intro hSees
  obtain ⟨-, -, hCosts, -⟩ := h.control hSees
  rw [hCosts]

/-- A control register that the observer sees. -/
theorem seen {register : ControlRegister}
    (hSeen : o.SeesControl ∨ (Operation.control .write register).reveals = false) :
    c.control register = c'.control register := by
  cases register with
  | fpsr => exact h.fpsr
  | fpiar =>
    obtain ⟨-, hFpiar, -⟩ := h.control (hSeen.resolve_right (by decide))
    exact hFpiar
  | fpcr =>
    obtain ⟨hFpcr, -⟩ := h.control (hSeen.resolve_right (by decide))
    exact hFpcr

theorem jump {target target' : Long} (hTarget : o.Near target target') :
    o.CpuAlike { c with pc := target } { c' with pc := target' } :=
  { h with pc := hTarget }

theorem advance (bytes : Long) : o.CpuAlike (c.advance bytes) (c'.advance bytes) :=
  h.jump (o.near_add h.pc (o.near_refl bytes))

theorem setD (n : RegisterNumber) (value : Long) :
    o.CpuAlike (c.setD n value) (c'.setD n value) :=
  { h with d := congrArg (Table.set · n value) h.d }

theorem setDByte (n : RegisterNumber) (value : Byte) :
    o.CpuAlike (c.setDByte n value) (c'.setDByte n value) := by
  rw [Cpu.setDByte, Cpu.setDByte, h.d]
  exact h.setD n _

theorem setDWord (n : RegisterNumber) (value : Word) :
    o.CpuAlike (c.setDWord n value) (c'.setDWord n value) := by
  rw [Cpu.setDWord, Cpu.setDWord, h.d]
  exact h.setD n _

theorem setA (n : RegisterNumber) {value value' : Long} (hValue : o.Near value value') :
    o.CpuAlike (c.setA n value) (c'.setA n value') := by
  have hEach (k : RegisterNumber) :
      o.Near ((c.a.set n value).get k) ((c'.a.set n value').get k) := by
    rw [Table.get_set, Table.get_set]
    split
    · exact hValue
    · exact h.a k
  exact { h with a := hEach }

theorem setFp (n : RegisterNumber) (value : Double) :
    o.CpuAlike (c.setFp n value) (c'.setFp n value) :=
  { h with fp := congrArg (Table.set · n value) h.fp }

theorem setControl (register : ControlRegister) (value : Long) :
    o.CpuAlike (c.setControl register value) (c'.setControl register value) := by
  cases register with
  | fpsr => exact { h with fpsr := rfl }
  | fpiar =>
    refine { h with control := fun hSees => ?_ }
    obtain ⟨hFpcr, -, hRest⟩ := h.control hSees
    exact ⟨hFpcr, rfl, hRest⟩
  | fpcr =>
    refine { h with control := fun hSees => ?_ }
    obtain ⟨-, hRest⟩ := h.control hSees
    exact ⟨rfl, hRest⟩

/-- Only an observer who sees the clock cares about what is charged. -/
theorem charge {cycles cycles' : Long} (hCycles : o.SeesControl → cycles = cycles') :
    o.CpuAlike (c.charge cycles) (c'.charge cycles') := by
  refine { h with control := fun hSees => ?_ }
  obtain ⟨hFpcr, hFpiar, hCosts, hClock⟩ := h.control hSees
  refine ⟨hFpcr, hFpiar, hCosts, ?_⟩
  show c.cycles + cycles.setWidth 64 = c'.cycles + cycles'.setWidth 64
  rw [hClock, hCycles hSees]

theorem operate (opmode : Opmode) (n : RegisterNumber) (source : Double) :
    o.CpuAlike (c.operate opmode n source) (c'.operate opmode n source) := by
  have hWritten (value : Double) : o.CpuAlike (if opmode.writes then c.setFp n value else c)
      (if opmode.writes then c'.setFp n value else c') := by
    split
    · exact h.setFp n value
    · exact h
  rw [Cpu.operate, Cpu.operate, h.fp]
  refine charge ?_ (h.costs opmode.cost)
  -- the codes are set in what has been written
  generalize opmode.value (c'.fp.get n) source = value
  have hStatus := (hWritten value).fpsr
  split
  · exact { hWritten value with fpsr := congrArg (ConditionCodes.ofDouble value).replace hStatus }
  · exact hWritten value

/-- The low word of an address register is an index by itself. -/
theorem indexValue (index : Index) : o.Near (c.indexValue index) (c'.indexValue index) := by
  have hRegister : o.Near (if index.address then c.a.get index.register else c.d.get index.register)
      (if index.address then c'.a.get index.register else c'.d.get index.register) := by
    rw [h.d]
    split
    · exact h.a index.register
    · exact o.near_refl _
  apply o.near_shift
  split
  · exact hRegister
  · rw [o.low hRegister]
    exact o.near_refl _

end CpuAlike

/-! ### How the property composes -/

variable {S : α → γ → Prop} {T : α' → γ' → Prop} {x : Exec β α} {y : Exec β γ}
  {f : α → Exec β α'} {g : γ → Exec β γ'} {m m' : Machine β}

theorem LooksSame.bind (h : o.LooksSame S x y m m')
    (hNext : o.LooksSame T (f (x m).1) (g (y m').1) (x m).2 (y m').2) :
    o.LooksSame T (x >>= f) (y >>= g) m m' :=
  ⟨hNext.result, hNext.left, h.calls.trans hNext.calls⟩

theorem Indistinct.bind (h : o.Indistinct S x y)
    (hNext : ∀ a b, S a b → o.Indistinct T (f a) (g b)) :
    o.Indistinct T (x >>= f) (y >>= g) := by
  intro m m' hAlike
  have hFirst := h m m' hAlike
  exact hFirst.bind (hNext _ _ hFirst.result _ _ hFirst.left)

theorem indistinct_pure {a : α} {b : γ} (h : S a b) :
    o.Indistinct S (pure a : Exec β α) (pure b) := by
  intro m m' hAlike
  exact ⟨h, hAlike, callsAlike_nil rfl rfl⟩

/-- What is computed from results that are in a relation. -/
theorem Indistinct.returning {p : α → α'} {q : γ → γ'} (h : o.Indistinct S x y)
    (hNext : ∀ a b, S a b → T (p a) (q b)) :
    o.Indistinct T (x >>= fun a => pure (p a)) (y >>= fun b => pure (q b)) :=
  h.bind fun a b hab => indistinct_pure (hNext a b hab)

theorem Indistinct.ok (h : o.Indistinct S x y) :
    o.Indistinct (o.ResultAlike S) (Except.ok <$> x) (Except.ok <$> y) := by
  intro m m' hAlike
  have hRun := h m m' hAlike
  exact ⟨.ok hRun.result, hRun.left, hRun.calls⟩

theorem indistinct_getCpu : o.Indistinct o.CpuAlike (Exec.getCpu : Exec β Cpu) Exec.getCpu := by
  intro m m' hAlike
  exact ⟨hAlike.cpu, hAlike, callsAlike_nil rfl rfl⟩

theorem indistinct_modifyCpu {f f' : Cpu → Cpu}
    (h : ∀ c c', o.CpuAlike c c' → o.CpuAlike (f c) (f' c')) :
    o.Indistinct Eq (Exec.modifyCpu f : Exec β Unit) (Exec.modifyCpu f') := by
  intro m m' hAlike
  exact ⟨rfl, ⟨h _ _ hAlike.cpu, hAlike.bus⟩, callsAlike_nil rfl rfl⟩

/-- Messages are not compared, as they tell addresses. -/
theorem indistinct_say (message message' : Message) :
    o.Indistinct Eq (Exec.say message : Exec β Unit) (Exec.say message') := by
  intro m m' hAlike
  exact ⟨rfl, ⟨hAlike.cpu, hAlike.bus⟩, callsAlike_nil rfl rfl⟩

theorem indistinct_andThen {x : Exec β (Except Fault α)} {y : Exec β (Except Fault γ)}
    {f : α → Exec β (Except Fault α')} {g : γ → Exec β (Except Fault γ')}
    (h : o.Indistinct (o.ResultAlike S) x y)
    (hNext : ∀ a b, S a b → o.Indistinct (o.ResultAlike T) (f a) (g b)) :
    o.Indistinct (o.ResultAlike T) (Exec.andThen x f) (Exec.andThen y g) := by
  refine h.bind ?_
  rintro _ _ (hab | ⟨hCause, hPc⟩)
  · exact hNext _ _ hab
  · exact indistinct_pure (.error hCause hPc)

theorem indistinct_fault (cause : Cause) :
    o.Indistinct (o.ResultAlike S)
      (Exec.fault cause >>= fun fault => pure (.error fault) : Exec β (Except Fault α))
      (Exec.fault cause >>= fun fault => pure (.error fault)) := by
  intro m m' hAlike
  exact ⟨.error rfl hAlike.cpu.start, hAlike, callsAlike_nil rfl rfl⟩

theorem LooksSame.reporting {x y : Exec β (Except Fault Unit)}
    (h : o.LooksSame (o.ResultAlike Eq) x y m m') :
    o.LooksSame (o.ResultAlike Eq) (Exec.reporting x) (Exec.reporting y) m m' := by
  refine h.bind ?_
  have hResult := h.result
  generalize (x m).1 = result, (y m').1 = result' at hResult
  rcases hResult with hab | ⟨hCause, hPc⟩
  · exact indistinct_pure (.ok hab) _ _ h.left
  · exact ⟨.error hCause hPc, ⟨h.left.cpu, h.left.bus⟩, callsAlike_nil rfl rfl⟩

end Observer

end M68kFloat
