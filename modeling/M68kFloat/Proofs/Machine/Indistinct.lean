import M68kFloat.Proofs.Machine.Observer
import M68kFloat.Proofs.Machine.Status

/-!
# Instructions that look the same

Every step of an instruction is indistinct from itself to an observer whom the bus serves, and so
are the instructions, but for the store of a control register that the observer does not see.
What an observer takes for the same goes into addresses only: `indistinct_locate` has places that
are alike as its results, while what is read from a place is equal (`indistinct_readThrough`).
That no operand is read from an address register is a matter of the table of sizes.

`Transition.alike_after` is the step lemma for runs, and `Machine.alike_history` what follows from
it by induction.
-/

namespace M68kFloat

open Exec

namespace Observer

variable {o : Observer} {β α α' : Type} [Bus β]

/-! ### The bus -/

omit [Bus β] in
theorem indistinct_readWith {width : Nat} {purpose : Purpose} {busWidth : BusWidth} {a a' : Long}
    (hNear : o.Near a a') {read read' : β → BitVec width × β}
    (hRead : ∀ bus, read bus = read' bus) :
    o.Indistinct Eq (readWith read (.read purpose busWidth a))
      (readWith read' (.read purpose busWidth a')) := by
  intro m m' hAlike
  have hSame : read m.bus = read' m'.bus := by
    rw [hAlike.bus]
    exact hRead m'.bus
  obtain ⟨hValue, hLeft⟩ := Prod.mk.inj hSame
  have hCall : o.CallAlike (.read purpose busWidth a ((read m.bus).1.setWidth 32))
      (.read purpose busWidth a' ((read' m'.bus).1.setWidth 32)) := by
    rw [hValue]
    exact .read hNear
  exact ⟨hValue, ⟨hAlike.cpu, hLeft⟩, callsAlike_single rfl rfl hCall⟩

omit [Bus β] in
theorem indistinct_callWith {call call' : β → β} {record record' : BusCall}
    (hCall : ∀ bus, call bus = call' bus) (hRecord : o.CallAlike record record') :
    o.Indistinct Eq (callWith call record) (callWith call' record') := by
  intro m m' hAlike
  have hSame : call m.bus = call' m'.bus := by
    rw [hAlike.bus]
    exact hCall m'.bus
  exact ⟨rfl, ⟨hAlike.cpu, hSame⟩, callsAlike_single rfl rfl hRecord⟩

theorem indistinct_cancelTrace : o.Indistinct Eq (cancelTrace : Exec β Unit) cancelTrace :=
  indistinct_callWith (fun _ => rfl) .cancelTrace

section Served

variable (hBus : o.Serves β)

include hBus

theorem indistinct_readLong (purpose : Purpose) {a a' : Long} (h : o.Near a a') :
    o.Indistinct Eq (readLong purpose a : Exec β Long) (readLong purpose a') :=
  indistinct_readWith h (hBus.readLong h)

theorem indistinct_writeLong {a a' : Long} (h : o.Near a a') (value : Long) :
    o.Indistinct Eq (writeLong a value : Exec β Unit) (writeLong a' value) :=
  indistinct_callWith (hBus.writeLong h value) (.write h)

/-! ### The instruction stream -/

theorem indistinct_fetchWord : o.Indistinct Eq (fetchWord : Exec β Word) fetchWord := by
  refine indistinct_getCpu.bind fun c c' hCpu => ?_
  refine (indistinct_readWith hCpu.pc (hBus.readWord hCpu.pc)).bind ?_
  rintro word _ rfl
  exact (indistinct_modifyCpu fun c c' h => h.advance 2).returning fun _ _ _ => rfl

theorem indistinct_fetchLong : o.Indistinct Eq (fetchLong : Exec β Long) fetchLong := by
  refine indistinct_getCpu.bind fun c c' hCpu => ?_
  refine (indistinct_readLong hBus .stream hCpu.pc).bind ?_
  rintro long _ rfl
  exact (indistinct_modifyCpu fun c c' h => h.advance 4).returning fun _ _ _ => rfl

theorem indistinct_fetchDisplacement (width : DisplacementWidth) :
    o.Indistinct Eq (fetchDisplacement width : Exec β Long) (fetchDisplacement width) := by
  cases width with
  | null => exact indistinct_pure rfl
  | word => exact (indistinct_fetchWord hBus).returning fun _ _ hWord => congrArg _ hWord
  | long => exact indistinct_fetchLong hBus

theorem indistinct_fetchOffset (form : BranchForm) :
    o.Indistinct Eq (fetchOffset form : Exec β Int) (fetchOffset form) := by
  cases form with
  | word =>
    exact (indistinct_fetchWord hBus).returning fun _ _ hWord =>
      congrArg (fun word : Word => word.toInt - 2) hWord
  | long =>
    exact (indistinct_fetchLong hBus).returning fun _ _ hLong =>
      congrArg (fun long : Long => (long - 4).toInt) hLong

theorem indistinct_fetchOpcode : o.Indistinct Eq (fetchOpcode : Exec β Unit) fetchOpcode := by
  refine indistinct_getCpu.bind fun c c' hCpu => ?_
  refine (indistinct_fetchWord hBus).bind ?_
  rintro opcode _ rfl
  exact indistinct_modifyCpu fun c c' h => { h with ir := rfl, start := hCpu.pc }

/-! ### Places -/

/-- A displacement that is added to an address. -/
theorem indistinct_displaced {base base' : Long} (h : o.Near base base')
    (width : DisplacementWidth) :
    o.Indistinct o.PlaceAlike
      (fetchDisplacement width >>= fun d => pure (.memory (base + d)) : Exec β Place)
      (fetchDisplacement width >>= fun d => pure (.memory (base' + d))) := by
  refine (indistinct_fetchDisplacement hBus width).returning ?_
  rintro d _ rfl
  exact .memory (o.near_add h (o.near_refl d))

/-- The address that an index word makes of a base.  A pointer is read from the bus, so it is the
same in both. -/
theorem indistinct_indexedAddress {base base' : Long} (hBase : o.Near base base') :
    o.Indistinct o.Near (indexedAddress base : Exec β Long) (indexedAddress base') := by
  refine (indistinct_fetchWord hBus).bind ?_
  rintro word _ rfl
  refine indistinct_getCpu.bind fun c c' hCpu => ?_
  cases IndexWord.ofWord word with
  | brief index displacement =>
    exact indistinct_pure (o.near_add (o.near_add hBase (hCpu.indexValue index)) (o.near_refl _))
  | full hasBase index width indirection =>
    have hFrom : o.Near (if hasBase then base else 0) (if hasBase then base' else 0) := by
      split
      · exact hBase
      · exact o.near_refl 0
    have hIndex : o.Near ((index.map c.indexValue).getD 0) ((index.map c'.indexValue).getD 0) := by
      cases index with
      | none => exact o.near_refl 0
      | some index => exact hCpu.indexValue index
    refine (indistinct_fetchDisplacement hBus width).bind ?_
    rintro displacement _ rfl
    have hInner := o.near_add hFrom (o.near_refl displacement)
    cases indirection with
    | direct => exact indistinct_pure (o.near_add hInner hIndex)
    | preindexed outerWidth =>
      refine (indistinct_fetchDisplacement hBus outerWidth).bind ?_
      rintro outer _ rfl
      refine (indistinct_readLong hBus .pointer (o.near_add hInner hIndex)).returning ?_
      rintro pointer _ rfl
      exact o.near_refl _
    | postindexed outerWidth =>
      refine (indistinct_fetchDisplacement hBus outerWidth).bind ?_
      rintro outer _ rfl
      refine (indistinct_readLong hBus .pointer hInner).returning ?_
      rintro pointer _ rfl
      exact o.near_add (o.near_add (o.near_refl pointer) hIndex) (o.near_refl outer)

theorem indistinct_indexed {base base' : Long} (hBase : o.Near base base') :
    o.Indistinct o.PlaceAlike (indexedAddress base >>= fun a => pure (.memory a) : Exec β Place)
      (indexedAddress base' >>= fun a => pure (.memory a)) :=
  (indistinct_indexedAddress hBus hBase).returning fun _ _ h => .memory h

omit [Bus β] hBus in
/-- A register that is moved before or after it is used as an address. -/
theorem indistinct_stepped (n : RegisterNumber) {a a' moved moved' : Long} (h : o.Near a a')
    (hMoved : o.Near moved moved') :
    o.Indistinct o.PlaceAlike
      (modifyCpu (·.setA n moved) >>= fun _ => pure (.memory a) : Exec β Place)
      (modifyCpu (·.setA n moved') >>= fun _ => pure (.memory a')) :=
  (indistinct_modifyCpu fun _ _ hCpu => hCpu.setA n hMoved).returning fun _ _ _ => .memory h

/-- **A mode leads to places that are alike.** -/
theorem indistinct_locate {mode : Mode} (hMode : ∀ n, mode ≠ .addressRegister n) (size : Size) :
    o.Indistinct o.PlaceAlike (locate mode size : Exec β Place) (locate mode size) := by
  refine indistinct_getCpu.bind fun c c' hCpu => ?_
  cases mode with
  | dataRegister n => exact indistinct_pure (.dataRegister n)
  | addressRegister n => exact absurd rfl (hMode n)
  | indirect n => exact indistinct_pure (.memory (hCpu.a n))
  | postincrement n =>
    exact indistinct_stepped n (hCpu.a n) (o.near_add (hCpu.a n) (o.near_refl _))
  | predecrement n =>
    have hBack : o.Near (c.a.get n - BitVec.ofNat 32 size.bytes)
        (c'.a.get n - BitVec.ofNat 32 size.bytes) := by
      rw [BitVec.sub_eq_add_neg, BitVec.sub_eq_add_neg]
      exact o.near_add (hCpu.a n) (o.near_refl _)
    exact indistinct_stepped n hBack hBack
  | displaced n => exact indistinct_displaced hBus (hCpu.a n) .word
  | indexed n => exact indistinct_indexed hBus (hCpu.a n)
  | absoluteShort =>
    exact (indistinct_fetchDisplacement hBus .word).returning fun a _ h =>
      h ▸ .memory (o.near_refl a)
  | absoluteLong =>
    exact (indistinct_fetchDisplacement hBus .long).returning fun a _ h =>
      h ▸ .memory (o.near_refl a)
  | relative => exact indistinct_displaced hBus hCpu.pc .word
  | relativeIndexed => exact indistinct_indexed hBus hCpu.pc
  | immediate => exact indistinct_pure .immediate

/-! ### Operands -/

omit [Bus β] hBus in
/-- Two longs, the high one first. -/
theorem indistinct_longs {α : Type} {x x' : Exec β Long} {y y' : Exec β Long}
    (hHigh : o.Indistinct Eq x x') (hLow : o.Indistinct Eq y y') (join : Long → Long → α) :
    o.Indistinct Eq (x >>= fun high => y >>= fun low => pure (join high low))
      (x' >>= fun high => y' >>= fun low => pure (join high low)) := by
  refine hHigh.bind ?_
  rintro high _ rfl
  exact hLow.returning fun _ _ h => congrArg (join high) h

theorem indistinct_readMemory {a a' : Long} (h : o.Near a a') (size : Size) :
    o.Indistinct Eq (readMemory a size : Exec β Quad) (readMemory a' size) := by
  have hNext : o.Near (a + 4) (a' + 4) := o.near_add h (o.near_refl 4)
  cases size with
  | byte => exact (indistinct_readWith h (hBus.readByte h)).returning fun _ _ h => congrArg _ h
  | word => exact (indistinct_readWith h (hBus.readWord h)).returning fun _ _ h => congrArg _ h
  | long => exact (indistinct_readLong hBus .operand h).returning fun _ _ h => congrArg _ h
  | double | extended =>
    exact indistinct_longs (indistinct_readLong hBus .operand h)
      (indistinct_readLong hBus .operand hNext) (· ++ ·)

theorem indistinct_readStream (size : Size) :
    o.Indistinct Eq (readStream size : Exec β Quad) (readStream size) := by
  cases size with
  | byte =>
    exact (indistinct_fetchWord hBus).returning fun _ _ h =>
      congrArg (fun word : Word => (word.setWidth 8).setWidth 64) h
  | word => exact (indistinct_fetchWord hBus).returning fun _ _ h => congrArg _ h
  | long => exact (indistinct_fetchLong hBus).returning fun _ _ h => congrArg _ h
  | double | extended =>
    exact indistinct_longs (indistinct_fetchLong hBus) (indistinct_fetchLong hBus) (· ++ ·)

theorem indistinct_readPlace {place place' : Place} (h : o.PlaceAlike place place') (size : Size) :
    o.Indistinct Eq (readPlace place size : Exec β Quad) (readPlace place' size) := by
  cases h with
  | dataRegister n =>
    refine indistinct_getCpu.bind fun c c' hCpu => ?_
    rw [hCpu.d]
    cases size <;> exact indistinct_pure rfl
  | memory hNear => exact indistinct_readMemory hBus hNear size
  | immediate => exact indistinct_readStream hBus size

theorem indistinct_writeMemory {a a' : Long} (h : o.Near a a') (size : Size) (value : Quad) :
    o.Indistinct Eq (writeMemory a size value : Exec β Unit) (writeMemory a' size value) := by
  have hOffset (offset : Long) : o.Near (a + offset) (a' + offset) :=
    o.near_add h (o.near_refl offset)
  cases size with
  | byte => exact indistinct_callWith (hBus.writeByte h _) (.write h)
  | word => exact indistinct_callWith (hBus.writeWord h _) (.write h)
  | long => exact indistinct_writeLong hBus h _
  | double =>
    exact (indistinct_writeLong hBus h _).bind fun _ _ _ =>
      indistinct_writeLong hBus (hOffset 4) _
  | extended =>
    exact (indistinct_writeLong hBus h _).bind fun _ _ _ =>
      (indistinct_writeLong hBus (hOffset 4) _).bind fun _ _ _ =>
        indistinct_writeLong hBus (hOffset 8) _

theorem indistinct_writePlace {place place' : Place} (h : o.PlaceAlike place place') (size : Size)
    (value : Quad) :
    o.Indistinct Eq (writePlace place size value : Exec β Unit) (writePlace place' size value) := by
  cases h with
  | dataRegister n =>
    cases size with
    | byte => exact indistinct_modifyCpu fun c c' hCpu => hCpu.setDByte n _
    | word => exact indistinct_modifyCpu fun c c' hCpu => hCpu.setDWord n _
    | long | double | extended => exact indistinct_modifyCpu fun c c' hCpu => hCpu.setD n _
  | memory hNear => exact indistinct_writeMemory hBus hNear size value
  | immediate => exact indistinct_pure rfl

/-! ### Access through a mode -/

theorem indistinct_readThrough {mode : Mode} (hMode : ∀ n, mode ≠ .addressRegister n)
    (size : Size) : o.Indistinct Eq (readThrough size mode : Exec β Quad) (readThrough size mode) :=
  (indistinct_locate hBus hMode size).bind fun _ _ hPlace =>
    indistinct_readPlace hBus hPlace size

theorem indistinct_writeThrough (size : Size) (value : Quad) (mode : Mode) :
    o.Indistinct Eq (writeThrough size value mode : Exec β Unit) (writeThrough size value mode) := by
  by_cases hMode : ∀ n, mode ≠ .addressRegister n
  · exact (indistinct_locate hBus hMode size).bind fun _ _ hPlace =>
      indistinct_writePlace hBus hPlace size value
  · -- what is put into an address register is the same in both
    rw [not_forall] at hMode
    obtain ⟨n, hMode⟩ := hMode
    obtain rfl := not_not.mp hMode
    exact indistinct_modifyCpu fun c c' hCpu => hCpu.setA n (o.near_refl _)

theorem indistinct_readExtendedThrough {mode : Mode} (hMode : ∀ n, mode ≠ .addressRegister n) :
    o.Indistinct Eq (readExtendedThrough mode : Exec β Double) (readExtendedThrough mode) := by
  refine (indistinct_locate hBus hMode .extended).bind fun place place' hPlace => ?_
  refine (indistinct_say (.extended .read place) (.extended .read place')).bind fun _ _ _ => ?_
  exact (indistinct_readPlace hBus hPlace .extended).returning fun _ _ h => congrArg Double.mk h

theorem indistinct_writeExtendedThrough (value : Double) {mode : Mode}
    (hMode : ∀ n, mode ≠ .addressRegister n) :
    o.Indistinct Eq (writeExtendedThrough value mode : Exec β Unit)
      (writeExtendedThrough value mode) := by
  refine (indistinct_locate hBus hMode .extended).bind fun place place' hPlace => ?_
  refine (indistinct_say (.extended .write place) (.extended .write place')).bind fun _ _ _ => ?_
  exact indistinct_writePlace hBus hPlace .extended value.bits

/-! ### Operations -/

omit [Bus β] hBus in
/-- No operand is read from an address register, and no extended image is put there. -/
theorem ne_addressRegister {mode : Mode} {size : Size} {access : Access}
    (h : mode.allows size access = true) (hAccess : access = .read ∨ size = .extended) (n : _) :
    mode ≠ .addressRegister n := by
  rintro rfl
  rcases hAccess with rfl | rfl
  · cases h
  · cases access <;> cases h

omit [Bus β] hBus in
/-- A refusal does not depend on what would have been done with the operand. -/
theorem indistinct_withOperand_of_refused {γ : Type} {S : α → γ → Prop} {field : Byte} {size : Size}
    {access : Access} (h : Mode.route? field size access = none) (use : Mode → Exec β α)
    (use' : Mode → Exec β γ) :
    o.Indistinct (o.ResultAlike S) (withOperand field size access use)
      (withOperand field size access use') := by
  intro m m' hAlike
  constructor <;> rw [withOperand_of_refused h, withOperand_of_refused h]
  · exact .error rfl hAlike.cpu.start
  · exact ⟨hAlike.cpu, hAlike.bus⟩
  · exact callsAlike_nil rfl rfl

omit [Bus β] hBus in
theorem indistinct_withOperand {γ : Type} {S : α → γ → Prop} {size : Size} {access : Access}
    {use : Mode → Exec β α} {use' : Mode → Exec β γ}
    (h : ∀ mode, mode.allows size access = true → o.Indistinct S (use mode) (use' mode))
    (field : Byte) :
    o.Indistinct (o.ResultAlike S) (withOperand field size access use)
      (withOperand field size access use') := by
  cases hRoute : Mode.route? field size access with
  | some mode =>
    rw [withOperand_of_route hRoute, withOperand_of_route hRoute]
    exact (h mode (route_eq_some.mp hRoute).2).ok
  | none => exact indistinct_withOperand_of_refused hRoute use use'

omit [Bus β] hBus in
/-- The end of most operations. -/
theorem indistinct_charge {c c' : Cpu} (hCpu : o.CpuAlike c c') (cost : Costs → Long) :
    o.Indistinct Eq (modifyCpu (·.charge (cost c.costs)) : Exec β Unit)
      (modifyCpu (·.charge (cost c'.costs))) :=
  indistinct_modifyCpu fun _ _ h => h.charge (hCpu.costs cost)

theorem indistinct_general (source : Source RegisterNumber) (destination : RegisterNumber)
    (opmode : Opmode) :
    o.Indistinct (o.ResultAlike Eq) (general source destination opmode : Exec β _)
      (general source destination opmode) := by
  refine indistinct_getCpu.bind fun c c' hCpu => ?_
  cases source with
  | register n =>
    simp only [hCpu.fp]
    exact (indistinct_modifyCpu fun _ _ h => h.operate opmode destination _).ok
  | memory format =>
    simp only [hCpu.field]
    refine indistinct_withOperand (fun mode hAllowed => ?_) c'.field
    refine (indistinct_readThrough hBus (ne_addressRegister hAllowed (.inl rfl)) _).bind ?_
    rintro operand _ rfl
    exact indistinct_modifyCpu fun _ _ h => h.operate opmode destination _

theorem indistinct_store (source : RegisterNumber) (format : Format) :
    o.Indistinct (o.ResultAlike Eq) (store source format : Exec β _) (store source format) := by
  refine indistinct_getCpu.bind fun c c' hCpu => ?_
  simp only [hCpu.field, hCpu.fp]
  refine indistinct_withOperand (fun mode _ => ?_) c'.field
  exact (indistinct_writeThrough hBus _ _ mode).bind fun _ _ _ =>
    indistinct_charge hCpu Costs.store

theorem indistinct_control_read (register : ControlRegister) :
    o.Indistinct (o.ResultAlike Eq) (control .read register : Exec β _)
      (control .read register) := by
  refine indistinct_getCpu.bind fun c c' hCpu => ?_
  simp only [hCpu.field]
  refine indistinct_withOperand (fun mode hAllowed => ?_) c'.field
  refine (indistinct_readThrough hBus (ne_addressRegister hAllowed (.inl rfl)) _).bind ?_
  rintro operand _ rfl
  exact (indistinct_modifyCpu fun _ _ h => h.setControl register _).bind fun _ _ _ =>
    indistinct_charge hCpu Costs.control

/-- A control register that is seen may be put down. -/
theorem indistinct_control_write {register : ControlRegister}
    (hSeen : o.SeesControl ∨ (Operation.control .write register).reveals = false) :
    o.Indistinct (o.ResultAlike Eq) (control .write register : Exec β _)
      (control .write register) := by
  refine indistinct_getCpu.bind fun c c' hCpu => ?_
  simp only [hCpu.field, hCpu.seen hSeen]
  refine indistinct_withOperand (fun mode _ => ?_) c'.field
  exact (indistinct_writeThrough hBus _ _ mode).bind fun _ _ _ =>
    indistinct_charge hCpu Costs.control

theorem indistinct_moveListed (access : Access) (field : Byte) (bit : RegisterNumber) :
    o.Indistinct (o.ResultAlike Eq) (moveListed access field bit : Exec β _)
      (moveListed access field bit) := by
  refine indistinct_getCpu.bind fun c c' hCpu => ?_
  cases access with
  | write =>
    simp only [hCpu.fp]
    refine indistinct_andThen (S := Eq) (indistinct_withOperand (fun mode hAllowed => ?_) field) ?_
    · exact indistinct_writeExtendedThrough hBus _ (ne_addressRegister hAllowed (.inr rfl))
    · exact fun _ _ _ => (indistinct_charge hCpu Costs.multiple).ok
  | read =>
    refine indistinct_andThen (S := Eq) (indistinct_withOperand (fun mode hAllowed => ?_) field) ?_
    · exact indistinct_readExtendedThrough hBus (ne_addressRegister hAllowed (.inl rfl))
    · rintro value _ rfl
      exact (indistinct_modifyCpu fun _ _ h =>
        (h.setFp (7 - bit) value).charge (hCpu.costs Costs.multiple)).ok

/-- By induction on the list, as the registers are moved one after the other. -/
theorem indistinct_moveAll (access : Access) (field : Byte) (bits : List RegisterNumber) :
    o.Indistinct (o.ResultAlike Eq) (moveAll access field bits : Exec β _)
      (moveAll access field bits) := by
  induction bits with
  | nil => exact indistinct_pure (.ok rfl)
  | cons bit bits ih =>
    exact indistinct_andThen (indistinct_moveListed hBus access field bit) fun _ _ _ => ih

theorem indistinct_multiple (access : Access) (list : Byte) :
    o.Indistinct (o.ResultAlike Eq) (multiple access list : Exec β _) (multiple access list) := by
  refine indistinct_getCpu.bind fun c c' hCpu => ?_
  simp only [hCpu.field]
  exact indistinct_andThen (indistinct_moveAll hBus access c'.field (listed list))
    fun _ _ _ => (indistinct_say _ _).ok

/-- **An operation looks the same** unless it puts down a control register that is not seen. -/
theorem looksSame_operation {op : Operation RegisterNumber} {m m' : Machine β}
    (hAlike : o.Alike m m')
    (h : (operation op m).1 = .ok () → o.SeesControl ∨ op.reveals = false) :
    o.LooksSame (o.ResultAlike Eq) (operation op) (operation op) m m' := by
  cases op with
  | general source destination opmode =>
    exact indistinct_general hBus source destination opmode m m' hAlike
  | store source format => exact indistinct_store hBus source format m m' hAlike
  | multiple access list => exact indistinct_multiple hBus access list m m' hAlike
  | control access register =>
    cases access with
    | read => exact indistinct_control_read hBus register m m' hAlike
    | write =>
      by_cases hSeen : o.SeesControl ∨ (Operation.control .write register).reveals = false
      · exact indistinct_control_write hBus hSeen m m' hAlike
      · -- then the store has been refused, and the register is not even read
        have hRefused : Mode.route? m.cpu.field .long .write = none := by
          rw [Option.eq_none_iff_forall_ne_some]
          intro mode hRoute
          refine hSeen (h ?_)
          rw [operation, control_write_of_route hRoute]
        refine (indistinct_getCpu m m' hAlike).bind ?_
        have hField := hAlike.cpu.field
        simp only [getCpu_apply, ← hField]
        exact indistinct_withOperand_of_refused hRefused _ _ m m' hAlike

/-! ### Instructions -/

/-- An instruction with an extension word looks the same if the operation does that it holds. -/
theorem looksSame_dispatch {m m' : Machine β} (hAlike : o.Alike m m')
    (h : ∀ op, Operation.ofExtension (Bus.readWord m.cpu.pc m.bus).1 = .ok op →
      (operation op (decoded m op)).1 = .ok () → o.SeesControl ∨ op.reveals = false) :
    o.LooksSame (o.ResultAlike Eq) dispatch dispatch m m' := by
  have hFetched := indistinct_fetchWord hBus m m' hAlike
  refine hFetched.bind ?_
  have hSame : (fetchWord m).1 = (fetchWord m').1 := hFetched.result
  rw [← hSame]
  cases hWord : Operation.ofExtension (fetchWord m).1 with
  | error cause => exact indistinct_fault cause _ _ hFetched.left
  | ok op =>
    refine (indistinct_getCpu _ _ hFetched.left).bind ?_
    have hSaid := indistinct_say
      (.dispatched (fetchWord m).2.cpu.start (fetchWord m).2.cpu.ir (fetchWord m).1 op)
      (.dispatched (fetchWord m').2.cpu.start (fetchWord m').2.cpu.ir (fetchWord m).1 op)
      _ _ hFetched.left
    exact hSaid.bind (looksSame_operation hBus hSaid.left (h op hWord))

omit hBus in
/-- A jump goes equally far. -/
theorem indistinct_jumpIf (condition : Condition) (offset : Int) :
    o.Indistinct Eq (jumpIf condition offset : Exec β Unit) (jumpIf condition offset) := by
  refine indistinct_getCpu.bind fun c c' hCpu => ?_
  simp only [hCpu.codes]
  split
  · refine indistinct_cancelTrace.bind fun _ _ _ => ?_
    refine (indistinct_modifyCpu fun _ _ h => h.jump (o.near_add h.pc (o.near_refl _))).bind ?_
    exact fun _ _ _ => indistinct_getCpu.bind fun _ _ _ => indistinct_say _ _
  · exact indistinct_pure rfl

theorem indistinct_branch (form : BranchForm) :
    o.Indistinct (o.ResultAlike Eq) (branch form : Exec β _) (branch form) := by
  refine indistinct_getCpu.bind fun c c' hCpu => ?_
  simp only [hCpu.field]
  cases Condition.ofCode? c'.field with
  | none => exact indistinct_fault _
  | some condition =>
    refine (indistinct_fetchOffset hBus form).bind ?_
    rintro offset _ rfl
    exact (indistinct_jumpIf condition offset).bind fun _ _ _ =>
      (indistinct_charge hCpu Costs.branch).ok

theorem looksSame_generalGroup {m m' : Machine β} (hAlike : o.Alike m m')
    (h : m.cpu.ir.extractLsb' 6 2 = 0 →
      ∀ op, Operation.ofExtension (Bus.readWord m.cpu.pc m.bus).1 = .ok op →
        (operation op (decoded m op)).1 = .ok () → o.SeesControl ∨ op.reveals = false) :
    o.LooksSame (o.ResultAlike Eq) generalGroup generalGroup m m' := by
  refine LooksSame.reporting ((indistinct_getCpu m m' hAlike).bind ?_)
  have hIr := hAlike.cpu.ir
  simp only [getCpu_apply, ← hIr]
  rcases class_cases (m.cpu.ir.extractLsb' 6 2) with hClass | hClass | hClass | hClass
  all_goals rw [hClass]
  · exact looksSame_dispatch hBus hAlike (h hClass)
  · exact indistinct_fault _ m m' hAlike
  · exact indistinct_branch hBus .word m m' hAlike
  · exact indistinct_branch hBus .long m m' hAlike

theorem indistinct_saveFrame :
    o.Indistinct (o.ResultAlike Eq) (saveFrame : Exec β _) saveFrame := by
  refine indistinct_getCpu.bind fun c c' hCpu => ?_
  simp only [hCpu.field]
  refine (indistinct_say _ _).bind fun _ _ _ => ?_
  exact indistinct_withOperand (fun mode _ => indistinct_writeThrough hBus .long 0 mode) c'.field

theorem indistinct_restoreFrame :
    o.Indistinct (o.ResultAlike Eq) (restoreFrame : Exec β _) restoreFrame := by
  refine indistinct_getCpu.bind fun c c' hCpu => ?_
  simp only [hCpu.field]
  refine (indistinct_say _ _).bind fun _ _ _ => ?_
  have hRead : o.Indistinct (o.ResultAlike Eq) (readOperand c'.field .long : Exec β _)
      (readOperand c'.field .long) := by
    refine indistinct_withOperand (fun mode hAllowed => ?_) c'.field
    exact indistinct_readThrough hBus (ne_addressRegister hAllowed (.inl rfl)) .long
  refine hRead.returning ?_
  rintro _ _ (hab | ⟨hCause, hPc⟩)
  · exact .ok rfl
  · exact .error hCause hPc

theorem looksSame_frameGroup {m m' : Machine β} (hAlike : o.Alike m m') :
    o.LooksSame (o.ResultAlike Eq) frameGroup frameGroup m m' := by
  refine LooksSame.reporting ((indistinct_getCpu m m' hAlike).bind ?_)
  have hIr := hAlike.cpu.ir
  simp only [getCpu_apply, ← hIr]
  rcases class_cases (m.cpu.ir.extractLsb' 6 2) with hClass | hClass | hClass | hClass
  all_goals rw [hClass]
  · exact indistinct_saveFrame hBus m m' hAlike
  · exact indistinct_restoreFrame hBus m m' hAlike
  · exact indistinct_fault _ m m' hAlike
  · exact indistinct_fault _ m m' hAlike

end Served

/-! ### Runs -/

/-- Two transitions that look the same. -/
structure TransitionAlike (o : Observer) (t t' : Transition β) : Prop where
  result : o.ResultAlike Eq t.result t'.result
  after : o.Alike t.after t'.after
  calls : o.CallsAlike t.before t.after t'.before t'.after

end Observer

variable {o : Observer} {β : Type} [Bus β] (hBus : o.Serves β)

include hBus

/-- **A turn looks the same from machines that are alike**, unless it puts down a control register
that is not seen. -/
theorem Transition.alike_after {t t' : Transition β} (hTurn : t.turn = t'.turn)
    (hAlike : o.Alike t.before t'.before)
    (h : ∀ op, t.operation? = some op → o.SeesControl ∨ op.reveals = false) :
    o.TransitionAlike t t' := by
  obtain ⟨m, host, group⟩ := t
  obtain ⟨m', turn⟩ := t'
  obtain rfl : ⟨host, group⟩ = turn := hTurn
  have hHosted : o.Alike { m with bus := host m.bus } { m' with bus := host m'.bus } :=
    ⟨hAlike.cpu, congrArg host hAlike.bus⟩
  have hFetched := Observer.indistinct_fetchOpcode hBus _ _ hHosted
  cases group with
  | frame =>
    have hRun := Observer.looksSame_frameGroup hBus hFetched.left
    exact ⟨hRun.result, hRun.left, hFetched.calls.trans hRun.calls⟩
  | general =>
    have hRun := Observer.looksSame_generalGroup hBus hFetched.left fun hClass op hWord hOk => by
      have hResult := congrArg Prod.fst (generalGroup_of_operation hClass hWord hOk)
      have hAccepted := congrArg Except.isOk (hResult.trans hOk)
      refine h op ?_
      rw [operation?, if_pos ⟨rfl, hClass, hAccepted⟩]
      exact congrArg Except.toOption hWord
    exact ⟨hRun.result, hRun.left, hFetched.calls.trans hRun.calls⟩

/-- **Runs from machines that are alike look the same**, one turn after the other. -/
theorem Machine.alike_history {m m' : Machine β} (hAlike : o.Alike m m') {turns : List (Turn β)}
    (h : ∀ t ∈ m.history turns, ∀ op, t.operation? = some op →
      o.SeesControl ∨ op.reveals = false) :
    List.Forall₂ o.TransitionAlike (m.history turns) (m'.history turns) := by
  induction turns generalizing m m' with
  | nil => exact .nil
  | cons turn turns ih =>
    have hFirst : o.TransitionAlike ⟨m, turn⟩ ⟨m', turn⟩ :=
      Transition.alike_after hBus rfl hAlike (h _ List.mem_cons_self)
    exact .cons hFirst (ih hFirst.after fun t ht => h t (List.mem_cons_of_mem _ ht))

end M68kFloat
