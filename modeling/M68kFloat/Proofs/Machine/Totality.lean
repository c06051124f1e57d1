import M68kFloat.Proofs.Machine.Passing

/-!
# No check fails

The clock and the count of cancelled traces need room.  `PassesWithin charges cancels x y` says
that the checked `x` does what `y` does from every machine that has room for so many charges and
cancelled traces, and that no more of it is taken.  The room adds up where one execution follows
another (`PassesWithin.bind`), so an instruction charges at most eight times and cancels at most
one trace (`passesWithin_execute`), and by induction a session takes no more than the number of its
turns says: `no_check_fails`.
-/

namespace M68kFloat.Checked

open Exec (bind_apply)

variable {α γ : Type}

/-! ### Room for the counters -/

/-- The most that can be charged at once. -/
def largestCost : Nat := 2 ^ 32 - 1

/-- There is room for some charges, of whatever cost, and for some cancelled traces. -/
structure HasRoom (m : Machine Ram) (charges cancels : Nat) : Prop where
  cycles : m.cpu.cycles.toNat + charges * largestCost < 2 ^ 64
  cancels : m.bus.traceCancels.toNat + cancels < 2 ^ 32

/-- No more room has been taken than for some charges and some cancelled traces. -/
structure Takes (m m' : Machine Ram) (charges cancels : Nat) : Prop where
  cycles : m'.cpu.cycles.toNat ≤ m.cpu.cycles.toNat + charges * largestCost
  cancels : m'.bus.traceCancels.toNat ≤ m.bus.traceCancels.toNat + cancels

section Room

variable {m m' m'' : Machine Ram} {charges cancels charges' cancels' : Nat}

theorem HasRoom.mono (h : HasRoom m charges' cancels') (hCharges : charges ≤ charges')
    (hCancels : cancels ≤ cancels') : HasRoom m charges cancels := by
  have hMore := Nat.mul_le_mul_right largestCost hCharges
  obtain ⟨hCycles, hCount⟩ := h
  constructor <;> omega

/-- The room that is left. -/
theorem HasRoom.rest (h : HasRoom m (charges + charges') (cancels + cancels'))
    (hTakes : Takes m m' charges cancels) : HasRoom m' charges' cancels' := by
  obtain ⟨hCycles, hCount⟩ := h
  obtain ⟨hTakesCycles, hTakesCount⟩ := hTakes
  rw [Nat.add_mul] at hCycles
  constructor <;> omega

theorem Takes.mono (h : Takes m m' charges cancels) (hCharges : charges ≤ charges')
    (hCancels : cancels ≤ cancels') : Takes m m' charges' cancels' := by
  have hMore := Nat.mul_le_mul_right largestCost hCharges
  obtain ⟨hCycles, hCount⟩ := h
  constructor <;> omega

theorem Takes.trans (h : Takes m m' charges cancels) (hNext : Takes m' m'' charges' cancels') :
    Takes m m'' (charges + charges') (cancels + cancels') := by
  obtain ⟨hCycles, hCount⟩ := h
  obtain ⟨hNextCycles, hNextCount⟩ := hNext
  constructor
  · rw [Nat.add_mul]
    omega
  · omega

theorem SameCounters.takes (h : SameCounters m m') : Takes m m' charges cancels := by
  constructor
  · rw [h.cycles]
    exact Nat.le_add_right _ _
  · rw [h.cancels]
    exact Nat.le_add_right _ _

end Room

/-- Where there is room, no check of `x` fails, and it does what `y` does and takes no more. -/
def PassesWithin (charges cancels : Nat) (x : Checked α) (y : Exec Ram α) : Prop :=
  ∀ m, HasRoom m charges cancels → x m = some (y m) ∧ Takes m (y m).2 charges cancels

section PassesWithin

variable {charges cancels charges' cancels' : Nat} {x : Checked α} {y : Exec Ram α}
  {f : α → Checked γ} {g : α → Exec Ram γ}

theorem Passes.within (h : Passes x y) : PassesWithin charges cancels x y := by
  intro m _
  obtain ⟨hRun, hCounters⟩ := h m
  exact ⟨hRun, hCounters.takes⟩

/-- The first execution leaves the room that the second one needs. -/
theorem PassesWithin.bind (h : PassesWithin charges cancels x y)
    (hNext : ∀ m, PassesWithin charges' cancels' (f (y m).1) (g (y m).1)) :
    PassesWithin (charges + charges') (cancels + cancels') (x >>= f) (y >>= g) := by
  intro m hRoom
  have hFirstRoom := hRoom.mono (Nat.le_add_right charges charges')
    (Nat.le_add_right cancels cancels')
  obtain ⟨hRun, hTakes⟩ := h m hFirstRoom
  obtain ⟨hRest, hTakesRest⟩ := hNext m (y m).2 (hRoom.rest hTakes)
  rw [bind_of_some hRun, bind_apply]
  exact ⟨hRest, hTakes.trans hTakesRest⟩

theorem PassesWithin.mono (h : PassesWithin charges cancels x y) (hCharges : charges ≤ charges')
    (hCancels : cancels ≤ cancels') : PassesWithin charges' cancels' x y := by
  intro m hRoom
  obtain ⟨hRun, hTakes⟩ := h m (hRoom.mono hCharges hCancels)
  exact ⟨hRun, hTakes.mono hCharges hCancels⟩

/-- What takes no room comes first, -/
theorem Passes.bind_within (h : Passes x y)
    (hNext : ∀ m, PassesWithin charges cancels (f (y m).1) (g (y m).1)) :
    PassesWithin charges cancels (x >>= f) (y >>= g) := by
  have hFirst : PassesWithin 0 0 x y := h.within
  have hBoth := hFirst.bind hNext
  rwa [Nat.zero_add, Nat.zero_add] at hBoth

/-- or last. -/
theorem PassesWithin.bind_passes (h : PassesWithin charges cancels x y)
    (hNext : ∀ m, Passes (f (y m).1) (g (y m).1)) :
    PassesWithin charges cancels (x >>= f) (y >>= g) := by
  have hLast (m : Machine Ram) : PassesWithin 0 0 (f (y m).1) (g (y m).1) := (hNext m).within
  exact h.bind hLast

theorem PassesWithin.map (h : PassesWithin charges cancels x y) (p : α → γ) :
    PassesWithin charges cancels (p <$> x) (p <$> y) := by
  rw [map_eq_pure_bind, map_eq_pure_bind]
  exact h.bind_passes fun _ => passes_pure _

end PassesWithin

/-! ### Steps that take room -/

theorem toNat_charged_le (clock : Quad) (cost : Long) :
    (clock + cost.setWidth 64).toNat ≤ clock.toNat + largestCost := by
  have hCost : (cost.setWidth 64).toNat = cost.toNat := BitVec.toNat_setWidth_of_le (by decide)
  have hMost : cost.toNat ≤ largestCost := Nat.le_pred_of_lt cost.isLt
  rw [BitVec.toNat_add, hCost]
  exact Nat.le_trans (Nat.mod_le _ _) (Nat.add_le_add_left hMost _)

/-- A change of the processor that charges once, behind a check of the clock. -/
theorem passesWithin_charged {change : Cpu → Cpu} (cost : Cpu → Long)
    (h : ∀ cpu, (change cpu).cycles = cpu.cycles + (cost cpu).setWidth 64) :
    PassesWithin 1 0
      (getCpu >>= fun cpu =>
        require (cpu.cycles.toNat + (cost cpu).toNat < 2 ^ 64) >>= fun _ => modifyCpu change)
      (Exec.modifyCpu change) := by
  intro m hRoom
  have hMost : (cost m.cpu).toNat ≤ largestCost := Nat.le_pred_of_lt (cost m.cpu).isLt
  have hClock : m.cpu.cycles.toNat + (cost m.cpu).toNat < 2 ^ 64 := by
    have hRoomCycles := hRoom.cycles
    omega
  refine ⟨?_, ?_, Nat.le_add_right _ _⟩
  · show (require (m.cpu.cycles.toNat + (cost m.cpu).toNat < 2 ^ 64) >>= fun _ =>
      modifyCpu change) m = _
    rw [require_of hClock, pure_bind]
    rfl
  · show (change m.cpu).cycles.toNat ≤ _
    rw [h, Nat.one_mul]
    exact toNat_charged_le _ _

theorem passesWithin_charge (cycles : Long) :
    PassesWithin 1 0 (charge cycles) (Exec.modifyCpu (·.charge cycles)) :=
  passesWithin_charged (fun _ => cycles) fun _ => rfl

theorem passesWithin_operate (opmode : Opmode) (destination : RegisterNumber) (source : Double) :
    PassesWithin 1 0 (operate opmode destination.toNat source)
      (Exec.modifyCpu (·.operate opmode destination source)) := by
  simp only [operate, register_toNat, pure_bind]
  refine passesWithin_charged (fun cpu => opmode.cost cpu.costs) fun cpu => ?_
  cases opmode <;> rfl

theorem passesWithin_cancelTrace : PassesWithin 0 1 cancelTrace Exec.cancelTrace := by
  intro m hRoom
  have hCount : m.bus.traceCancels.toNat + 1 < 2 ^ 32 := hRoom.cancels
  refine ⟨?_, Nat.le_add_right _ _, ?_⟩
  · show (require (m.bus.traceCancels.toNat + 1 < 2 ^ 32) >>= fun _ =>
      unchecked Exec.cancelTrace) m = _
    rw [require_of hCount, pure_bind]
    rfl
  · show (m.bus.traceCancels + 1).toNat ≤ _
    rw [BitVec.toNat_add]
    exact Nat.mod_le _ _

/-! ### Operations -/

section Operations

variable {charges cancels charges' cancels' : Nat}

theorem passesWithin_andThen {x : Checked (Except Fault α)} {y : Exec Ram (Except Fault α)}
    {f : α → Checked (Except Fault γ)} {g : α → Exec Ram (Except Fault γ)}
    (h : PassesWithin charges cancels x y)
    (hNext : ∀ a, PassesWithin charges' cancels' (f a) (g a)) :
    PassesWithin (charges + charges') (cancels + cancels') (andThen x f) (Exec.andThen y g) := by
  refine h.bind fun m => ?_
  cases (y m).1 with
  | ok a => exact hNext a
  | error fault => exact (passes_pure _).within

theorem passesWithin_withOperand {field : Byte} {size : Size} {access : Access}
    {use : Mode → Checked α} {use' : Mode → Exec Ram α}
    (h : ∀ mode, Mode.route? field size access = some mode →
      PassesWithin charges cancels (use mode) (use' mode)) :
    PassesWithin charges cancels (withOperand field size access use)
      (Exec.withOperand field size access use') := by
  rw [withOperand, Exec.withOperand]
  cases hRoute : Mode.route? field size access with
  | some mode => exact (h mode hRoute).map _
  | none =>
    refine Passes.within (y := _ >>= _) ?_
    exact fun m => ⟨rfl, rfl, rfl⟩

theorem passesWithin_general (source : Source RegisterNumber) (destination : RegisterNumber)
    (opmode : Opmode) :
    PassesWithin 1 0 (operation (mapNumbers (.general source destination opmode)))
      (Exec.general source destination opmode) := by
  cases source with
  | register n =>
    refine passes_getCpu.bind_within fun m => ?_
    simp only [register_toNat, pure_bind]
    exact (passesWithin_operate opmode destination _).map _
  | memory format =>
    refine passes_getCpu.bind_within fun m => passesWithin_withOperand fun mode hRoute => ?_
    exact (passes_readThrough hRoute).bind_within fun _ => passesWithin_operate _ _ _

theorem passesWithin_store (source : RegisterNumber) (format : Format) :
    PassesWithin 1 0 (store source.toNat format) (Exec.store source format) := by
  refine passes_getCpu.bind_within fun m => ?_
  simp only [register_toNat, pure_bind]
  refine passesWithin_withOperand fun mode hRoute => ?_
  exact (passes_writeThrough hRoute _).bind_within fun _ => passesWithin_charge _

theorem passesWithin_control (access : Access) (register : ControlRegister) :
    PassesWithin 1 0 (control access register) (Exec.control access register) := by
  refine passes_getCpu.bind_within fun m => passesWithin_withOperand fun mode hRoute => ?_
  cases access with
  | write => exact (passes_writeThrough hRoute _).bind_within fun _ => passesWithin_charge _
  | read =>
    refine (passes_readThrough hRoute).bind_within fun m => ?_
    refine Passes.bind_within ?_ fun _ => passesWithin_charge _
    exact passes_modifyCpu fun cpu => by cases register <;> rfl

/-- A register that is loaded from a list is counted down from seven. -/
theorem passesWithin_loaded (bit : RegisterNumber) (value : Double) (cycles : Long) :
    PassesWithin 1 0
      (do
        require (bit.toNat ≤ 7)
        let n ← register (7 - bit.toNat)
        modifyCpu (·.setFp n value)
        .ok <$> charge cycles : Checked (Except Fault Unit))
      (.ok <$> Exec.modifyCpu fun cpu => (cpu.setFp (7 - bit) value).charge cycles) := by
  have hCount : 7 - bit.toNat = (7 - bit).toNat := by
    revert bit
    decide
  have hSet : Passes (modifyCpu (·.setFp (7 - bit) value))
      (Exec.modifyCpu (·.setFp (7 - bit) value)) :=
    passes_modifyCpu fun _ => rfl
  have hCharge : PassesWithin 1 0 (Except.ok <$> charge cycles : Checked (Except Fault Unit))
      (Except.ok <$> Exec.modifyCpu (·.charge cycles)) := (passesWithin_charge cycles).map _
  have hBoth : PassesWithin 1 0
      (modifyCpu (·.setFp (7 - bit) value) >>= fun _ => Except.ok <$> charge cycles)
      (Exec.modifyCpu (·.setFp (7 - bit) value) >>= fun _ =>
        Except.ok <$> Exec.modifyCpu (·.charge cycles)) := hSet.bind_within fun _ => hCharge
  rw [require_of (Nat.le_of_lt_succ bit.isLt), pure_bind, hCount, register_toNat, pure_bind]
  exact hBoth

/-- One register of a list charges once. -/
theorem passesWithin_moveListed (access : Access) (field : Byte) (bit : RegisterNumber) :
    PassesWithin 1 0 (moveListed access field bit.toNat) (Exec.moveListed access field bit) := by
  refine passes_getCpu.bind_within fun m => ?_
  cases access with
  | write =>
    simp only [register_toNat, pure_bind]
    have hWrite : PassesWithin 0 0 (writeExtended field (m.cpu.fp.get bit))
        (Exec.writeExtended field (m.cpu.fp.get bit)) := (passes_writeExtended field _).within
    exact passesWithin_andThen hWrite fun _ => (passesWithin_charge _).map _
  | read =>
    have hRead : PassesWithin 0 0 (readExtended field) (Exec.readExtended field) :=
      (passes_readExtended field).within
    exact passesWithin_andThen hRead fun value => passesWithin_loaded bit value _

/-- By induction on the list, as every register charges for itself. -/
theorem passesWithin_moveAll (access : Access) (field : Byte) (bits : List RegisterNumber) :
    PassesWithin bits.length 0 (moveAll access field (bits.map BitVec.toNat))
      (Exec.moveAll access field bits) := by
  induction bits with
  | nil => exact (passes_pure _).within
  | cons bit bits ih =>
    have hBoth := passesWithin_andThen (passesWithin_moveListed access field bit) fun _ => ih
    rwa [Nat.add_comm] at hBoth

theorem passesWithin_multiple (access : Access) (list : Byte) :
    PassesWithin 8 0 (multiple access list) (Exec.multiple access list) := by
  refine passes_getCpu.bind_within fun m => ?_
  rw [selected_range, pure_bind]
  have hLength : (Exec.listed list).length ≤ 8 := List.length_filter_le _ _
  have hMove := (passesWithin_moveAll access m.cpu.field (Exec.listed list)).mono hLength
    (Nat.le_refl 0)
  have hSay : PassesWithin 0 0 (Except.ok <$> say (.moved access list))
      (Except.ok <$> Exec.say (.moved access list) : Exec Ram (Except Fault Unit)) :=
    ((passes_say _).map _).within
  exact passesWithin_andThen hMove fun _ => hSay

theorem passesWithin_operation (op : Operation RegisterNumber) :
    PassesWithin 8 0 (operation (mapNumbers op)) (Exec.operation op) := by
  have hOne : 1 ≤ 8 := by decide
  cases op with
  | general source destination opmode =>
    exact (passesWithin_general source destination opmode).mono hOne (Nat.le_refl 0)
  | store source format => exact (passesWithin_store source format).mono hOne (Nat.le_refl 0)
  | control access register =>
    exact (passesWithin_control access register).mono hOne (Nat.le_refl 0)
  | multiple access list => exact passesWithin_multiple access list

end Operations

/-! ### Instructions -/

theorem passesWithin_fault (cause : Cause) : PassesWithin 8 1
    (fault cause >>= fun fault => pure (.error fault) : Checked (Except Fault Unit))
    (Exec.fault cause >>= fun fault => pure (.error fault)) := by
  have hFault : Passes (fault cause) (Exec.fault cause) := passes_unchecked fun _ => ⟨rfl, rfl⟩
  exact (hFault.returning _).within

theorem passesWithin_dispatch : PassesWithin 8 1 dispatch Exec.dispatch := by
  refine passes_fetchWord.bind_within fun m => ?_
  cases hWord : Operation.ofExtension (Exec.fetchWord m).1 with
  | error cause => exact passesWithin_fault cause
  | ok op =>
    refine passes_getCpu.bind_within fun _ => (passes_say _).bind_within fun _ => ?_
    rw [numbered_eq hWord]
    exact (passesWithin_operation op).mono (Nat.le_refl 8) (Nat.zero_le 1)

/-- A displacement of a word is far from the end of the signed longs. -/
theorem passes_fetchOffset (form : BranchForm) :
    Passes (fetchOffset form) (Exec.fetchOffset form) := by
  cases form with
  | word =>
    refine passes_fetchWord.bind fun m => ?_
    have hBounds : -0x80000000 ≤ (Exec.fetchWord m).1.toInt - 2 ∧
        (Exec.fetchWord m).1.toInt - 2 < 0x80000000 := Exec.fetchOffset_bounds .word m
    rw [require_of hBounds, pure_bind]
    exact passes_pure _
  | long => exact passes_fetchLong.returning fun long => (long - 4).toInt

theorem passesWithin_jumpIf (condition : Condition) (offset : Int) :
    PassesWithin 0 1 (jumpIf condition offset) (Exec.jumpIf condition offset) := by
  refine passes_getCpu.bind_within fun m => ?_
  split
  · have hJump : Passes (modifyCpu (·.jump offset)) (Exec.modifyCpu (·.jump offset)) :=
      passes_modifyCpu fun _ => rfl
    refine passesWithin_cancelTrace.bind_passes fun _ => ?_
    exact hJump.bind fun _ => passes_getCpu.bind fun _ => passes_say _
  · exact (passes_pure ()).within

theorem passesWithin_branch (form : BranchForm) :
    PassesWithin 8 1 (branch form) (Exec.branch form) := by
  refine passes_getCpu.bind_within fun m => ?_
  have hCpu : (Exec.getCpu m).1 = m.cpu := rfl
  simp only [hCpu]
  cases Condition.ofCode? m.cpu.field with
  | none => exact passesWithin_fault _
  | some condition =>
    have hCharge : PassesWithin 8 0 (Except.ok <$> charge m.cpu.costs.branch)
        (Except.ok <$> Exec.modifyCpu (·.charge m.cpu.costs.branch) :
          Exec Ram (Except Fault Unit)) :=
      ((passesWithin_charge _).map _).mono (by decide) (Nat.le_refl 0)
    refine (passes_fetchOffset form).bind_within fun m' => ?_
    show PassesWithin (0 + 8) (1 + 0) _ _
    exact (passesWithin_jumpIf condition _).bind fun _ => hCharge

theorem passes_saveFrame : Passes saveFrame Exec.saveFrame :=
  passes_getCpu.bind fun _ => (passes_say _).bind fun _ => passes_writeOperand _ .long 0

theorem passes_restoreFrame : Passes restoreFrame Exec.restoreFrame :=
  passes_getCpu.bind fun _ => (passes_say _).bind fun _ => (passes_readOperand _ .long).map _

theorem passesWithin_reporting {charges cancels : Nat} {x : Checked (Except Fault Unit)}
    {y : Exec Ram (Except Fault Unit)} (h : PassesWithin charges cancels x y) :
    PassesWithin charges cancels (reporting x) (Exec.reporting y) := by
  refine h.bind_passes fun m => ?_
  cases (y m).1 with
  | ok a => exact passes_pure _
  | error fault => exact passes_getCpu.bind fun _ => (passes_say _).returning _

theorem passesWithin_generalGroup : PassesWithin 8 1 generalGroup Exec.generalGroup := by
  refine passesWithin_reporting (passes_getCpu.bind_within fun m => ?_)
  rcases Exec.class_cases ((Exec.getCpu m).1.ir.extractLsb' 6 2) with h | h | h | h
  all_goals rw [h]
  · exact passesWithin_dispatch
  · exact passesWithin_fault _
  · exact passesWithin_branch .word
  · exact passesWithin_branch .long

theorem passesWithin_frameGroup : PassesWithin 8 1 frameGroup Exec.frameGroup := by
  refine passesWithin_reporting (passes_getCpu.bind_within fun m => ?_)
  rcases Exec.class_cases ((Exec.getCpu m).1.ir.extractLsb' 6 2) with h | h | h | h
  all_goals rw [h]
  · exact passes_saveFrame.within
  · exact passes_restoreFrame.within
  · exact passesWithin_fault _
  · exact passesWithin_fault _

/-- **An instruction charges at most eight times and cancels at most one trace.** -/
theorem passesWithin_execute (group : Group) : PassesWithin 8 1 (execute group) group.execute := by
  cases group with
  | general => exact passesWithin_generalGroup
  | frame => exact passesWithin_frameGroup

theorem passes_fetchOpcode : Passes fetchOpcode Exec.fetchOpcode :=
  passes_getCpu.bind fun _ => passes_fetchWord.bind fun _ => passes_modifyCpu fun _ => rfl

/-! ### Sessions -/

/-- A host that changes the memory as it likes, but not the count. -/
theorem passesWithin_turn {turn : Turn Ram}
    (hHost : ∀ ram, (turn.host ram).traceCancels = ram.traceCancels) :
    PassesWithin 8 1 (answer (.turn turn)) (Exec.answer (.turn turn)) := by
  have hChange : Passes (unchecked fun m => ((), { m with bus := turn.host m.bus }))
      (fun m => ((), { m with bus := turn.host m.bus })) :=
    passes_unchecked fun m => ⟨rfl, hHost m.bus⟩
  have hTurn : PassesWithin 8 1 (answer (.turn turn))
      ((fun m => ((), { m with bus := turn.host m.bus }) : Exec Ram Unit) >>= fun _ =>
        Exec.fetchOpcode >>= fun _ => .done <$> turn.group.execute) :=
    hChange.bind_within fun _ => passes_fetchOpcode.bind_within fun _ =>
      (passesWithin_execute turn.group).map _
  exact hTurn

/-- Accesses through a field take no room at all. -/
theorem passes_answer {request : Request} (h : request.isTurn = false) :
    Passes (answer request) (Exec.answer request) := by
  cases request with
  | turn turn => cases h
  | read field size => exact (passes_readOperand field size).map _
  | write field size value => exact (passes_writeOperand field size value).map _
  | readExtended field => exact (passes_readExtended field).map _
  | writeExtended field value => exact (passes_writeExtended field value).map _

/-- The room that a session needs, by induction on its requests. -/
theorem passesWithin_serve {requests : List Request}
    (hHosts : ∀ turn, .turn turn ∈ requests →
      ∀ ram, (turn.host ram).traceCancels = ram.traceCancels) :
    PassesWithin (8 * requests.countP Request.isTurn) (requests.countP Request.isTurn)
      (serve requests) (Exec.serve requests) := by
  induction requests with
  | nil => exact (passes_pure _).within
  | cons request requests ih =>
    have hRest := ih fun turn hTurn => hHosts turn (List.mem_cons_of_mem _ hTurn)
    cases hTurn : request.isTurn with
    | false =>
      rw [List.countP_cons_of_neg (by simp [hTurn])]
      exact (passes_answer hTurn).bind_within fun _ => hRest.bind_passes fun _ => passes_pure _
    | true =>
      rw [List.countP_cons_of_pos hTurn, Nat.mul_add, Nat.add_comm (8 * _), Nat.add_comm _ 1]
      have hFirst : PassesWithin 8 1 (answer request) (Exec.answer request) := by
        cases request with
        | turn turn => exact passesWithin_turn (hHosts turn List.mem_cons_self)
        | _ => cases hTurn
      exact hFirst.bind fun _ => hRest.bind_passes fun _ => passes_pure _

end M68kFloat.Checked

namespace M68kFloat

open Checked

/-- **No check fails.**  Take any registers, costs and memory, and counters that start at zero.  In
a session of fewer than 2^29 turns, with as many accesses through fields in between as the host
likes, every check is passed: all register numbers are below eight, nothing is written into the
instruction stream and no sum overflows.  The answers and the machine are those without checks.
Each turn has added at most eight times the largest cost to the clock and one to the count. -/
theorem no_check_fails {m : Machine Ram} {requests : List Request} (hClock : m.cpu.cycles = 0)
    (hCount : m.bus.traceCancels = 0) (hTurns : requests.countP Request.isTurn < 2 ^ 29)
    (hHosts : ∀ turn, .turn turn ∈ requests →
      ∀ ram, (turn.host ram).traceCancels = ram.traceCancels) :
    Checked.serve requests m = some (Exec.serve requests m) ∧
    (Exec.serve requests m).2.cpu.cycles.toNat ≤
      requests.countP Request.isTurn * (8 * (2 ^ 32 - 1)) ∧
    (Exec.serve requests m).2.bus.traceCancels.toNat ≤ requests.countP Request.isTurn := by
  have hClock' : m.cpu.cycles.toNat = 0 := congrArg BitVec.toNat hClock
  have hCount' : m.bus.traceCancels.toNat = 0 := congrArg BitVec.toNat hCount
  have hRoom : HasRoom m (8 * requests.countP Request.isTurn) (requests.countP Request.isTurn) := by
    constructor
    · rw [hClock', largestCost]
      omega
    · rw [hCount']
      omega
  obtain ⟨hRun, hTakes⟩ := passesWithin_serve hHosts m hRoom
  have hCycles := hTakes.cycles
  have hCancels := hTakes.cancels
  rw [hClock', largestCost] at hCycles
  rw [hCount'] at hCancels
  exact ⟨hRun, by omega, by omega⟩

/-- Two registers about to be stored, and a branch after that, where everything costs the most that
it can. -/
def sessionDear : Machine Ram :=
  let m := Machine.begun 0 [0xF227, 0xE005, 0xF28F, 0x0002]
  let most : Long := 0xFFFFFFFF
  { m with
    cpu := { m.cpu with
      costs := ⟨most, most, most, most, most, most, most, most, most, most, most, most, most,
        most⟩ } }

/-- Both instructions, and a read of memory and a write to an immediate operand between them. -/
def sessionRequests : List Request :=
  [.turn ⟨id, .general⟩, .readExtended 0x1F, .write 0x3C .long 7, .turn ⟨id, .general⟩]

theorem no_check_fails_dear :
    Checked.serve sessionRequests sessionDear = some (Exec.serve sessionRequests sessionDear) ∧
    (Exec.serve sessionRequests sessionDear).2.cpu.cycles.toNat = 3 * (2 ^ 32 - 1) ∧
    (Exec.serve sessionRequests sessionDear).2.bus.traceCancels.toNat = 1 := by
  have hHosts : ∀ turn, .turn turn ∈ sessionRequests →
      ∀ ram, (turn.host ram).traceCancels = ram.traceCancels := by
    intro turn hTurn ram
    simp only [sessionRequests, List.mem_cons, Request.turn.injEq, reduceCtorEq, List.not_mem_nil,
      false_or, or_false, or_self] at hTurn
    subst hTurn
    rfl
  obtain ⟨hRun, -, -⟩ := no_check_fails (m := sessionDear) rfl rfl (by decide) hHosts
  exact ⟨hRun, by decide +kernel, by decide +kernel⟩

end M68kFloat
