import M68kFloat.Proofs.Machine.Messages
import M68kFloat.Proofs.Text.Lines

/-!
# The log of a run

The messages of a run are those of its transitions, one after the other, and those of a transition
come in stages: the instruction is announced, then its operands are told, and then its rejection.
A message of one kind belongs to one stage, so it is counted there and nowhere else
(`Transition.exists_reports`): a taken branch and a decoded extension word in the announcement, a
register that a list moves among the operands.  Up to the last theorem kinds are told by the data
of a message, and there by its level and its first words (`Message.begins`).

Taken branches are also counted by the bus.  `Group.exists_cancels` says for any bus that the calls
of an instruction cancel a trace just when it jumps.
-/

namespace M68kFloat

open Machine (Calls)

/-! ### Kinds of messages -/

namespace Message

/-- The part of an instruction to which a message belongs. -/
inductive Stage
  | announcing
  | reporting
  | rejecting
  deriving DecidableEq

def stage : Message → Stage
  | dispatched .. | branched .. | saving _ | restoring _ => .announcing
  | extended .. | moved .. | refused _ => .reporting
  | rejected .. => .rejecting

theorem stage_of_isDispatched {message : Message} (h : message.isDispatched = true) :
    message.stage = .announcing := by
  cases message <;> first | rfl | cases h

theorem stage_of_isBranched {message : Message} (h : message.isBranched = true) :
    message.stage = .announcing := by
  cases message <;> first | rfl | cases h

theorem stage_of_isExtended {access : Access} {message : Message}
    (h : message.isExtended access = true) : message.stage = .reporting := by
  cases message <;> first | rfl | cases h

theorem stage_of_isRejected {message : Message} (h : message.isRejected = true) :
    message.stage = .rejecting := by
  cases message <;> first | rfl | cases h

/-- A message is not found at a stage to which its kind does not belong. -/
theorem countP_of_stage {p : Message → Bool} {stage stage' : Stage} {messages : List Message}
    (h : ∀ message ∈ messages, message.stage = stage)
    (hKind : ∀ {message : Message}, p message = true → message.stage = stage')
    (hOther : stage' ≠ stage) : messages.countP p = 0 :=
  List.countP_eq_zero.mpr fun message hMessage hp =>
    hOther ((hKind hp).symm.trans (h message hMessage))

end Message

open Message

theorem countP_extended (access access' : Access) (places : List Place) :
    (places.map (extended access')).countP (isExtended access) =
      if access' = access then places.length else 0 := by
  rw [List.countP_map]
  by_cases h : access' = access
  · rw [if_pos h, List.countP_eq_length]
    intro place _
    exact decide_eq_true h
  · rw [if_neg h, List.countP_eq_zero]
    intro place _ hExtended
    exact h (of_decide_eq_true hExtended)

variable {β : Type} [Bus β]

/-! ### The stages of an instruction -/

namespace Instruction

/-- Whether an instruction has an extension word. -/
def isOperation : Instruction → Bool
  | operation _ => true
  | _ => false

/-- The number of registers that an instruction moves by a list in one direction. -/
def listed (access : Access) : Instruction → Nat
  | operation (.multiple access' list) => if access' = access then list.cpop.toNat else 0
  | _ => 0

theorem listed_of_other {ins : Instruction}
    (h : ∀ access list, ins ≠ operation (.multiple access list)) (access : Access) :
    ins.listed access = 0 := by
  unfold listed
  split
  · exact absurd rfl (h _ _)
  · rfl

variable (ins : Instruction) (m : Machine β)

theorem stage_of_announced : ∀ message ∈ ins.announced m, message.stage = .announcing := by
  intro message hMessage
  cases ins with
  | branch condition form =>
    rw [announced] at hMessage
    split at hMessage
    · obtain rfl := List.mem_singleton.mp hMessage
      rfl
    · cases hMessage
  | _ =>
    obtain rfl := List.mem_singleton.mp hMessage
    rfl

theorem countP_isBranched :
    (ins.announced m).countP isBranched = (ins.jumps m.cpu.codes).toNat := by
  cases ins with
  | branch condition form =>
    rw [announced, jumps]
    cases condition.holds m.cpu.codes <;> rfl
  | _ => rfl

theorem countP_isDispatched :
    (ins.announced m).countP isDispatched = ins.isOperation.toNat := by
  cases ins with
  | branch condition form =>
    rw [announced]
    split <;> rfl
  | _ => rfl

end Instruction

namespace Machine.Told

variable {m : Machine β} {ins? : Option Instruction} {result : Except Fault Unit}
  {messages : List Message}

/-- Operands come after the announcement, and of these the images are counted by the list. -/
theorem exists_reports (h : m.Told ins? result messages) :
    ∃ reports, messages = ins?.elim [] (fun ins => ins.announced m) ++ reports ∧
      (∀ message ∈ reports, message.stage = .reporting) ∧
      ∀ access, reports.countP (isExtended access) =
        if result.isOk then ins?.elim 0 fun ins => ins.listed access else 0 := by
  cases h with
  | undecoded => exact ⟨[], rfl, nofun, fun _ => rfl⟩
  | @refused ins fault hJumps =>
    exact ⟨[.refused fault], rfl, List.forall_mem_singleton.mpr rfl, fun _ => rfl⟩
  | @listed ins access list places hIns hLength =>
    subst hIns
    refine ⟨_, rfl, ?_, ?_⟩
    · rw [List.forall_mem_append, List.forall_mem_singleton]
      refine ⟨?_, rfl⟩
      intro message hMessage
      obtain ⟨place, -, rfl⟩ := List.mem_map.mp hMessage
      rfl
    · intro access'
      rw [List.countP_append, countP_extended, hLength]
      rfl
  | @done ins hOther =>
    exact ⟨[], (List.append_nil _).symm, nofun,
      fun access => (Instruction.listed_of_other hOther access).symm⟩

theorem jumps_of_error {fault : Fault} (h : m.Told ins? (.error fault) messages) :
    (ins?.any fun ins => ins.jumps m.cpu.codes) = false := by
  cases h with
  | undecoded => rfl
  | refused hJumps => exact hJumps

end Machine.Told

/-! ### Cancelled traces -/

namespace BusCall

theorem traceCancels_replay (ram : Ram) (call : BusCall) :
    (call.replay ram).traceCancels =
      ram.traceCancels + BitVec.ofNat 32 ([call].count .cancelTrace) := by
  cases call with
  | read purpose width a value => cases width <;> exact (BitVec.add_zero _).symm
  | write width a value => cases width <;> exact (BitVec.add_zero _).symm
  | cancelTrace => rfl

theorem traceCancels_foldl (ram : Ram) (calls : List BusCall) :
    (calls.foldl replay ram).traceCancels =
      ram.traceCancels + BitVec.ofNat 32 (calls.count .cancelTrace) := by
  induction calls generalizing ram with
  | nil => exact (BitVec.add_zero _).symm
  | cons call calls ih =>
    rw [List.foldl_cons, ih, traceCancels_replay, BitVec.add_assoc, ← BitVec.ofNat_add,
      ← List.count_append]
    rfl

theorem count_of_isStream {calls : List BusCall} (h : ∀ call ∈ calls, call.IsStream) :
    calls.count .cancelTrace = 0 :=
  List.count_eq_zero.mpr fun hCall => h _ hCall

theorem Pointer.count {uses : Bool} {calls : List BusCall} (h : Pointer uses calls) :
    calls.count .cancelTrace = 0 := by
  rcases h.eq_nil_or with rfl | ⟨a, value, rfl⟩ <;> rfl

end BusCall

/-- The calls of the operands of an instruction cancel no trace. -/
theorem Operand.count_calls (operand? : Option Operand) (m : Machine β) (values : List Quad) :
    (operand?.elim [] fun operand => operand.calls m values).count .cancelTrace = 0 := by
  cases operand? with
  | none => rfl
  | some operand =>
    exact List.count_eq_zero.mpr fun hCall => operand.movesOperand_calls m values _ hCall

/-- **An instruction cancels a trace just when it jumps.** -/
theorem Group.exists_cancels (group : Group) (m : Machine β) :
    ∃ calls, Calls m (group.execute m).2 calls ∧ calls.count .cancelTrace =
      ((m.instruction? group).any fun ins => ins.jumps m.cpu.codes).toNat := by
  obtain ⟨messages, hTold, -⟩ := group.exists_told m
  cases hResult : (group.execute m).1 with
  | ok _ =>
    obtain ⟨ins, values, hWords, hExecuted⟩ := group.exists_executed hResult
    obtain ⟨stream, hPrepares⟩ := ins.exists_prepares m
    obtain ⟨words, pointer, hCalls, hTiles, hPointer⟩ := hExecuted.exists_calls hPrepares
    refine ⟨_, hCalls, ?_⟩
    rw [List.count_append, List.count_append, List.count_append,
      BusCall.count_of_isStream hTiles.stream, hPointer.count, Operand.count_calls, hWords,
      Instruction.cancels]
    show _ = (ins.jumps m.cpu.codes).toNat
    cases ins.jumps m.cpu.codes <;> rfl
  | error fault =>
    rw [hResult] at hTold
    rw [hTold.jumps_of_error]
    rcases group.left_of_error hResult with hSame | hFetched
    · exact ⟨[], Machine.calls_nil hSame.calls hSame.bus, rfl⟩
    · exact ⟨_, ⟨hFetched.calls, hFetched.bus⟩, rfl⟩

/-! ### Transitions -/

namespace Transition

variable (t : Transition β)

/-- The messages of a transition. -/
def said : List Message := t.after.messages.drop t.before.messages.length

/-- The instruction of a transition, if its words decode to one. -/
def instruction? : Option Instruction := t.begun.instruction? t.turn.group

def announced : List Message := t.instruction?.elim [] fun ins => ins.announced t.begun

/-- Whether an extension word decodes. -/
def dispatches : Bool := t.instruction?.any Instruction.isOperation

/-- Whether the instruction is a branch whose condition holds. -/
def jumps : Bool := t.instruction?.any fun ins => ins.jumps t.before.cpu.codes

/-- The number of registers that a transition moves by a list in one direction, which is none if it
ends in a fault. -/
def listed (access : Access) : Nat :=
  (t.begun.accepted? t.turn.group).elim 0 fun ins => ins.listed access

/-- The message about a rejected instruction, with its opcode and its fault. -/
def rejection? : Option Message :=
  match t.result with
  | .ok _ => none
  | .error fault => some (.rejected t.begun.cpu.ir fault)

/-- The text about a rejected instruction. -/
def rejectionText? : Option String :=
  match t.result with
  | .ok _ => none
  | .error fault => some ("rejected " ++ hexadecimal t.begun.cpu.ir ++ ": " ++ fault.text)

theorem text_rejection : t.rejection?.map Message.text = t.rejectionText? := by
  rw [rejection?, rejectionText?]
  cases t.result <;> rfl

theorem listed_eq (access : Access) : t.listed access =
    if t.result.isOk then t.instruction?.elim 0 fun ins => ins.listed access else 0 := by
  rw [listed, Machine.accepted?]
  show Option.elim (if t.result.isOk then t.instruction? else none) 0 _ = _
  split <;> rfl

/-- **The messages of a transition in their stages.** -/
theorem exists_reports : ∃ reports,
    t.after.messages = t.before.messages ++ t.said ∧
      t.said = t.announced ++ (reports ++ t.rejection?.toList) ∧
      (∀ message ∈ reports, message.stage = .reporting) ∧
      ∀ access, reports.countP (isExtended access) = t.listed access := by
  obtain ⟨messages, hTold, hSays⟩ := t.turn.group.exists_told t.begun
  obtain ⟨reports, rfl, hStage, hCount⟩ := hTold.exists_reports
  have hRejections : Exec.rejections t.begun.cpu.ir t.result = t.rejection?.toList := by
    rw [rejection?]
    cases t.result <;> rfl
  have hAfter : t.after.messages = t.before.messages ++
      (t.announced ++ (reports ++ t.rejection?.toList)) := by
    rw [← hRejections]
    exact Eq.trans hSays (congrArg _ (List.append_assoc _ _ _))
  have hSaid : t.said = _ := (congrArg _ hAfter).trans List.drop_left
  refine ⟨reports, ?_, hSaid, hStage, ?_⟩
  · rw [hSaid]
    exact hAfter
  · intro access
    rw [listed_eq]
    exact hCount access

theorem stage_of_announced : ∀ message ∈ t.announced, message.stage = .announcing := by
  rw [announced]
  cases t.instruction? with
  | none => nofun
  | some ins => exact ins.stage_of_announced t.begun

theorem stage_of_rejection : ∀ message ∈ t.rejection?.toList, message.stage = .rejecting := by
  rw [rejection?]
  cases t.result with
  | ok _ => nofun
  | error fault => exact List.forall_mem_singleton.mpr rfl

theorem messages_after : t.after.messages = t.before.messages ++ t.said := by
  obtain ⟨reports, hAfter, -⟩ := t.exists_reports
  exact hAfter

/-- What belongs to the announcement is counted there. -/
theorem countP_announced {p : Message → Bool}
    (hKind : ∀ {message : Message}, p message = true → message.stage = .announcing) :
    t.said.countP p = t.announced.countP p := by
  obtain ⟨reports, -, hSaid, hReports, -⟩ := t.exists_reports
  rw [hSaid, List.countP_append, List.countP_append,
    countP_of_stage hReports hKind (by decide),
    countP_of_stage t.stage_of_rejection hKind (by decide)]
  rfl

theorem countP_isBranched : t.said.countP isBranched = t.jumps.toNat := by
  rw [t.countP_announced stage_of_isBranched, announced, jumps]
  cases t.instruction? with
  | none => rfl
  | some ins => exact ins.countP_isBranched t.begun

theorem countP_isDispatched : t.said.countP isDispatched = t.dispatches.toNat := by
  rw [t.countP_announced stage_of_isDispatched, announced, dispatches]
  cases t.instruction? with
  | none => rfl
  | some ins => exact ins.countP_isDispatched t.begun

theorem countP_isExtended (access : Access) :
    t.said.countP (isExtended access) = t.listed access := by
  obtain ⟨reports, -, hSaid, -, hCount⟩ := t.exists_reports
  rw [hSaid, List.countP_append, List.countP_append, hCount,
    countP_of_stage t.stage_of_announced stage_of_isExtended (by decide),
    countP_of_stage t.stage_of_rejection stage_of_isExtended (by decide), Nat.zero_add]
  rfl

theorem filter_isRejected : t.said.filter isRejected = t.rejection?.toList := by
  obtain ⟨reports, -, hSaid, hReports, -⟩ := t.exists_reports
  have hNone {stage : Stage} {messages : List Message}
      (h : ∀ message ∈ messages, message.stage = stage) (hOther : .rejecting ≠ stage) :
      messages.filter isRejected = [] := by
    rw [← List.length_eq_zero_iff, ← List.countP_eq_length_filter]
    exact countP_of_stage h stage_of_isRejected hOther
  have hAll : t.rejection?.toList.filter isRejected = t.rejection?.toList := by
    rw [rejection?]
    cases t.result <;> rfl
  rw [hSaid, List.filter_append, List.filter_append, hAll,
    hNone t.stage_of_announced (by decide), hNone hReports (by decide)]
  rfl

theorem countP_isRejected : t.said.countP isRejected = (!t.result.isOk).toNat := by
  rw [List.countP_eq_length_filter, t.filter_isRejected, rejection?]
  cases t.result <;> rfl

/-- The text about an extension word that is decoded. -/
def dispatchText (op : Operation RegisterNumber) : String :=
  hexadecimal t.before.cpu.pc ++ ": " ++ hexadecimal t.begun.cpu.ir ++ " " ++
    hexadecimal t.begun.nextWord ++ " " ++ op.text

/-- **An extension word that decodes is told first**, and only then. -/
theorem dispatched_first {op : Operation RegisterNumber}
    (h : t.instruction? = some (.operation op)) : ∃ first rest, t.said = first :: rest ∧
      first.level = "TRACE" ∧ first.text = t.dispatchText op ∧
      ∀ message ∈ rest, ∀ start : Long,
        message.begins "TRACE" (hexadecimal start ++ ": ") = false := by
  obtain ⟨reports, -, hSaid, -⟩ := t.exists_reports
  have hOnce := t.countP_isDispatched
  rw [announced, h] at hSaid
  rw [dispatches, h, hSaid, List.countP_append] at hOnce
  -- the announcement is the one message that is counted
  have hRest : 1 + (reports ++ t.rejection?.toList).countP isDispatched = 1 + 0 := hOnce
  have hNone := List.countP_eq_zero.mp (Nat.add_left_cancel hRest)
  exact ⟨_, reports ++ t.rejection?.toList, hSaid, rfl, rfl,
    fun message hMessage => not_begins_address (Bool.eq_false_iff.mpr (hNone message hMessage))⟩

theorem not_dispatched (h : ∀ op, t.instruction? ≠ some (.operation op)) :
    ∀ message ∈ t.said, ∀ start : Long,
      message.begins "TRACE" (hexadecimal start ++ ": ") = false := by
  have hDispatches : t.dispatches = false := by
    rw [dispatches]
    cases hIns : t.instruction? with
    | none => rfl
    | some ins =>
      cases ins with
      | operation op => exact absurd hIns (h op)
      | _ => rfl
  have hCount := t.countP_isDispatched
  rw [hDispatches] at hCount
  have hNone := List.countP_eq_zero.mp hCount
  exact fun message hMessage =>
    not_begins_address (Bool.eq_false_iff.mpr (hNone message hMessage))

end Transition

/-! ### Runs -/

theorem countP_cons_toNat {α : Type} (p : α → Bool) (a : α) (l : List α) :
    (a :: l).countP p = (p a).toNat + l.countP p := by
  rw [List.countP_cons, Nat.add_comm]
  cases p a <;> rfl

/-- Messages of a kind are counted by the transitions that send one. -/
theorem countP_log {p : Message → Bool} {sends : Transition β → Bool}
    (h : ∀ t : Transition β, t.said.countP p = (sends t).toNat) (history : List (Transition β)) :
    (history.flatMap Transition.said).countP p = history.countP sends := by
  induction history with
  | nil => rfl
  | cons t history ih =>
    rw [List.flatMap_cons, List.countP_append, ih, h, countP_cons_toNat]

theorem filter_log (history : List (Transition β)) :
    (history.flatMap Transition.said).filter isRejected =
      history.filterMap Transition.rejection? := by
  rw [List.filter_flatMap, List.filterMap_eq_flatMap_toList]
  exact congrArg (history.flatMap ·) (funext Transition.filter_isRejected)

namespace Machine

theorem messages_final (m : Machine β) (turns : List (Turn β)) :
    (m.final turns).messages = m.messages ++ (m.history turns).flatMap Transition.said := by
  induction turns generalizing m with
  | nil => exact (List.append_nil _).symm
  | cons turn turns ih =>
    have hFirst := (Transition.mk m turn).messages_after
    have hRest := ih (Transition.mk m turn).after
    rw [hFirst, List.append_assoc] at hRest
    exact hRest

end Machine

/-- A host that leaves the count of a bus alone finds it raised by one where a branch is taken. -/
theorem Transition.traceCancels_after {t : Transition Ram}
    (hHost : ∀ ram, (t.turn.host ram).traceCancels = ram.traceCancels) :
    t.after.bus.traceCancels = t.before.bus.traceCancels + BitVec.ofNat 32 t.jumps.toNat := by
  obtain ⟨calls, hCalls, hCount⟩ := t.turn.group.exists_cancels t.begun
  have hBus : t.after.bus = calls.foldl BusCall.replay t.begun.bus := hCalls.bus
  have hBegun : t.begun.bus.traceCancels = (t.turn.host t.before.bus).traceCancels := rfl
  rw [hBus, BusCall.traceCancels_foldl, hCount, hBegun, hHost]
  rfl

theorem Machine.traceCancels_final (m : Machine Ram) {turns : List (Turn Ram)}
    (hHosts : ∀ turn ∈ turns, ∀ ram, (turn.host ram).traceCancels = ram.traceCancels) :
    (m.final turns).bus.traceCancels =
      m.bus.traceCancels + BitVec.ofNat 32 ((m.history turns).countP Transition.jumps) := by
  induction turns generalizing m with
  | nil => exact (BitVec.add_zero _).symm
  | cons turn turns ih =>
    rw [List.forall_mem_cons] at hHosts
    have hFirst : (Transition.mk m turn).after.bus.traceCancels = _ :=
      Transition.traceCancels_after hHosts.1
    have hRest := ih (Transition.mk m turn).after hHosts.2
    rw [hFirst, BitVec.add_assoc, ← BitVec.ofNat_add] at hRest
    rw [history, countP_cons_toNat]
    exact hRest

/-- **The log accounts for a run.**  From any machine, for any turns of a host that leaves the count
of its bus alone: the messages that are added are those of the transitions.  The count grows by the
number of the branches whose condition held, and so many branches are told.  The rejections that
are told are those of the transitions that end in a fault, one by one, with opcode and fault.  The
extended images that are told are as many as the registers in the lists that were moved.  And a
transition tells its extension word if that decodes, first of all and once. -/
theorem messages_over_runs (m : Machine Ram) (turns : List (Turn Ram))
    (hHosts : ∀ turn ∈ turns, ∀ ram, (turn.host ram).traceCancels = ram.traceCancels) :
    let history := m.history turns
    let log := history.flatMap Transition.said
    let taken := history.countP Transition.jumps
    (m.final turns).messages = m.messages ++ log ∧
    (m.final turns).bus.traceCancels = m.bus.traceCancels + BitVec.ofNat 32 taken ∧
    (taken < 2 ^ 32 → ((m.final turns).bus.traceCancels - m.bus.traceCancels).toNat = taken) ∧
    log.countP tellsBranch = taken ∧
    (log.filter (begins "DEBUG" "rejected ")).map text =
      history.filterMap Transition.rejectionText? ∧
    log.countP (begins "DEBUG" "rejected ") = history.countP (fun t => !t.result.isOk) ∧
    (∀ access : Access, log.countP (begins "DEBUG" ("extended " ++ access.text ++ " at ")) =
      (history.map (Transition.listed · access)).sum) ∧
    ∀ t ∈ history,
      (∀ op, t.instruction? = some (.operation op) → ∃ first rest, t.said = first :: rest ∧
        first.level = "TRACE" ∧ first.text = t.dispatchText op ∧
        ∀ message ∈ rest, ∀ start : Long,
          message.begins "TRACE" (hexadecimal start ++ ": ") = false) ∧
      ((∀ op, t.instruction? ≠ some (.operation op)) → ∀ message ∈ t.said, ∀ start : Long,
        message.begins "TRACE" (hexadecimal start ++ ": ") = false) := by
  intro history log taken
  have hCancels := m.traceCancels_final hHosts
  have hBranched : isBranched = tellsBranch := funext isBranched_eq
  have hRejected : isRejected = begins "DEBUG" "rejected " := funext isRejected_eq
  have hExtended (access : Access) : isExtended access = begins "DEBUG" (imageWords access) :=
    funext (isExtended_eq access)
  refine ⟨m.messages_final turns, hCancels, ?_, ?_, ?_, ?_, ?_, ?_⟩
  · intro hTaken
    rw [hCancels, BitVec.add_comm, BitVec.add_sub_cancel, BitVec.toNat_ofNat,
      Nat.mod_eq_of_lt hTaken]
  · rw [← hBranched]
    exact countP_log Transition.countP_isBranched history
  · rw [← hRejected, filter_log, List.map_filterMap]
    exact congrArg (List.filterMap · history) (funext Transition.text_rejection)
  · rw [← hRejected]
    exact countP_log Transition.countP_isRejected history
  · intro access
    show log.countP (begins "DEBUG" (imageWords access)) = _
    rw [← hExtended, List.countP_flatMap]
    exact congrArg List.sum (List.map_congr_left fun t _ => t.countP_isExtended access)
  · intro t _
    exact ⟨fun op => t.dispatched_first, t.not_dispatched⟩

/-- A branch that is taken and one that is not, an opcode of no instruction, two registers stored,
a list through a mode that is not allowed, a sum and a frame. -/
def logsMixed : Machine Ram :=
  .begun 0 [0xF28F, 0x0002, 0xF280, 0x0002, 0xF240, 0xF227, 0xE005, 0xF210, 0xE001, 0xF200, 0x0022,
    0xF350]

def logsMixedTurns : List (Turn Ram) :=
  [⟨id, .general⟩, ⟨id, .general⟩, ⟨id, .general⟩, ⟨id, .general⟩, ⟨id, .general⟩, ⟨id, .general⟩,
    ⟨id, .frame⟩]

theorem messages_over_runs_mixed :
    let history := logsMixed.history logsMixedTurns
    let log := history.flatMap Transition.said
    (logsMixed.final logsMixedTurns).messages = log ∧
    ((logsMixed.final logsMixedTurns).bus.traceCancels - logsMixed.bus.traceCancels).toNat = 1 ∧
    log.countP tellsBranch = 1 ∧
    (log.filter (begins "DEBUG" "rejected ")).map text =
      ["rejected F240: unimplemented main op 1 at 0000100A",
        "rejected F210: illegal extended write through mode 2, reg 0 at 00001010"] ∧
    log.countP (begins "DEBUG" "extended write at ") = 2 ∧
    log.countP (begins "DEBUG" "extended read at ") = 0 := by
  have hId : ∀ turn ∈ logsMixedTurns, turn.host = id := by simp [logsMixedTurns]
  have hHosts : ∀ turn ∈ logsMixedTurns,
      ∀ ram, (turn.host ram).traceCancels = ram.traceCancels := by
    intro turn hTurn ram
    rw [hId turn hTurn]
    rfl
  have hTaken : (logsMixed.history logsMixedTurns).countP Transition.jumps = 1 := by
    decide +kernel
  obtain ⟨hMessages, -, hCancels, hBranched, hRejected, -, hExtended, -⟩ :=
    messages_over_runs logsMixed logsMixedTurns hHosts
  rw [hTaken] at hCancels hBranched
  refine ⟨hMessages, hCancels (by decide), hBranched, hRejected.trans ?_,
    (hExtended .write).trans ?_, (hExtended .read).trans ?_⟩
  · decide +kernel
  · decide +kernel
  · decide +kernel

end M68kFloat
