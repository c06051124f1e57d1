import M68kFloat.Proofs.Machine.Steps
import M68kFloat.Proofs.Memory.Operand

/-!
# Executions that fetch

Finding an operand takes words from the instruction stream and perhaps a pointer from
memory.  `Fetches x` says of an execution on a `Ram` that this is all it does: it moves the
program counter, its calls on the bus are reads, and another machine with the same
processor, whose memory answers these reads alike, goes through it with the same result.

Such executions compose (`Fetches.bind`), so `indexedAddress` is one for every index word
(`fetches_indexedAddress`).  A call is answered by the bytes it covers, and what lies
elsewhere does not matter (`BusCall.AnsweredBy.congr`).
-/

namespace M68kFloat

open Memory

/-- The number of bytes that an access of a width covers. -/
def BusWidth.bytes : BusWidth → Nat
  | byte => 1
  | word => 2
  | long => 4

namespace BusCall

/-- The call reads the byte at `b`. -/
def Reads (b : Long) : BusCall → Prop
  | read _ width a _ => Within a width.bytes b
  | _ => False

/-- The call writes the byte at `b`. -/
def Writes (b : Long) : BusCall → Prop
  | write width a _ => Within a width.bytes b
  | _ => False

/-- The call is a read that a memory answers with the value recorded. -/
def AnsweredBy (memory : Memory) : BusCall → Prop
  | read _ .byte a value => value = (memory.peek a).setWidth 32
  | read _ .word a value => value = (memory.peekWord a).setWidth 32
  | read _ .long a value => value = memory.peekLong a
  | _ => False

theorem AnsweredBy.congr {memory memory' : Memory} {call : BusCall}
    (h : call.AnsweredBy memory) (hSame : ∀ b, call.Reads b → memory'.peek b = memory.peek b) :
    call.AnsweredBy memory' := by
  cases call with
  | read purpose width a value =>
    cases width with
    | byte =>
      have hByte := ((reads_peek memory a).congr (by decide) hSame).unique (n := 1)
        (reads_peek memory' a)
      exact h.trans (congrArg (BitVec.setWidth 32) hByte)
    | word =>
      have hWord := ((reads_peekWord memory a).congr (by decide) hSame).unique (n := 2)
        (reads_peekWord memory' a)
      exact h.trans (congrArg (BitVec.setWidth 32) hWord)
    | long =>
      have hLong := ((reads_peekLong memory a).congr (by decide) hSame).unique (n := 4)
        (reads_peekLong memory' a)
      exact h.trans hLong
  | write width a value => exact h
  | cancelTrace => exact h

theorem AnsweredBy.not_writes {memory : Memory} {call : BusCall} (h : call.AnsweredBy memory)
    (b : Long) : ¬ call.Writes b := by
  cases call with
  | read purpose width a value => exact id
  | write width a value => exact h.elim
  | cancelTrace => exact id

end BusCall

theorem Cpu.advance_zero (cpu : Cpu) : cpu.advance 0 = cpu := by
  have hPc : cpu.pc + 0 = cpu.pc := BitVec.add_zero _
  rw [advance, hPc]

theorem Cpu.advance_advance (cpu : Cpu) (bytes bytes' : Long) :
    (cpu.advance bytes).advance bytes' = cpu.advance (bytes + bytes') := by
  simp only [advance, BitVec.add_assoc]

namespace Exec

variable {α γ : Type}

/-- The machine that has moved past words of the instruction stream with some calls. -/
def fetched (m : Machine Ram) (bytes : Long) (reads : List BusCall) : Machine Ram :=
  { m with cpu := m.cpu.advance bytes, calls := m.calls ++ reads }

theorem fetched_nothing (m : Machine Ram) : fetched m 0 [] = m := by
  rw [fetched, Cpu.advance_zero, List.append_nil]

theorem fetched_fetched (m : Machine Ram) (bytes bytes' : Long) (reads reads' : List BusCall) :
    fetched (fetched m bytes reads) bytes' reads' = fetched m (bytes + bytes') (reads ++ reads') := by
  simp only [fetched, Cpu.advance_advance, List.append_assoc]

/-- An execution that only fetches: what it reads is what its result depends on. -/
def Fetches (x : Exec Ram α) : Prop :=
  ∀ m, ∃ bytes reads, (∀ call ∈ reads, call.AnsweredBy m.bus.memory) ∧
    ∀ m', m'.cpu = m.cpu → (∀ call ∈ reads, call.AnsweredBy m'.bus.memory) →
      x m' = ((x m).1, fetched m' bytes reads)

theorem fetches_of_eq {x : Exec Ram α} {f : Cpu → α} (h : ∀ m, x m = (f m.cpu, m)) :
    Fetches x := by
  intro m
  refine ⟨0, [], fun call hCall => absurd hCall List.not_mem_nil, fun m' hCpu _ => ?_⟩
  rw [h, h, hCpu, fetched_nothing]

/-- One read at a time. -/
theorem fetches_of_call {x : Exec Ram α} (bytes : Long) (call : Machine Ram → BusCall)
    (hCall : ∀ m, (call m).AnsweredBy m.bus.memory)
    (hRun : ∀ m m', m'.cpu = m.cpu → (call m).AnsweredBy m'.bus.memory →
      x m' = ((x m).1, fetched m' bytes [call m])) : Fetches x := by
  intro m
  refine ⟨bytes, [call m], ?_, ?_⟩
  · rw [List.forall_mem_singleton]
    exact hCall m
  · intro m' hCpu hAnswer
    rw [List.forall_mem_singleton] at hAnswer
    exact hRun m m' hCpu hAnswer

theorem fetches_pure (a : α) : Fetches (pure a) := fetches_of_eq (f := fun _ => a) fun _ => rfl

theorem fetches_getCpu : Fetches getCpu := fetches_of_eq (f := id) fun _ => rfl

theorem Fetches.bind {x : Exec Ram α} {f : α → Exec Ram γ} (hx : Fetches x)
    (hf : ∀ a, Fetches (f a)) : Fetches (x >>= f) := by
  intro m
  obtain ⟨bytes, reads, hReads, hRun⟩ := hx m
  have hFirst := hRun m rfl hReads
  obtain ⟨bytes', reads', hReads', hRun'⟩ := hf (x m).1 (fetched m bytes reads)
  refine ⟨bytes + bytes', reads ++ reads', ?_, ?_⟩
  · intro call hCall
    rcases List.mem_append.mp hCall with h | h
    · exact hReads call h
    · exact hReads' call h
  · intro m' hCpu hAnswers
    rw [List.forall_mem_append] at hAnswers
    have hCpu' : (fetched m' bytes reads).cpu = (fetched m bytes reads).cpu := by
      rw [fetched, fetched, hCpu]
    rw [bind_apply, bind_apply, hRun m' hCpu hAnswers.1, hFirst, hRun' _ hCpu' hAnswers.2,
      fetched_fetched]

theorem Fetches.map {x : Exec Ram α} (f : α → γ) (hx : Fetches x) : Fetches (f <$> x) :=
  hx.bind fun a => fetches_pure (f a)

theorem Fetches.bus {x : Exec Ram α} (h : Fetches x) (m : Machine Ram) : (x m).2.bus = m.bus := by
  obtain ⟨bytes, reads, hReads, hRun⟩ := h m
  rw [hRun m rfl hReads]
  rfl

/-! ### The instruction stream and the pointer -/

/-- The read of the next word. -/
def wordRead (m : Machine Ram) : BusCall :=
  .read .stream .word m.cpu.pc ((m.bus.memory.peekWord m.cpu.pc).setWidth 32)

theorem fetchWord_ram (m : Machine Ram) :
    fetchWord m = (m.bus.memory.peekWord m.cpu.pc, fetched m 2 [wordRead m]) := rfl

/-- The read of the next long. -/
def longRead (m : Machine Ram) : BusCall :=
  .read .stream .long m.cpu.pc (m.bus.memory.peekLong m.cpu.pc)

theorem fetchLong_ram (m : Machine Ram) :
    fetchLong m = (m.bus.memory.peekLong m.cpu.pc, fetched m 4 [longRead m]) := by
  rw [fetchLong, bind_apply, getCpu_apply, bind_apply, readLong_apply]
  rfl

theorem fetches_fetchWord : Fetches fetchWord := by
  refine fetches_of_call 2 wordRead (fun m => rfl) fun m m' hCpu hAnswer => ?_
  have hWord := congrArg (BitVec.setWidth 16) hAnswer
  rw [BitVec.setWidth_setWidth_of_le _ (by decide), BitVec.setWidth_setWidth_of_le _ (by decide),
    BitVec.setWidth_eq, BitVec.setWidth_eq] at hWord
  rw [fetchWord_ram, fetchWord_ram, wordRead, wordRead, hCpu, hWord]

theorem fetches_fetchLong : Fetches fetchLong := by
  refine fetches_of_call 4 longRead (fun m => rfl) fun m m' hCpu hAnswer => ?_
  have hLong : m.bus.memory.peekLong m.cpu.pc = m'.bus.memory.peekLong m.cpu.pc := hAnswer
  rw [fetchLong_ram, fetchLong_ram, longRead, longRead, hCpu, hLong]

theorem fetches_fetchDisplacement (width : DisplacementWidth) :
    Fetches (fetchDisplacement width) := by
  cases width with
  | null => exact fetches_pure 0
  | word => exact fetches_fetchWord.bind fun _ => fetches_pure _
  | long => exact fetches_fetchLong

theorem fetches_readPointer (a : Long) : Fetches (readLong .pointer a) := by
  refine fetches_of_call 0 (fun m => .read .pointer .long a (m.bus.memory.peekLong a))
    (fun m => rfl) fun m m' _ hAnswer => ?_
  have hLong : m.bus.memory.peekLong a = m'.bus.memory.peekLong a := hAnswer
  rw [readLong_apply, readLong_apply, hLong, fetched, Cpu.advance_zero]

/-- **Every index word is followed by fetching alone**, a pointer included. -/
theorem fetches_indexedAddress (base : Long) : Fetches (indexedAddress base) := by
  refine fetches_fetchWord.bind fun word => fetches_getCpu.bind fun cpu => ?_
  cases IndexWord.ofWord word with
  | brief index displacement => exact fetches_pure _
  | full hasBase index width indirection =>
    refine (fetches_fetchDisplacement width).bind fun displacement => ?_
    cases indirection with
    | direct => exact fetches_pure _
    | preindexed outer =>
      exact (fetches_fetchDisplacement outer).bind fun _ =>
        (fetches_readPointer _).bind fun _ => fetches_pure _
    | postindexed outer =>
      exact (fetches_fetchDisplacement outer).bind fun _ =>
        (fetches_readPointer _).bind fun _ => fetches_pure _

end Exec

end M68kFloat
