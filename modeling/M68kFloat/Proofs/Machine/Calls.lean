import M68kFloat.Proofs.Operand.Fetching

/-!
# Calls on the bus

What an execution does to the bus is what its calls do to it.  `Machine.Calls m m' calls` says
so of two machines, and such stretches can be put one after the other.  On a `Ram` a byte that
no call writes is left alone (`peek_replay`).

The words of the instruction stream are read at the program counter, which each read moves past
what it has read.  `Machine.Streams` says that `n` bytes have been read this way: the calls are
reads of the stream, and their bytes, taken in order, are the `n` bytes from the program counter
up, each of them once (`BusCall.Tiles`).
-/

namespace M68kFloat

/-- The `n` addresses from `a` up. -/
def addressesFrom (a : Long) (n : Nat) : List Long :=
  (List.range n).map fun i => a + BitVec.ofNat 32 i

theorem addressesFrom_add (a : Long) (n k : Nat) :
    addressesFrom a (n + k) = addressesFrom a n ++ addressesFrom (a + BitVec.ofNat 32 n) k := by
  simp only [addressesFrom, List.range_add, List.map_append, List.map_map]
  congr 1
  refine List.map_congr_left fun i _ => ?_
  simp only [Function.comp_apply, BitVec.ofNat_add, BitVec.add_assoc]

namespace BusCall

variable {β : Type} [Bus β]

/-- What a call does to a bus. -/
def replay (bus : β) : BusCall → β
  | read _ .byte a _ => (Bus.readByte a bus).2
  | read _ .word a _ => (Bus.readWord a bus).2
  | read _ .long a _ => (Bus.readLong a bus).2
  | write .byte a value => Bus.writeByte a (value.setWidth 8) bus
  | write .word a value => Bus.writeWord a (value.setWidth 16) bus
  | write .long a value => Bus.writeLong a value bus
  | cancelTrace => Bus.cancelTrace bus

/-- A call only touches the bytes that it writes. -/
theorem peek_replay_of_not_writes (ram : Ram) {call : BusCall} {b : Long} (h : ¬ call.Writes b) :
    (call.replay ram).memory.peek b = ram.memory.peek b := by
  cases call with
  | read purpose width a value => cases width <;> rfl
  | write width a value =>
    cases width with
    | byte => exact (Memory.written_poke ram.memory a _).peek_of_not_within h
    | word => exact (Memory.written_pokeWord ram.memory a _).peek_of_not_within h
    | long => exact (Memory.written_pokeLong ram.memory a value).peek_of_not_within h
  | cancelTrace => rfl

theorem peek_replay (ram : Ram) {calls : List BusCall} {b : Long}
    (h : ∀ call ∈ calls, ¬ call.Writes b) :
    (calls.foldl replay ram).memory.peek b = ram.memory.peek b := by
  induction calls generalizing ram with
  | nil => rfl
  | cons call calls ih =>
    rw [List.forall_mem_cons] at h
    rw [List.foldl_cons, ih (call.replay ram) h.2, peek_replay_of_not_writes ram h.1]

/-! ### The instruction stream -/

/-- A read of the instruction stream. -/
def IsStream : BusCall → Prop
  | read .stream _ _ _ => True
  | _ => False

/-- A call that moves an operand, in one direction or the other. -/
def MovesOperand (access : Access) : BusCall → Prop
  | read .operand _ _ _ => access = .read
  | write _ _ _ => access = .write
  | _ => False

theorem IsStream.exists_eq {call : BusCall} (h : call.IsStream) :
    ∃ width a value, call = .read .stream width a value := by
  cases call with
  | read purpose width a value =>
    cases purpose with
    | stream => exact ⟨width, a, value, rfl⟩
    | pointer => exact h.elim
    | operand => exact h.elim
  | write width a value => exact h.elim
  | cancelTrace => exact h.elim

/-- An operand is moved by a read of it, or by a write. -/
theorem MovesOperand.exists_eq {call : BusCall} {access : Access} (h : call.MovesOperand access) :
    ∃ width a value, access = .read ∧ call = .read .operand width a value ∨
      access = .write ∧ call = .write width a value := by
  cases call with
  | read purpose width a value =>
    cases purpose with
    | stream => exact h.elim
    | pointer => exact h.elim
    | operand => exact ⟨width, a, value, Or.inl ⟨h, rfl⟩⟩
  | write width a value => exact ⟨width, a, value, Or.inr ⟨h, rfl⟩⟩
  | cancelTrace => exact h.elim

/-- The bytes of the instruction stream that a call reads. -/
def streamed : BusCall → List Long
  | read .stream width a _ => addressesFrom a width.bytes
  | _ => []

/-- The calls read the instruction stream, and what they read are the `n` bytes from `a` up, one
after the other. -/
structure Tiles (a : Long) (n : Nat) (calls : List BusCall) : Prop where
  stream : ∀ call ∈ calls, call.IsStream
  bytes : calls.flatMap streamed = addressesFrom a n

theorem tiles_nil (a : Long) : Tiles a 0 [] := ⟨fun _ h => absurd h List.not_mem_nil, rfl⟩

theorem tiles_single (a value : Long) (width : BusWidth) :
    Tiles a width.bytes [.read .stream width a value] := by
  refine ⟨fun call h => ?_, List.append_nil _⟩
  rw [List.mem_singleton.mp h]
  trivial

theorem Tiles.append {a : Long} {n k : Nat} {calls calls' : List BusCall} (h : Tiles a n calls)
    (h' : Tiles (a + BitVec.ofNat 32 n) k calls') : Tiles a (n + k) (calls ++ calls') where
  stream call hCall := (List.mem_append.mp hCall).elim (h.stream call) (h'.stream call)
  bytes := by rw [List.flatMap_append, h.bytes, h'.bytes, addressesFrom_add]

theorem streamed_ne_nil {call : BusCall} (h : call.IsStream) : call.streamed ≠ [] := by
  obtain ⟨width, a, value, rfl⟩ := h.exists_eq
  cases width <;> exact List.cons_ne_nil _ _

theorem IsStream.not_writes {call : BusCall} (h : call.IsStream) (b : Long) : ¬ call.Writes b := by
  obtain ⟨width, a, value, rfl⟩ := h.exists_eq
  exact id

theorem streamed_of_movesOperand {call : BusCall} {access : Access} (h : call.MovesOperand access) :
    call.streamed = [] := by
  obtain ⟨width, a, value, ⟨-, rfl⟩ | ⟨-, rfl⟩⟩ := h.exists_eq <;> rfl

/-- Where nothing has been read, there was no call. -/
theorem Tiles.eq_nil {a : Long} {calls : List BusCall} (h : Tiles a 0 calls) : calls = [] := by
  cases calls with
  | nil => rfl
  | cons call calls =>
    have hNone : (call :: calls).flatMap streamed = [] := h.bytes
    rw [List.flatMap_cons, List.append_eq_nil_iff] at hNone
    exact absurd hNone.1 (streamed_ne_nil (h.stream call List.mem_cons_self))

end BusCall

open BusCall

variable {β : Type} [Bus β]

/-! ### Stretches of an execution -/

namespace Machine

/-- Between two machines there were these calls, and nothing else has happened to the bus. -/
structure Calls (m m' : Machine β) (calls : List BusCall) : Prop where
  recorded : m'.calls = m.calls ++ calls
  bus : m'.bus = calls.foldl BusCall.replay m.bus

theorem calls_nil {m m' : Machine β} (hCalls : m'.calls = m.calls) (hBus : m'.bus = m.bus) :
    Calls m m' [] := ⟨by rw [hCalls, List.append_nil], hBus⟩

theorem Calls.trans {m m' m'' : Machine β} {calls calls' : List BusCall} (h : Calls m m' calls)
    (h' : Calls m' m'' calls') : Calls m m'' (calls ++ calls') where
  recorded := by rw [h'.recorded, h.recorded, List.append_assoc]
  bus := by rw [h'.bus, h.bus, List.foldl_append]

/-- The next `n` bytes of the instruction stream have been read. -/
structure Streams (m m' : Machine β) (n : Nat) (calls : List BusCall) : Prop where
  cpu : m'.cpu = m.cpu.advance (BitVec.ofNat 32 n)
  made : Calls m m' calls
  tiles : Tiles m.cpu.pc n calls

theorem streams_nil (m : Machine β) : Streams m m 0 [] :=
  ⟨(Cpu.advance_zero m.cpu).symm, calls_nil rfl rfl, tiles_nil _⟩

theorem Streams.trans {m m' m'' : Machine β} {n k : Nat} {calls calls' : List BusCall}
    (h : Streams m m' n calls) (h' : Streams m' m'' k calls') :
    Streams m m'' (n + k) (calls ++ calls') where
  cpu := by rw [h'.cpu, h.cpu, Cpu.advance_advance, BitVec.ofNat_add]
  made := h.made.trans h'.made
  tiles := by
    refine h.tiles.append ?_
    have hTiles := h'.tiles
    rwa [h.cpu] at hTiles

/-- The word that the instruction stream holds at the program counter. -/
def nextWord (m : Machine β) : Word := (Bus.readWord m.cpu.pc m.bus).1

end Machine

namespace Exec

open Machine

theorem streams_fetchWord (m : Machine β) : Streams m (fetchWord m).2 2
    [.read .stream .word m.cpu.pc (m.nextWord.setWidth 32)] :=
  ⟨rfl, ⟨rfl, rfl⟩, tiles_single _ _ .word⟩

theorem streams_fetchLong (m : Machine β) : ∃ calls, Streams m (fetchLong m).2 4 calls :=
  ⟨_, rfl, ⟨rfl, rfl⟩, tiles_single _ _ .long⟩

end Exec

end M68kFloat
