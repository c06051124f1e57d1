import M68kFloat.Proofs.Machine.Checked
import M68kFloat.Proofs.Operand.Address

/-!
# Stacks

An address register that a predecrement moves down and a postincrement moves up is a stack.  What is
pushed on it (`Item`) takes 4, 8 or 12 bytes, and pushes and pops nest (`Nesting`): what is pushed
and popped between a push and its pop lies below.

`push_apply` and `pop_apply` say what one step does, and `stacked` by induction over the nesting what
all of them do: every pop gives what its push was given (`pops_return_pushes`), as long as the stack
does not run once around the memory.  An extended image is pushed with the zeros that fill it up and
popped without them, so its 12 bytes are moved over in both directions though only 8 are read.
-/

namespace M68kFloat

open Memory Exec

/-! ### Pushes and pops -/

/-- What is pushed at once. -/
inductive Item
  | long (value : Quad)
  | double (value : Quad)
  | extended (value : Double)

namespace Item

def size : Item → Size
  | long _ => .long
  | double _ => .double
  | extended _ => .extended

def value : Item → Quad
  | long value | double value => value
  | extended value => value.bits

/-- The number of bytes that an item takes. -/
def bytes (item : Item) : Nat := item.size.bytes

/-- The item is written through a field, which is to name a predecrement. -/
def push (down : Byte) : Item → Request
  | long value => .write down .long value
  | double value => .write down .double value
  | extended value => .writeExtended down value

/-- An item of its size is read through a field, which is to name a postincrement. -/
def pop (up : Byte) : Item → Request
  | long _ => .read up .long
  | double _ => .read up .double
  | extended _ => .readExtended up

/-- The answer to the pop of an item.  A long is cut to its bits. -/
def popped : Item → Answer
  | long value => .operand (.ok ((value.setWidth 32).setWidth 64))
  | double value => .operand (.ok value)
  | extended value => .double (.ok value)

end Item

/-- Pushes and pops that match: nothing, or an item that is pushed, what happens on top of it, its
pop, and what happens after. -/
inductive Nesting
  | nothing
  | around (item : Item) (inner rest : Nesting)

namespace Nesting

def requests (down up : Byte) : Nesting → List Request
  | nothing => []
  | around item inner rest =>
    item.push down :: (inner.requests down up ++ item.pop up :: rest.requests down up)

/-- Every push is done, and every pop is answered by the item of its push. -/
def answers : Nesting → List Answer
  | nothing => []
  | around item inner rest => .done (.ok ()) :: (inner.answers ++ item.popped :: rest.answers)

/-- The greatest number of bytes on the stack. -/
def depth : Nesting → Nat
  | nothing => 0
  | around item inner rest => max (item.bytes + inner.depth) rest.depth

end Nesting

/-! ### One request after the other -/

/-- A request together with the machine that it is put to. -/
structure Service where
  before : Machine Ram
  request : Request

def Service.after (s : Service) : Machine Ram := (answer s.request s.before).2

/-- The requests together with the machines that they find. -/
def Machine.services (m : Machine Ram) : List Request → List Service
  | [] => []
  | request :: requests => ⟨m, request⟩ :: (answer request m).2.services requests

theorem Exec.serve_cons (request : Request) (requests : List Request) (m : Machine Ram) :
    serve (request :: requests) m =
      ((answer request m).1 :: (serve requests (answer request m).2).1,
        (serve requests (answer request m).2).2) := rfl

theorem Exec.serve_append (requests requests' : List Request) (m : Machine Ram) :
    serve (requests ++ requests') m =
      ((serve requests m).1 ++ (serve requests' (serve requests m).2).1,
        (serve requests' (serve requests m).2).2) := by
  induction requests generalizing m with
  | nil => rfl
  | cons request requests ih =>
    rw [List.cons_append, serve_cons, ih, serve_cons]
    rfl

theorem Machine.services_append (requests requests' : List Request) (m : Machine Ram) :
    m.services (requests ++ requests') =
      m.services requests ++ (serve requests m).2.services requests' := by
  induction requests generalizing m with
  | nil => rfl
  | cons request requests ih =>
    rw [List.cons_append, services, ih]
    rfl

/-- What no service changes is not changed by all of them. -/
theorem Exec.peek_serve {requests : List Request} {m : Machine Ram} {b : Long}
    (h : ∀ s ∈ m.services requests, s.after.bus.memory.peek b = s.before.bus.memory.peek b) :
    (serve requests m).2.bus.memory.peek b = m.bus.memory.peek b := by
  induction requests generalizing m with
  | nil => rfl
  | cons request requests ih =>
    obtain ⟨hFirst, hOthers⟩ := List.forall_mem_cons.mp h
    rw [serve_cons]
    exact (ih hOthers).trans hFirst

/-! ### One push and one pop -/

namespace Item

variable {n : RegisterNumber} {down up : Byte}

/-- **One push** moves the register down and puts the item where it then points. -/
theorem push_apply (hDown : Mode.ofField? down = some (.predecrement n)) (item : Item)
    (m : Machine Ram) :
    let a := m.cpu.a.get n - BitVec.ofNat 32 item.bytes
    (answer (item.push down) m).1 = .done (.ok ()) ∧
      (answer (item.push down) m).2.cpu = m.cpu.setA n a ∧
      (answer (item.push down) m).2.bus = m.bus.modify (·.putOperand a item.size item.value) := by
  have hRoute (size : Size) (h : (Mode.predecrement n).allows size .write = true) :
      Mode.route? down size .write = some (.predecrement n) := route_eq_some.mpr ⟨hDown, h⟩
  have hCpu (size : Size) : m.cpuThrough (.predecrement n) size =
      m.cpu.setA n (m.cpu.a.get n - BitVec.ofNat 32 size.bytes) := Cpu.advance_zero _
  cases item with
  | long value =>
    obtain ⟨hOk, hAfter, hBus⟩ := writeOperand_at (hRoute .long rfl) (m := m) rfl value
    exact ⟨congrArg Answer.done hOk, hAfter.trans (hCpu .long), hBus⟩
  | double value =>
    obtain ⟨hOk, hAfter, hBus⟩ := writeOperand_at (hRoute .double rfl) (m := m) rfl value
    exact ⟨congrArg Answer.done hOk, hAfter.trans (hCpu .double), hBus⟩
  | extended value =>
    obtain ⟨hOk, hAfter, hBus⟩ := writeExtended_at (hRoute .extended rfl) (m := m) rfl value
    exact ⟨congrArg Answer.done hOk, hAfter.trans (hCpu .extended), hBus⟩

/-- **One pop** reads the item that the register points to and moves the register up. -/
theorem pop_apply (hUp : Mode.ofField? up = some (.postincrement n)) (item : Item)
    (m : Machine Ram) :
    let a := m.cpu.a.get n
    (m.bus.memory.operand a item.size = (item.value.setWidth (8 * item.bytes)).setWidth 64 →
      (answer (item.pop up) m).1 = item.popped) ∧
      (answer (item.pop up) m).2.cpu = m.cpu.setA n (a + BitVec.ofNat 32 item.bytes) ∧
      (answer (item.pop up) m).2.bus = m.bus := by
  have hRoute (size : Size) (h : (Mode.postincrement n).allows size .read = true) :
      Mode.route? up size .read = some (.postincrement n) := route_eq_some.mpr ⟨hUp, h⟩
  have hCpu (size : Size) : m.cpuThrough (.postincrement n) size =
      m.cpu.setA n (m.cpu.a.get n + BitVec.ofNat 32 size.bytes) := Cpu.advance_zero _
  cases item with
  | long value =>
    obtain ⟨hOk, hAfter, hBus⟩ := readOperand_at (hRoute .long rfl) (m := m) rfl
    refine ⟨fun hValue => ?_, hAfter.trans (hCpu .long), hBus⟩
    exact congrArg Answer.operand (hOk.trans (congrArg Except.ok hValue))
  | double value =>
    obtain ⟨hOk, hAfter, hBus⟩ := readOperand_at (hRoute .double rfl) (m := m) rfl
    refine ⟨fun hValue => ?_, hAfter.trans (hCpu .double), hBus⟩
    have hWhole : (value.setWidth 64).setWidth 64 = value := by simp
    exact congrArg Answer.operand (hOk.trans (congrArg Except.ok (hValue.trans hWhole)))
  | extended value =>
    obtain ⟨hOk, hAfter, hBus⟩ := readExtended_at (hRoute .extended rfl) (m := m) rfl
    refine ⟨fun hValue => ?_, hAfter.trans (hCpu .extended), hBus⟩
    have hWhole : (value.bits.setWidth 96).setWidth 64 = value.bits := by simp
    exact congrArg Answer.double
      (hOk.trans (congrArg (fun bits => Except.ok (Double.mk bits)) (hValue.trans hWhole)))

end Item

/-! ### All of them -/

/-- The service pushes an item or pops one, which moves the register by the bytes of the item. -/
def Service.Steps (s : Service) (n : RegisterNumber) (down up : Byte) : Prop :=
  ∃ item : Item, let bytes := BitVec.ofNat 32 item.bytes
    (s.request = item.push down ∧
      s.after.cpu = s.before.cpu.setA n (s.before.cpu.a.get n - bytes)) ∨
    (s.request = item.pop up ∧
      s.after.cpu = s.before.cpu.setA n (s.before.cpu.a.get n + bytes))

/-- What the requests of a nesting do. -/
structure Nesting.Stacked (w : Nesting) (n : RegisterNumber) (down up : Byte)
    (m : Machine Ram) : Prop where
  answers : (serve (w.requests down up) m).1 = w.answers
  cpu : (serve (w.requests down up) m).2.cpu = m.cpu
  steps : ∀ s ∈ m.services (w.requests down up), s.Steps n down up
  memory : ∀ s ∈ m.services (w.requests down up), ∀ b,
    ¬ Within (m.cpu.a.get n - BitVec.ofNat 32 w.depth) w.depth b →
      s.after.bus.memory.peek b = s.before.bus.memory.peek b

section

variable {n : RegisterNumber} {down up : Byte}
  (hDown : Mode.ofField? down = some (.predecrement n))
  (hUp : Mode.ofField? up = some (.postincrement n))

include hDown hUp

/-- **An item outlasts what is stacked on it**, so its pop gives it back and leaves the processor as
it was before the push. -/
theorem Item.pop_over (item : Item) {inner : Nesting} {m : Machine Ram}
    (hInner : inner.Stacked n down up (answer (item.push down) m).2)
    (hRoom : item.bytes + inner.depth ≤ 2 ^ 24) :
    let below := (serve (inner.requests down up) (answer (item.push down) m).2).2
    (answer (item.pop up) below).1 = item.popped ∧
      (answer (item.pop up) below).2.cpu = m.cpu := by
  obtain ⟨-, hPushCpu, hPushBus⟩ := item.push_apply hDown m
  have hA : (answer (item.push down) m).2.cpu.a.get n =
      m.cpu.a.get n - BitVec.ofNat 32 item.bytes := by
    rw [hPushCpu, Cpu.a_setA_self]
  -- the inner requests write below the item only
  have hKept (b : Long) (hb : Within (m.cpu.a.get n - BitVec.ofNat 32 item.bytes) item.bytes b) :
      (serve (inner.requests down up) (answer (item.push down) m).2).2.bus.memory.peek b =
        (answer (item.push down) m).2.bus.memory.peek b :=
    peek_serve fun s hs => hInner.memory s hs b (by
      rw [hA]
      exact not_within_sub_of_within hb hRoom)
  intro below
  obtain ⟨hValue, hPopCpu, -⟩ := item.pop_apply hUp below
  have hBelowCpu : below.cpu = m.cpu.setA n (m.cpu.a.get n - BitVec.ofNat 32 item.bytes) :=
    hInner.cpu.trans hPushCpu
  have hBelowA : below.cpu.a.get n = m.cpu.a.get n - BitVec.ofNat 32 item.bytes := by
    rw [hBelowCpu, Cpu.a_setA_self]
  rw [hBelowA] at hValue hPopCpu
  constructor
  · refine hValue ((operand_congr hKept).trans ?_)
    rw [hPushBus]
    exact operand_putOperand ..
  · rw [hPopCpu, hBelowCpu, BitVec.sub_add_cancel, Cpu.setA, Cpu.setA, Table.set_set,
      Table.set_get_self]

theorem Nesting.stacked (w : Nesting) (hDepth : w.depth ≤ 2 ^ 24) (m : Machine Ram) :
    w.Stacked n down up m := by
  induction w generalizing m with
  | nothing =>
    exact ⟨rfl, rfl, fun _ h => absurd h List.not_mem_nil, fun _ h => absurd h List.not_mem_nil⟩
  | around item inner rest ihInner ihRest =>
    obtain ⟨hOver, hBeside⟩ := Nat.max_le.mp hDepth
    have hInner := ihInner (by omega) (answer (item.push down) m).2
    obtain ⟨hPushed, hPushCpu, hPushBus⟩ := item.push_apply hDown m
    obtain ⟨hPopped, hPopCpu⟩ := item.pop_over hDown hUp hInner hOver
    have hRest := ihRest hBeside
      (answer (item.pop up) (serve (inner.requests down up) (answer (item.push down) m).2).2).2
    have hA : (answer (item.push down) m).2.cpu.a.get n =
        m.cpu.a.get n - BitVec.ofNat 32 item.bytes := by
      rw [hPushCpu, Cpu.a_setA_self]
    have hBlock (b : Long)
        (hb : Within (m.cpu.a.get n - BitVec.ofNat 32 item.bytes) item.bytes b ∨
          Within (m.cpu.a.get n - BitVec.ofNat 32 item.bytes - BitVec.ofNat 32 inner.depth)
            inner.depth b) :
        Within (m.cpu.a.get n - BitVec.ofNat 32 (around item inner rest).depth)
          (around item inner rest).depth b :=
      within_sub_mono ((within_add_iff hOver).mpr hb) (Nat.le_max_left ..) hDepth
    constructor
    case answers =>
      rw [requests, serve_cons, serve_append, serve_cons, hPushed, hInner.answers, hPopped,
        hRest.answers]
      rfl
    case cpu =>
      rw [requests, serve_cons, serve_append, serve_cons]
      exact hRest.cpu.trans hPopCpu
    case steps =>
      rw [requests, Machine.services, Machine.services_append, Machine.services,
        List.forall_mem_cons, List.forall_mem_append, List.forall_mem_cons]
      exact ⟨⟨item, Or.inl ⟨rfl, hPushCpu⟩⟩, hInner.steps,
        ⟨item, Or.inr ⟨rfl, (item.pop_apply hUp _).2.1⟩⟩, hRest.steps⟩
    case memory =>
      rw [requests, Machine.services, Machine.services_append, Machine.services,
        List.forall_mem_cons, List.forall_mem_append, List.forall_mem_cons]
      refine ⟨fun b hb => ?_, fun s hs b hb => hInner.memory s hs b fun hWithin => hb ?_,
        fun b _ => ?_, fun s hs b hb => hRest.memory s hs b fun hWithin => hb ?_⟩
      · rw [Service.after, hPushBus]
        exact Written.peek_of_not_within (written_putOperand _ _ _ _)
          fun hWithin => hb (hBlock b (.inl hWithin))
      · rw [hA] at hWithin
        exact hBlock b (.inr hWithin)
      · rw [Service.after, (item.pop_apply hUp _).2.2]
      · rw [hPopCpu] at hWithin
        exact within_sub_mono hWithin (Nat.le_max_right ..) hDepth

/-- **Pops give what was pushed.**

For whatever nesting of pushes and pops that does not go once around the memory, whatever the
register points to and whatever the memory holds: every pop is answered by the item of its push,
the processor is as it was before, every step moves the register by the bytes of its item and
changes nothing else of the processor, and neither a step nor all of them change a byte outside of
those that the stack came to take below the register. -/
theorem pops_return_pushes (w : Nesting) (hDepth : w.depth ≤ 2 ^ 24) (m : Machine Ram) :
    let after := (serve (w.requests down up) m).2
    let top := m.cpu.a.get n - BitVec.ofNat 32 w.depth
    (serve (w.requests down up) m).1 = w.answers ∧
      after.cpu = m.cpu ∧
      (∀ s ∈ m.services (w.requests down up), s.Steps n down up ∧
        ∀ b, ¬ Within top w.depth b → s.after.bus.memory.peek b = s.before.bus.memory.peek b) ∧
      ∀ b, ¬ Within top w.depth b → after.bus.memory.peek b = m.bus.memory.peek b := by
  have h := w.stacked hDown hUp hDepth m
  exact ⟨h.answers, h.cpu, fun s hs => ⟨h.steps s hs, h.memory s hs⟩,
    fun b hb => peek_serve fun s hs => h.memory s hs b hb⟩

end

/-- An extended image and then a double on top of a long. -/
def mixedSizes : Nesting :=
  .around (.long 0x123456789) (.around (.extended ⟨0x3FF0000000000000⟩) .nothing
    (.around (.double 0xFFF0000000000001) .nothing .nothing)) .nothing

/-- A7 points to address four. -/
def stackedAtFour : Machine Ram :=
  let m := Machine.begun 0xF200 []
  { m with cpu := m.cpu.setA 7 4 }

theorem pops_return_pushes_mixed :
    mixedSizes.depth = 16 ∧
      (serve (mixedSizes.requests 0x27 0x1F) stackedAtFour).1 =
        [.done (.ok ()), .done (.ok ()), .double (.ok ⟨0x3FF0000000000000⟩), .done (.ok ()),
          .operand (.ok 0xFFF0000000000001), .operand (.ok 0x23456789)] ∧
      (serve (mixedSizes.requests 0x27 0x1F) stackedAtFour).2.cpu = stackedAtFour.cpu := by
  have hDown : Mode.ofField? 0x27 = some (.predecrement 7) := by decide
  have hUp : Mode.ofField? 0x1F = some (.postincrement 7) := by decide
  have hDepth : mixedSizes.depth ≤ 2 ^ 24 := by decide
  have hAnswers : mixedSizes.answers = [.done (.ok ()), .done (.ok ()),
      .double (.ok ⟨0x3FF0000000000000⟩), .done (.ok ()), .operand (.ok 0xFFF0000000000001),
      .operand (.ok 0x23456789)] := rfl
  obtain ⟨hServed, hCpu, -⟩ := pops_return_pushes hDown hUp mixedSizes hDepth stackedAtFour
  exact ⟨by decide, hServed.trans hAnswers, hCpu⟩

end M68kFloat
