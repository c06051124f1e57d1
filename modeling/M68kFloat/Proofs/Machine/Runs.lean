import M68kFloat.Machine.Execute

/-!
# Runs

A host calls the unit for one instruction after the other.  In a `Turn` it may first change
what lies behind its bus, though no register; then the opcode at the program counter is
fetched, and the instruction is executed as one of the group that the host has chosen.

`Machine.history` lists the transitions of a run.  What all of them preserve holds of every
machine that is reached (`forall_mem_reached`).
-/

namespace M68kFloat

variable {β : Type}

/-- The groups of opcodes, each with an entry to the unit of its own. -/
inductive Group
  | general
  | frame
  deriving DecidableEq

namespace Group

/-- The top byte of the opcodes of a group. -/
def top : Group → Byte
  | general => 0xF2
  | frame => 0xF3

def execute [Bus β] : Group → Exec β (Except Fault Unit)
  | general => Exec.generalGroup
  | frame => Exec.frameGroup

end Group

/-- What a host does in one turn. -/
structure Turn (β : Type) where
  /-- What becomes of the bus before the unit is called. -/
  host : β → β
  group : Group

/-- A turn taken at a machine. -/
structure Transition (β : Type) where
  before : Machine β
  turn : Turn β

variable [Bus β]

namespace Transition

/-- The machine that has fetched the opcode. -/
def begun (t : Transition β) : Machine β :=
  (Exec.fetchOpcode { t.before with bus := t.turn.host t.before.bus }).2

def result (t : Transition β) : Except Fault Unit := (t.turn.group.execute t.begun).1

def after (t : Transition β) : Machine β := (t.turn.group.execute t.begun).2

end Transition

/-- A step is a turn of a host that calls the unit for the group of the opcode. -/
theorem Exec.step_eq_turn {m : Machine β} {group : Group}
    (h : (fetchOpcode m).2.cpu.ir.extractLsb' 8 8 = group.top) :
    let t : Transition β := ⟨m, id, group⟩
    step m = (.ofResult t.result, t.after) := by
  rw [step, bind_apply, bind_apply, getCpu, h]
  cases group with
  | general => rfl
  | frame => rfl

namespace Machine

/-- The transitions of a run, the first one first. -/
def history (m : Machine β) : List (Turn β) → List (Transition β)
  | [] => []
  | turn :: turns =>
    let t : Transition β := ⟨m, turn⟩
    t :: t.after.history turns

/-- The machines of a run, from the one at which it starts. -/
def reached (m : Machine β) (turns : List (Turn β)) : List (Machine β) :=
  m :: (m.history turns).map Transition.after

/-- The machine at the end of a run. -/
def final (m : Machine β) : List (Turn β) → Machine β
  | [] => m
  | turn :: turns => (Transition.mk m turn).after.final turns

theorem reached_cons (m : Machine β) (turn : Turn β) (turns : List (Turn β)) :
    m.reached (turn :: turns) = m :: (Transition.mk m turn).after.reached turns := rfl

/-- What every transition of a run preserves holds of all its machines. -/
theorem forall_mem_reached {P : Machine β → Prop} {turns : List (Turn β)} {m : Machine β}
    (hFirst : P m) (hStep : ∀ t ∈ m.history turns, P t.before → P t.after) :
    ∀ m' ∈ m.reached turns, P m' := by
  induction turns generalizing m with
  | nil =>
    intro m' hm
    obtain rfl := List.mem_singleton.mp hm
    exact hFirst
  | cons turn turns ih =>
    intro m' hm
    rw [reached_cons] at hm
    rcases List.mem_cons.mp hm with rfl | hm
    · exact hFirst
    · exact ih (hStep _ List.mem_cons_self hFirst)
        (fun t ht => hStep t (List.mem_cons_of_mem _ ht)) m' hm

end Machine

end M68kFloat
