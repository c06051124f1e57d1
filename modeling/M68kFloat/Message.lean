import M68kFloat.Condition
import M68kFloat.Operand.Place
import M68kFloat.Operation

/-!
# Messages

What the unit tells its host while it executes instructions.  Each message has a
level and a text; nothing else depends on them.
-/

namespace M68kFloat

inductive Message
  /-- An extension word was decoded. -/
  | dispatched (start : Long) (opcode extension : Word) (operation : Operation RegisterNumber)
  /-- A branch was taken to an address. -/
  | branched (condition : Condition) (target : Long)
  /-- A multiple move is complete. -/
  | moved (access : Access) (list : Byte)
  /-- A state frame is about to be saved. -/
  | saving (start : Long)
  /-- A state frame is about to be restored. -/
  | restoring (start : Long)
  /-- An extended image is about to be accessed. -/
  | extended (access : Access) (place : Place)
  /-- An operand may not be accessed. -/
  | refused (fault : Fault)
  /-- The instruction was rejected. -/
  | rejected (opcode : Word) (fault : Fault)
  deriving DecidableEq

namespace Message

def level : Message → String
  | dispatched .. | branched .. | moved .. => "TRACE"
  | saving _ | restoring _ | extended .. | refused _ | rejected .. => "DEBUG"

def text : Message → String
  | dispatched start opcode extension operation =>
    hexadecimal start ++ ": " ++ hexadecimal opcode ++ " " ++ hexadecimal extension ++ " " ++
      operation.text
  | branched condition target => "FB" ++ condition.name ++ " taken to " ++ hexadecimal target
  | moved access list => "FMOVEM " ++ access.text ++ " list " ++ binary list
  | saving start => "FSAVE at " ++ hexadecimal start ++ " writes a null frame"
  | restoring start => "FRESTORE at " ++ hexadecimal start ++ " discards its frame"
  | extended .read place => "extended read at " ++ place.text ++ " truncated to double"
  | extended .write place => "extended write at " ++ place.text ++ " stored as double"
  | refused fault => fault.text
  | rejected opcode fault => "rejected " ++ hexadecimal opcode ++ ": " ++ fault.text

/-- The message with its level. -/
def line (message : Message) : String := message.level ++ " " ++ message.text

end Message

end M68kFloat
