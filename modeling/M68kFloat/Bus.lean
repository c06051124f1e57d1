import M68kFloat.Word

/-!
# The bus

The unit reaches memory through a bus of its host.  A bus answers reads and takes
writes of three widths and changes as it does so; nothing is assumed about what its
answers have to do with each other.  It is also told when a taken branch cancels the
trace of an instruction, which it may ignore.

A `BusCall` is the record of one such call.
-/

namespace M68kFloat

/-- A bus whose state is a `β`. -/
class Bus (β : Type) where
  readByte : Long → β → Byte × β
  readWord : Long → β → Word × β
  readLong : Long → β → Long × β
  writeByte : Long → Byte → β → β
  writeWord : Long → Word → β → β
  writeLong : Long → Long → β → β
  /-- What a taken branch does to the bus. -/
  cancelTrace : β → β := id

/-- The width of a bus access. -/
inductive BusWidth
  | byte
  | word
  | long
  deriving DecidableEq

/-- What a read is for. -/
inductive Purpose
  /-- The next words of the instruction stream. -/
  | stream
  /-- The pointer of a memory-indirect address. -/
  | pointer
  | operand
  deriving DecidableEq

/-- A call on the bus.  The value of an access narrower than a long is extended with
zeros. -/
inductive BusCall
  | read (purpose : Purpose) (width : BusWidth) (address value : Long)
  | write (width : BusWidth) (address value : Long)
  | cancelTrace
  deriving DecidableEq

end M68kFloat
