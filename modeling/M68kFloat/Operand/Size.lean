/-!
# Operand sizes and directions

An operand has one of five sizes and is either read or written.
-/

namespace M68kFloat

inductive Size
  | byte
  | word
  | long
  | double
  /-- An extended image, of which only the first two longs carry a value. -/
  | extended
  deriving DecidableEq

namespace Size

def all : List Size := [byte, word, long, double, extended]

/-- The number of bytes that an operand takes in memory. -/
def bytes : Size → Nat
  | byte => 1
  | word => 2
  | long => 4
  | double => 8
  | extended => 12

def text : Size → String
  | byte => "byte"
  | word => "word"
  | long => "long"
  | double => "double"
  | extended => "extended"

end Size

/-- The direction in which an operand moves. -/
inductive Access
  /-- From the operand into the unit. -/
  | read
  /-- From the unit to the operand. -/
  | write
  deriving DecidableEq

def Access.text : Access → String
  | read => "read"
  | write => "write"

end M68kFloat
