/-!
# Words of the machine

The names of the fixed-width bit patterns that the processor moves around.  All
arithmetic on them wraps, which is what the address and displacement arithmetic
of the processor does.
-/

namespace M68kFloat

abbrev Byte := BitVec 8

/-- Sixteen bits: an opcode, an extension word, a word operand. -/
abbrev Word := BitVec 16

/-- Thirty-two bits: an address, an integer register, a long operand. -/
abbrev Long := BitVec 32

/-- Sixty-four bits: an operand of any size up to a double, right-aligned. -/
abbrev Quad := BitVec 64

/-- The number of one register among eight. -/
abbrev RegisterNumber := BitVec 3

end M68kFloat
