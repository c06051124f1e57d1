import M68kFloat.Word

/-!
# Index words

The indexed addressing modes are followed by an index word in one of two forms.
The brief form adds an index register and a byte displacement to the base.  The
full form may leave out the base or the index, adds a base displacement of up to a
long, and may go through a pointer in memory, to whose value an outer displacement
is added.

This module only reads the word; what the parts are added to is decided where the
operand is located.
-/

namespace M68kFloat

/-- An index register with the part of it that counts and its scale. -/
structure Index where
  /-- Whether the register is an address register. -/
  address : Bool
  register : RegisterNumber
  /-- Whether all of the register counts, and not only its low word. -/
  long : Bool
  /-- The number of places that the value is shifted left. -/
  scale : BitVec 2
  deriving DecidableEq

/-- The width of a displacement in the instruction stream. -/
inductive DisplacementWidth
  /-- No displacement: zero. -/
  | null
  | word
  | long
  deriving DecidableEq

/-- Whether and how an address goes through a pointer. -/
inductive Indirection
  | direct
  /-- The index is added to the address of the pointer. -/
  | preindexed (outer : DisplacementWidth)
  /-- The index is added to the pointer. -/
  | postindexed (outer : DisplacementWidth)
  deriving DecidableEq

inductive IndexWord
  | brief (index : Index) (displacement : Byte)
  | full (base : Bool) (index : Option Index) (displacement : DisplacementWidth)
      (indirection : Indirection)
  deriving DecidableEq

/-- The width that two bits name; both unused codes are null. -/
def DisplacementWidth.ofBits : BitVec 2 → DisplacementWidth
  | 2#2 => word
  | 3#2 => long
  | _ => null

/-- The indirection that three bits name.  All three clear is none; otherwise the
top bit puts the index after the pointer and the rest is the width of the outer
displacement. -/
def Indirection.ofBits (bits : BitVec 3) : Indirection :=
  let outer := DisplacementWidth.ofBits (bits.extractLsb' 0 2)
  if bits = 0 then direct
  else if bits.msb then postindexed outer
  else preindexed outer

def Index.ofWord (word : Word) : Index where
  address := word.getLsbD 15
  register := word.extractLsb' 12 3
  long := word.getLsbD 11
  scale := word.extractLsb' 9 2

/-- The parts of an index word. -/
def IndexWord.ofWord (word : Word) : IndexWord :=
  if word.getLsbD 8 then
    full (!word.getLsbD 7)
      (if word.getLsbD 6 then none else some (Index.ofWord word))
      (.ofBits (word.extractLsb' 4 2))
      (.ofBits (word.extractLsb' 0 3))
  else brief (Index.ofWord word) (word.setWidth 8)

end M68kFloat
