import M68kFloat.Operand.Size
import M68kFloat.Binary.Conversion

/-!
# Operand formats

Three bits of an extension word specify the format of an operand in memory.  Five
of the eight formats are implemented; a `Format` is one of these, and `Specifier`
adds the others, which are known by name only.

`Format.load` turns an operand, right-aligned in a quad, into the double it stands
for, and `Format.store` turns a double into an operand.  Loads are exact.  Bits of
the quad above the operand are ignored by a load and clear after a store.
-/

namespace M68kFloat

/-- An implemented operand format. -/
inductive Format
  /-- A 32-bit signed integer. -/
  | long
  /-- A single-precision pattern. -/
  | single
  /-- A 16-bit signed integer. -/
  | word
  /-- A double-precision pattern. -/
  | double
  /-- An 8-bit signed integer. -/
  | byte
  deriving DecidableEq

namespace Format

def size : Format → Size
  | long | single => .long
  | word => .word
  | double => .double
  | byte => .byte

/-- The letter that follows a mnemonic. -/
def suffix : Format → String
  | long => "L"
  | single => "S"
  | word => "W"
  | double => "D"
  | byte => "B"

/-- The double that an operand stands for. -/
def load (format : Format) (operand : Quad) : Double :=
  match format with
  | long => .ofInt (operand.setWidth 32).toInt
  | single => .ofSingle ⟨operand.setWidth 32⟩
  | word => .ofInt (operand.setWidth 16).toInt
  | double => ⟨operand⟩
  | byte => .ofInt (operand.setWidth 8).toInt

/-- The operand that a double becomes.  A byte is the low half of the word that the
double becomes, so it wraps where the word does not clamp. -/
def store (format : Format) (value : Double) : Quad :=
  match format with
  | long => (value.toSigned 32).setWidth 64
  | single => value.toSingle.bits.setWidth 64
  | word => (value.toSigned 16).setWidth 64
  | double => value.bits
  | byte => ((value.toSigned 16).setWidth 8).setWidth 64

end Format

/-- What the three format bits specify. -/
inductive Specifier
  | implemented (format : Format)
  | extended
  | packed
  /-- Packed decimal with the scale taken from a data register. -/
  | packedDynamic
  deriving DecidableEq

namespace Specifier

def ofBits : BitVec 3 → Specifier
  | 0#3 => implemented .long
  | 1#3 => implemented .single
  | 2#3 => extended
  | 3#3 => packed
  | 4#3 => implemented .word
  | 5#3 => implemented .double
  | 6#3 => implemented .byte
  | 7#3 => packedDynamic

def format? : Specifier → Option Format
  | implemented format => some format
  | extended | packed | packedDynamic => none

def text : Specifier → String
  | implemented .long => "long-word integer"
  | implemented .single => "single-precision real"
  | implemented .word => "word integer"
  | implemented .double => "double-precision real"
  | implemented .byte => "byte integer"
  | extended => "extended-precision real"
  | packed => "packed-decimal real"
  | packedDynamic => "packed-decimal real (dynamic k-factor)"

end Specifier

end M68kFloat
