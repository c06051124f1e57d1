import M68kFloat.Binary.Arithmetic

/-!
# Arithmetic operations

The last seven bits of a general extension word select one of ten operations.  An
operation computes a value from its destination and its source, and two further
facts say what becomes of it: whether it is written to the destination and whether
the condition codes are set from it.  Comparison and test only set the codes; a
move and a division only write.
-/

namespace M68kFloat

/-- An implemented operation. -/
inductive Opmode
  | move
  | sqrt
  | abs
  | neg
  | div
  | add
  | mul
  | sub
  | cmp
  | tst
  deriving DecidableEq

namespace Opmode

def all : List Opmode := [move, sqrt, abs, neg, div, add, mul, sub, cmp, tst]

def code : Opmode → Byte
  | move => 0x00
  | sqrt => 0x04
  | abs => 0x18
  | neg => 0x1A
  | div => 0x20
  | add => 0x22
  | mul => 0x23
  | sub => 0x28
  | cmp => 0x38
  | tst => 0x3A

def ofCode? (code : Byte) : Option Opmode := all.find? fun opmode => opmode.code = code

def mnemonic : Opmode → String
  | move => "FMOVE"
  | sqrt => "FSQRT"
  | abs => "FABS"
  | neg => "FNEG"
  | div => "FDIV"
  | add => "FADD"
  | mul => "FMUL"
  | sub => "FSUB"
  | cmp => "FCMP"
  | tst => "FTST"

/-- The value that an operation computes.  A comparison computes the difference. -/
def value (opmode : Opmode) (destination source : Double) : Double :=
  match opmode with
  | move | tst => source
  | sqrt => source.sqrt
  | abs => source.abs
  | neg => source.neg
  | div => destination.div source
  | add => destination.add source
  | mul => destination.mul source
  | sub | cmp => destination.sub source

/-- Whether the value is written to the destination. -/
def writes : Opmode → Bool
  | cmp | tst => false
  | _ => true

/-- Whether the condition codes are set from the value. -/
def setsCodes : Opmode → Bool
  | move | div => false
  | _ => true

end Opmode

end M68kFloat
