import M68kFloat.Numeral
import M68kFloat.Word

/-!
# Places of operands

Where an operand lies once its addressing mode has been followed.
-/

namespace M68kFloat

inductive Place
  | dataRegister (n : RegisterNumber)
  | addressRegister (n : RegisterNumber)
  | memory (address : Long)
  /-- In the instruction stream, at the program counter. -/
  | immediate
  deriving DecidableEq

/-- The place as it is named in messages; an address is in decimal. -/
def Place.text : Place → String
  | dataRegister n => "DataReg(" ++ decimal n ++ ")"
  | addressRegister n => "AddrReg(" ++ decimal n ++ ")"
  | memory address => "Memory(" ++ decimal address ++ ")"
  | immediate => "Immediate"

end M68kFloat
