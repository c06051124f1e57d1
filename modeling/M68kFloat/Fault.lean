import M68kFloat.Numeral
import M68kFloat.Operand.Format

/-!
# Faults

A `Cause` says why an instruction is refused and a `Fault` adds where the
instruction starts.  Field values are kept as they stood in the instruction.
-/

namespace M68kFloat

/-- Why an instruction is refused. -/
inductive Cause
  /-- An addressing mode that may not access an operand of this size in this direction. -/
  | illegalAddressing (mode register : Byte) (size : Size) (access : Access)
  /-- An operand format that is not implemented. -/
  | format (specifier : Specifier) (access : Access)
  /-- A source specifier that names no operand format. -/
  | sourceSpecifier (specifier : Byte)
  | opmode (code : Byte)
  /-- An instruction class of the extension word. -/
  | subop (code : Byte)
  /-- An instruction class of the opcode. -/
  | mainOp (code : Byte)
  | saveRestoreOp (code : Byte)
  /-- A register list or direction of a multiple move. -/
  | multipleMode (mode : Byte) (access : Access)
  | controlRegister (selector : Byte) (access : Access)
  | condition (code : Byte)
  deriving DecidableEq

/-- The kinds of causes that a host may treat apart. -/
inductive FaultKind
  | illegalAddressing
  | unimplementedFormat
  | unimplementedOpcode
  | unknownControlRegister
  | unhandledCondition
  deriving DecidableEq

namespace Cause

def kind : Cause → FaultKind
  | illegalAddressing .. => .illegalAddressing
  | format .. => .unimplementedFormat
  | sourceSpecifier _ | opmode _ | subop _ | mainOp _ | saveRestoreOp _ | multipleMode .. =>
    .unimplementedOpcode
  | controlRegister .. => .unknownControlRegister
  | condition _ => .unhandledCondition

def text : Cause → String
  | illegalAddressing mode register size access =>
    "illegal " ++ size.text ++ " " ++ access.text ++ " through mode " ++ decimal mode ++
      ", reg " ++ decimal register
  | format specifier access => specifier.text ++ " " ++ access.text ++ " unimplemented"
  | sourceSpecifier specifier => "unimplemented source specifier " ++ decimal specifier
  | opmode code => "unimplemented opmode " ++ hexadecimal code
  | subop code => "unimplemented subop " ++ decimal code
  | mainOp code => "unimplemented main op " ++ decimal code
  | saveRestoreOp code => "unimplemented save/restore op " ++ decimal code
  | multipleMode mode access =>
    "FMOVEM " ++ access.text ++ " mode " ++ decimal mode ++ " unimplemented"
  | controlRegister selector access =>
    "unknown control register " ++ decimal selector ++ ", " ++ access.text
  | condition code => "unhandled condition " ++ hexadecimal code

end Cause

structure Fault where
  cause : Cause
  /-- The address at which it starts. -/
  pc : Long
  deriving DecidableEq

def Fault.text (fault : Fault) : String := fault.cause.text ++ " at " ++ hexadecimal fault.pc

end M68kFloat
