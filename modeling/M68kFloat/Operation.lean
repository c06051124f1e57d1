import M68kFloat.Fault
import M68kFloat.Opmode

/-!
# Operations

An extension word decodes to an `Operation`, or to the cause for which the
instruction is refused.  Decoding looks at nothing but the word, so a word that is
not implemented is refused before any operand is touched.

An operation has a text in assembler notation, in which the effective address stays
open.  The type of register numbers is a parameter: it is three bits wide in an
operation that is decoded, while the text only needs a number for each register.
-/

namespace M68kFloat

inductive ControlRegister
  | fpiar
  | fpsr
  | fpcr
  deriving DecidableEq

namespace ControlRegister

/-- The control registers in the order of their selectors. -/
def all : List ControlRegister := [fpiar, fpsr, fpcr]

/-- The selector of a control register: one bit of three. -/
def selector : ControlRegister → Byte
  | fpiar => 1
  | fpsr => 2
  | fpcr => 4

/-- The control register with the given selector.  No combination of bits has one. -/
def ofSelector? (selector : Byte) : Option ControlRegister :=
  all.find? fun register => register.selector = selector

def name : ControlRegister → String
  | fpiar => "FPIAR"
  | fpsr => "FPSR"
  | fpcr => "FPCR"

end ControlRegister

/-- Where the source of a general operation comes from. -/
inductive Source (ρ : Type)
  | register (n : ρ)
  | memory (format : Format)
  deriving DecidableEq

/-- What an extension word asks for, with register numbers in `ρ`. -/
inductive Operation (ρ : Type)
  /-- Arithmetic on a floating-point register. -/
  | general (source : Source ρ) (destination : ρ) (opmode : Opmode)
  /-- A floating-point register moved to an operand. -/
  | store (source : ρ) (format : Format)
  /-- A control register moved to an operand or loaded from one. -/
  | control (access : Access) (register : ControlRegister)
  /-- The floating-point registers of a list moved to memory or loaded from it. -/
  | multiple (access : Access) (list : Byte)
  deriving DecidableEq

namespace Operation

/-! ### Decoding -/

/-- Bit 13 is set where data moves from a register to an operand. -/
def direction (extension : Word) : Access := if extension.getLsbD 13 then .write else .read

/-- The three bits that specify a source, a format or a control register. -/
def specifierBits (extension : Word) : BitVec 3 := extension.extractLsb' 10 3

/-- The floating-point register of a general operation or a store. -/
def registerBits (extension : Word) : RegisterNumber := extension.extractLsb' 7 3

/-- The implemented format of an operand, or the cause to refuse it. -/
def formatOf (specifier : BitVec 3) (access : Access) : Except Cause Format :=
  match (Specifier.ofBits specifier).format? with
  | some format => .ok format
  | none => .error (.format (.ofBits specifier) access)

/-- The source of a general operation: a register, or an operand where bit 14 is
set.  Specifier 7 is refused as no source at all, before its format is. -/
def sourceOf (extension : Word) : Except Cause (Source RegisterNumber) :=
  let specifier := specifierBits extension
  if extension.getLsbD 14 then
    if specifier = 7 then .error (.sourceSpecifier (specifier.setWidth 8))
    else .memory <$> formatOf specifier .read
  else .ok (.register specifier)

def opmodeOf (extension : Word) : Except Cause Opmode :=
  let code : Byte := (extension.extractLsb' 0 7).setWidth 8
  match Opmode.ofCode? code with
  | some opmode => .ok opmode
  | none => .error (.opmode code)

def controlRegisterOf (extension : Word) : Except Cause ControlRegister :=
  let selector : Byte := (specifierBits extension).setWidth 8
  match ControlRegister.ofSelector? selector with
  | some register => .ok register
  | none => .error (.controlRegister selector (direction extension))

/-- The mode bits of a multiple move that are implemented: registers are stored
below the address register and loaded from above it, and the list is static. -/
def multipleMode : Access → BitVec 2
  | .write => 0
  | .read => 2

/-- The operation that an extension word asks for. -/
def ofExtension (extension : Word) : Except Cause (Operation RegisterNumber) :=
  match extension.extractLsb' 13 3 with
  | 0#3 | 2#3 => do
    let source ← sourceOf extension
    let opmode ← opmodeOf extension
    return general source (registerBits extension) opmode
  | 1#3 => .error (.subop 1)
  | 3#3 => do
    let format ← formatOf (specifierBits extension) .write
    return store (registerBits extension) format
  | 4#3 | 5#3 => do
    let register ← controlRegisterOf extension
    return control (direction extension) register
  | 6#3 | 7#3 =>
    let access := direction extension
    let mode := extension.extractLsb' 11 2
    if mode = multipleMode access then .ok (multiple access (extension.setWidth 8))
    else .error (.multipleMode (mode.setWidth 8) access)

/-! ### Text -/

def registerName (n : Nat) : String := "FP" ++ toString n

/-- The operation in assembler notation, with the register numbers that `number`
gives. -/
def textWith {ρ : Type} (number : ρ → Nat) : Operation ρ → String
  | general (.register source) destination opmode =>
    opmode.mnemonic ++ ".X " ++ registerName (number source) ++ "," ++
      registerName (number destination)
  | general (.memory format) destination opmode =>
    opmode.mnemonic ++ "." ++ format.suffix ++ " <ea>," ++ registerName (number destination)
  | store source format =>
    "FMOVE." ++ format.suffix ++ " " ++ registerName (number source) ++ ",<ea>"
  | control .write register => "FMOVE.L " ++ register.name ++ ",<ea>"
  | control .read register => "FMOVE.L <ea>," ++ register.name
  | multiple .write list => "FMOVEM.X #" ++ hexadecimal list ++ ",-(An)"
  | multiple .read list => "FMOVEM.X (An)+,#" ++ hexadecimal list

def text (operation : Operation RegisterNumber) : String := operation.textWith BitVec.toNat

end Operation

end M68kFloat
