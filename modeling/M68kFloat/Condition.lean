import M68kFloat.ConditionCodes

/-!
# Branch conditions

Twelve of the sixty-four condition codes of a branch are implemented.  Six of them
ask for an order and fail where the codes say NAN; the other six are their
negations on the codes that a double can have.
-/

namespace M68kFloat

/-- An implemented condition. -/
inductive Condition
  | never
  | equal
  | notEqual
  | always
  | greater
  | greaterOrEqual
  | less
  | lessOrEqual
  | notLessOrEqual
  | notLess
  | notGreaterOrEqual
  | notGreater
  deriving DecidableEq

namespace Condition

def all : List Condition :=
  [never, equal, notEqual, always, greater, greaterOrEqual, less, lessOrEqual, notLessOrEqual,
    notLess, notGreaterOrEqual, notGreater]

def code : Condition → Byte
  | never => 0x00
  | equal => 0x01
  | notEqual => 0x0E
  | always => 0x0F
  | greater => 0x12
  | greaterOrEqual => 0x13
  | less => 0x14
  | lessOrEqual => 0x15
  | notLessOrEqual => 0x1A
  | notLess => 0x1B
  | notGreaterOrEqual => 0x1C
  | notGreater => 0x1D

def ofCode? (code : Byte) : Option Condition := all.find? fun condition => condition.code = code

/-- The condition as it is named in messages. -/
def name : Condition → String
  | never => "False"
  | equal => "Equal"
  | notEqual => "NotEqual"
  | always => "True"
  | greater => "GreaterThan"
  | greaterOrEqual => "GreaterOrEqual"
  | less => "LessThan"
  | lessOrEqual => "LessOrEqual"
  | notLessOrEqual => "NotLessOrEqual"
  | notLess => "NotLess"
  | notGreaterOrEqual => "NotGreaterOrEqual"
  | notGreater => "NotGreaterThan"

/-- Whether the condition holds under the given codes. -/
def holds (condition : Condition) (codes : ConditionCodes) : Bool :=
  let n := codes.negative
  let z := codes.zero
  let nan := codes.nan
  match condition with
  | never => false
  | equal => z
  | notEqual => !z
  | always => true
  | greater => !(nan || z || n)
  | greaterOrEqual => z || !(nan || n)
  | less => n && !(nan || z)
  | lessOrEqual => z || (n && !nan)
  | notLessOrEqual => nan || !(n || z)
  | notLess => nan || z || !n
  | notGreaterOrEqual => nan || (n && !z)
  | notGreater => nan || z || n

end Condition

end M68kFloat
