import M68kFloat.Word
import M68kFloat.Opmode

/-!
# Cycle costs

What each kind of instruction adds to the cycle counter.  The cost of an operation
does not depend on its operands or on how they are addressed.
-/

namespace M68kFloat

structure Costs where
  move : Long
  sqrt : Long
  abs : Long
  neg : Long
  div : Long
  add : Long
  mul : Long
  sub : Long
  cmp : Long
  tst : Long
  /-- A move from a register to an operand. -/
  store : Long
  /-- A move to or from a control register. -/
  control : Long
  /-- Each register of a multiple move. -/
  multiple : Long
  /-- A branch, taken or not. -/
  branch : Long
  deriving DecidableEq

def Costs.m68040 : Costs where
  move := 4
  sqrt := 109
  abs := 3
  neg := 3
  div := 43
  add := 9
  mul := 11
  sub := 9
  cmp := 7
  tst := 7
  store := 12
  control := 10
  multiple := 2
  branch := 7

def Opmode.cost (opmode : Opmode) (costs : Costs) : Long :=
  match opmode with
  | move => costs.move
  | sqrt => costs.sqrt
  | abs => costs.abs
  | neg => costs.neg
  | div => costs.div
  | add => costs.add
  | mul => costs.mul
  | sub => costs.sub
  | cmp => costs.cmp
  | tst => costs.tst

end M68kFloat
