/-!
# Numerals in texts

Addresses, opcodes and masks are written with one digit for every few bits,
leading zeros included and letters in upper case; register numbers and field
values are written in decimal without leading zeros.
-/

namespace M68kFloat

/-- The digit of a value below sixteen. -/
def digit (value : Nat) : Char :=
  if value < 10 then Char.ofNat ('0'.toNat + value) else Char.ofNat ('A'.toNat + (value - 10))

/-- The last `width` digits of a number in a base, the most significant first. -/
def digits (base : Nat) : (width : Nat) → Nat → List Char
  | 0, _ => []
  | width + 1, n => digits base width (n / base) ++ [digit (n % base)]

@[simp] theorem length_digits (base : Nat) : ∀ width n, (digits base width n).length = width
  | 0, _ => rfl
  | width + 1, n => by simp [digits, length_digits base width]

/-- A pattern in hexadecimal, a digit for every four bits. -/
def hexadecimal {width : Nat} (pattern : BitVec width) : String :=
  String.ofList (digits 16 (width / 4) pattern.toNat)

/-- A pattern in binary, a digit for every bit. -/
def binary {width : Nat} (pattern : BitVec width) : String :=
  String.ofList (digits 2 width pattern.toNat)

/-- A pattern as an unsigned number in decimal. -/
def decimal {width : Nat} (pattern : BitVec width) : String := toString pattern.toNat

end M68kFloat
