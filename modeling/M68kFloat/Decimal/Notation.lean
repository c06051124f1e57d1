import M68kFloat.Decimal.Shortest
import M68kFloat.Numeral

/-!
# Decimal notations

A double is written with its shortest digits in one of two notations: scientific,
with one digit before the point and the exponent always present, and positional,
with as many zeros as the number needs and never an exponent.  Neither pads, and
neither writes a point that no digit follows.  A NaN has one text, whatever its
sign and payload.
-/

namespace M68kFloat

def Decimal.scientific (d : Decimal) : String :=
  let digits := (toString d.coefficient).toList
  let fraction := if digits.length ≤ 1 then [] else '.' :: digits.drop 1
  let exponent := d.exponent + (digits.length - 1 : Nat)
  String.ofList (digits.take 1 ++ fraction) ++ "e" ++ toString exponent

def Decimal.positional (d : Decimal) : String :=
  let digits := (toString d.coefficient).toList
  let point := digits.length + d.exponent
  String.ofList <|
    if 0 ≤ d.exponent then digits ++ List.replicate d.exponent.toNat '0'
    else if 0 < point then digits.take point.toNat ++ '.' :: digits.drop point.toNat
    else '0' :: '.' :: List.replicate (-point).toNat '0' ++ digits

namespace Double

/-- The text of a double, given how the decimal of a finite magnitude is written. -/
def render (write : Decimal → String) (d : Double) : String :=
  if d.isNaN then "NaN"
  else
    let magnitude := if d.isInfinite then "inf" else write (shortest d.magnitude)
    if d.sign then "-" ++ magnitude else magnitude

def scientific (d : Double) : String := d.render Decimal.scientific

def positional (d : Double) : String := d.render Decimal.positional

/-- The number in a register beside its pattern. -/
def registerText (d : Double) : String :=
  "FpReg(" ++ d.positional ++ " / $" ++ hexadecimal d.bits ++ ")"

end Double

end M68kFloat
