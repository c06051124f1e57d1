import Mathlib.Algebra.Group.Nat.Defs
import M68kFloat.Numeral

/-!
# Reading numerals in a text

A numeral tells its number.  In a base the digits tell it as far as their count goes, so a
pattern with a digit for every four bits is told completely (`hexadecimal_injective`), and all
patterns of a width take the same room in a text.  A decimal numeral has no fixed length and is
found by where its digits end.

Texts are read up to a separator: a character that occurs in none of the parts before it tells
where they end (`append_separator_inj`).
-/

namespace M68kFloat

/-! ### Separators -/

/-- Where the parts before a separator do not hold it, equal texts have equal parts. -/
theorem append_separator_inj {c : Char} {x x' y y' : List Char} (hx : c ∉ x) (hx' : c ∉ x')
    (h : x ++ c :: y = x' ++ c :: y') : x = x' ∧ y = y' := by
  induction x generalizing x' with
  | nil =>
    cases x' with
    | nil => exact ⟨rfl, (List.cons.inj h).2⟩
    | cons d x' =>
      obtain rfl : c = d := (List.cons.inj h).1
      exact absurd List.mem_cons_self hx'
  | cons d x ih =>
    cases x' with
    | nil =>
      obtain rfl : d = c := (List.cons.inj h).1
      exact absurd List.mem_cons_self hx
    | cons d' x' =>
      obtain ⟨rfl, hRest⟩ := List.cons.inj h
      obtain ⟨rfl, hy⟩ :=
        ih (mt (List.mem_cons_of_mem _) hx) (mt (List.mem_cons_of_mem _) hx') hRest
      exact ⟨rfl, hy⟩

/-! ### Digits -/

theorem digit_injective {m n : Nat} (hm : m < 16) (hn : n < 16) (h : digit m = digit n) :
    m = n := by
  have hAll : ∀ m n : Fin 16, digit m = digit n → m = n := by decide
  exact congrArg Fin.val (hAll ⟨m, hm⟩ ⟨n, hn⟩ h)

/-- Digits tell a number up to a power of the base. -/
theorem mod_eq_of_digits_eq {base width m n : Nat} (hPos : 0 < base) (hBase : base ≤ 16)
    (h : digits base width m = digits base width n) : m % base ^ width = n % base ^ width := by
  induction width generalizing m n with
  | zero => rw [Nat.pow_zero, Nat.mod_one, Nat.mod_one]
  | succ width ih =>
    obtain ⟨hRest, hLast⟩ := List.append_inj' h rfl
    have hDigit : m % base = n % base :=
      digit_injective (Nat.lt_of_lt_of_le (Nat.mod_lt _ hPos) hBase)
        (Nat.lt_of_lt_of_le (Nat.mod_lt _ hPos) hBase) (List.cons.inj hLast).1
    rw [Nat.pow_succ', Nat.mod_mul, Nat.mod_mul, hDigit, ih hRest]

theorem notMem_digits {base : Nat} {c : Char} (hPos : 0 < base) (h : ∀ k < base, c ≠ digit k) :
    ∀ width n, c ∉ digits base width n
  | 0, _ => List.not_mem_nil
  | width + 1, n => by
    rw [digits, List.mem_append, List.mem_singleton]
    rintro (hRest | hLast)
    · exact notMem_digits hPos h width (n / base) hRest
    · exact h _ (Nat.mod_lt _ hPos) hLast

/-! ### Patterns -/

variable {width : Nat}

theorem toList_hexadecimal (p : BitVec width) :
    (hexadecimal p).toList = digits 16 (width / 4) p.toNat := String.toList_ofList

theorem length_hexadecimal (p : BitVec width) : (hexadecimal p).toList.length = width / 4 := by
  rw [toList_hexadecimal, length_digits]

theorem hexadecimal_injective (hWidth : 4 ∣ width) {p q : BitVec width}
    (h : hexadecimal p = hexadecimal q) : p = q := by
  obtain ⟨count, rfl⟩ := hWidth
  have hDigits := congrArg String.toList h
  rw [toList_hexadecimal, toList_hexadecimal, Nat.mul_div_cancel_left _ (by decide)] at hDigits
  have hMod := mod_eq_of_digits_eq (by decide) (by decide) hDigits
  have hPower : 16 ^ count = 2 ^ (4 * count) := (Nat.pow_mul 2 4 count).symm
  rw [hPower, Nat.mod_eq_of_lt p.isLt, Nat.mod_eq_of_lt q.isLt] at hMod
  exact BitVec.eq_of_toNat_eq hMod

theorem toList_toString (n : Nat) : (toString n).toList = Nat.toDigits 10 n := Nat.toList_repr

theorem notMem_toString {c : Char} (hc : c.isDigit = false) (n : Nat) :
    c ∉ (toString n).toList := by
  intro h
  rw [toList_toString] at h
  have hDigit := Nat.isDigit_of_mem_toDigits (by decide) (by decide) h
  exact absurd (hDigit.symm.trans hc) (by decide)

theorem toString_injective {m n : Nat} (h : (toString m).toList = (toString n).toList) :
    m = n := by
  rw [toList_toString, toList_toString] at h
  calc m = Nat.ofDigitChars 10 (Nat.toDigits 10 m) 0 := Nat.ofDigitChars_ten_toDigits.symm
    _ = Nat.ofDigitChars 10 (Nat.toDigits 10 n) 0 := by rw [h]
    _ = n := Nat.ofDigitChars_ten_toDigits

theorem decimal_injective {p q : BitVec width} (h : (decimal p).toList = (decimal q).toList) :
    p = q := BitVec.eq_of_toNat_eq (toString_injective h)

/-- A decimal numeral ends where the digits end. -/
theorem decimal_append_inj {c : Char} (hc : c.isDigit = false) {p q : BitVec width}
    {x y : List Char} (h : (decimal p).toList ++ c :: x = (decimal q).toList ++ c :: y) :
    p = q ∧ x = y := by
  obtain ⟨hNumerals, hRest⟩ :=
    append_separator_inj (notMem_toString hc p.toNat) (notMem_toString hc q.toNat) h
  exact ⟨decimal_injective hNumerals, hRest⟩

end M68kFloat
