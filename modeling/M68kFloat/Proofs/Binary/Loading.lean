import M68kFloat.Proofs.Binary.Narrowing
import M68kFloat.Proofs.Binary.Truncation
import M68kFloat.Proofs.Operand.Copy

/-!
# Operands as doubles

`Format.value?` is the number that an operand stands for in its format: the integer of its bits,
or what the fields of a single or a double say.  A load gives the double with this value
(`value?_load`) and the sign of the operand (`sign_load`), so a zero integer never becomes a
negative zero, and a single becomes neither a zero nor an infinity that it was not.

The bits above the operand do not matter (`load_congr`), and since the value of an operand can be
stored again, operands that differ have different loads (`load_injective`).  A NaN of the single
format is no exception to the sign, but its quiet bit is lost (`bits_load_single_of_nan`).
-/

namespace M68kFloat

namespace Double

/-! ### Integers -/

theorem isInfinite_ofInt {n : ℤ} (h : n.natAbs < 2 ^ 53) : (ofInt n).isInfinite = false := by
  obtain ⟨k, hk, hOne⟩ := exists_one_eq
  rw [ofInt, hOne]
  exact (round_short _ h hk).1

theorem units_ofInt {n : ℤ} (h : n.natAbs < 2 ^ 53) : (ofInt n).units = n * one := by
  obtain ⟨k, hk, hOne⟩ := exists_one_eq
  have hAbs : (ofInt n).absUnits = n.natAbs * one := by
    rw [ofInt, hOne]
    exact (round_short _ h hk).2
  have hSign : (ofInt n).sign = decide (n < 0) := sign_round _ _ _
  rw [units, hAbs, hSign]
  by_cases hNegative : n < 0
  · rw [if_pos (decide_eq_true hNegative), Nat.cast_mul, Int.ofNat_natAbs_of_nonpos hNegative.le,
      neg_mul, neg_neg]
  · rw [if_neg (by simpa using hNegative), Nat.cast_mul, Int.natAbs_of_nonneg (not_lt.mp hNegative)]

/-- **A short integer is exact as a double.** -/
theorem value?_ofInt {n : ℤ} (h : n.natAbs < 2 ^ 53) :
    (ofInt n).value? = some ((n : ℚ) : WithBotTop ℚ) := by
  have hOne : (one : ℚ) ≠ 0 := by
    obtain ⟨k, -, hOne⟩ := exists_one_eq
    rw [hOne]
    positivity
  have hNaN : (ofInt n).isNaN = false := isNaN_round _ _ _
  rw [value?_of_finite hNaN (isInfinite_ofInt h), rational_eq, units_ofInt h, least_double]
  push_cast
  rw [mul_inv_cancel_right₀ hOne]

/-- The integer of a pattern of at most 53 bits. -/
theorem value?_ofInt_toInt {w : ℕ} (b : BitVec w) (hShort : w ≤ 53) :
    (ofInt b.toInt).value? = some ((b.toInt : ℚ) : WithBotTop ℚ) := by
  have hLow : -2 ^ w ≤ 2 * b.toInt := BitVec.le_two_mul_toInt
  have hHigh : 2 * b.toInt < 2 ^ w := BitVec.two_mul_toInt_lt
  have hPower : (2 : ℤ) ^ w ≤ 2 ^ 53 := pow_le_pow_right₀ (by decide) hShort
  exact value?_ofInt (by omega)

/-! ### Singles -/

variable {s : Single}

theorem value?_ofSingle_of_finite (h : s.magnitude < Layout.single.infinity) :
    (ofSingle s).value? = s.value? := by
  obtain ⟨hDouble, hInfinite, hExact⟩ := Single.ofSingle_of_finite h
  have hNaN : (ofSingle s).isNaN = false := by rw [hDouble, isNaN_round]
  have hSign : (ofSingle s).sign = s.sign := by rw [hDouble, sign_round]
  rw [value?_of_finite hNaN hInfinite, Single.value?_of_finite h, rational_eq, units, hExact, hSign,
    Single.rational_eq, Layout.least_single]
  cases s.sign <;> simp [mul_assoc]

theorem value?_ofSingle_of_infinite (h : s.magnitude = Layout.single.infinity) :
    (ofSingle s).value? = s.value? := by
  have hMagnitude : (infinity s.sign).magnitude = Layout.double.infinity :=
    magnitude_ofParts s.sign (by decide)
  have hSign : (infinity s.sign).sign = s.sign := sign_ofParts _ _
  rw [Single.value?_of_infinite h, Single.ofSingle_of_infinite h,
    value?_of_isInfinite (decide_eq_true hMagnitude), hSign]

/-- **A single is exact as a double**, and what is no number remains none. -/
theorem value?_ofSingle (s : Single) : (ofSingle s).value? = s.value? := by
  rcases lt_trichotomy s.magnitude Layout.single.infinity with hFinite | hInfinite | hNaN
  · exact value?_ofSingle_of_finite hFinite
  · exact value?_ofSingle_of_infinite hInfinite
  · obtain ⟨fraction, -, hBit, hDouble⟩ := Single.ofSingle_of_isNaN (decide_eq_true hNaN)
    rw [Single.value?_of_isNaN (decide_eq_true hNaN), hDouble]
    exact value?_of_isNaN (Single.isNaN_widened s.sign fraction hBit)

theorem sign_ofSingle (s : Single) : (ofSingle s).sign = s.sign := by
  rcases lt_trichotomy s.magnitude Layout.single.infinity with hFinite | hInfinite | hNaN
  · rw [(Single.ofSingle_of_finite hFinite).1, sign_round]
  · rw [Single.ofSingle_of_infinite hInfinite]
    exact sign_ofParts _ _
  · obtain ⟨fraction, -, -, hDouble⟩ := Single.ofSingle_of_isNaN (decide_eq_true hNaN)
    rw [hDouble, Single.sign_widened]

end Double

namespace Format

/-! ### Formats -/

/-- The value that an operand has in a format: none for a NaN, and otherwise a number or an
infinity. -/
def value? (format : Format) (operand : Quad) : Option (WithBotTop ℚ) :=
  match format with
  | long => some (((operand.setWidth 32).toInt : ℚ) : WithBotTop ℚ)
  | single => Single.value? ⟨operand.setWidth 32⟩
  | word => some (((operand.setWidth 16).toInt : ℚ) : WithBotTop ℚ)
  | double => Double.value? ⟨operand⟩
  | byte => some (((operand.setWidth 8).toInt : ℚ) : WithBotTop ℚ)

/-- The sign that an operand has in a format.  The zero of an integer has none. -/
def negative (format : Format) (operand : Quad) : Bool :=
  match format with
  | long => decide ((operand.setWidth 32).toInt < 0)
  | single => Single.sign ⟨operand.setWidth 32⟩
  | word => decide ((operand.setWidth 16).toInt < 0)
  | double => Double.sign ⟨operand⟩
  | byte => decide ((operand.setWidth 8).toInt < 0)

example : single.value? 0xFFFFFFFF80000001 = some ((-1 / 2 ^ 149 : ℚ) : WithBotTop ℚ) := by
  decide +kernel

/-- **A load keeps the value** -/
theorem value?_load (format : Format) (operand : Quad) :
    (format.load operand).value? = format.value? operand := by
  cases format with
  | long | word | byte => exact Double.value?_ofInt_toInt _ (by decide)
  | single => exact Double.value?_ofSingle _
  | double => rfl

/-- **and the sign.** -/
theorem sign_load (format : Format) (operand : Quad) :
    (format.load operand).sign = format.negative operand := by
  cases format with
  | long | word | byte => exact Double.sign_round _ _ _
  | single => exact Double.sign_ofSingle _
  | double => rfl

variable {operand operand' : Quad}

/-- The quiet bit of a NaN is set on the way. -/
theorem bits_load_single_of_nan (h : single.value? operand = none) :
    (single.load operand).bits =
      BitVec.ofBool (operand.getLsbD 31) ++ 0x7FF#11 ++ (1#1 ++ operand.extractLsb' 0 22) ++
        0#29 := by
  have hNaN : (Single.mk (operand.setWidth 32)).isNaN = true := Single.isNaN_of_value? h
  obtain ⟨fraction, hFraction, -, hDouble⟩ := Single.ofSingle_of_isNaN hNaN
  have hSign : (Single.mk (operand.setWidth 32)).sign = operand.getLsbD 31 := by
    rw [Single.sign, BitVec.msb_eq_getLsbD_last, BitVec.getLsbD_setWidth]
    rfl
  have hQuiet : fraction = 1#1 ++ operand.extractLsb' 0 22 := by
    have hMask : (0x400000#23) = BitVec.twoPow 23 22 := by decide
    rw [hFraction, hMask]
    apply BitVec.eq_of_getLsbD_eq
    intro k hk
    simp only [BitVec.getLsbD_or, BitVec.getLsbD_setWidth, BitVec.getLsbD_twoPow,
      BitVec.getLsbD_append, BitVec.getLsbD_extractLsb']
    by_cases hPayload : k < 22
    · simp [hPayload, hk, show k < 32 by omega, show 22 ≠ k by omega]
    · obtain rfl : k = 22 := by omega
      simp
  rw [load, hDouble, hSign, hQuiet]

/-- **The bits above an operand do not matter.** -/
theorem load_congr (format : Format)
    (h : operand'.setWidth (8 * format.size.bytes) = operand.setWidth (8 * format.size.bytes)) :
    format.load operand' = format.load operand := by
  cases format with
  | long | word | byte => exact congrArg (fun b => Double.ofInt (BitVec.toInt b)) h
  | single => exact congrArg (fun b => Double.ofSingle ⟨b⟩) h
  | double =>
    rw [size, Size.bytes, BitVec.setWidth_eq, BitVec.setWidth_eq] at h
    rw [h]

/-- An operand with nothing above it is the same operand. -/
theorem narrowed_narrowed (format : Format) (operand : Quad) :
    ((operand.setWidth (8 * format.size.bytes)).setWidth 64).setWidth (8 * format.size.bytes) =
      operand.setWidth (8 * format.size.bytes) := by
  have hRoom : 8 * format.size.bytes ≤ 64 := by cases format <;> decide
  rw [BitVec.setWidth_setWidth_of_le _ hRoom, BitVec.setWidth_eq]

theorem signals_of_number (format : Format) (h : format.value? operand ≠ none) :
    format.signals operand = false := by
  cases format with
  | single =>
    have hNaN : (Single.mk (operand.setWidth 32)).isNaN = false :=
      Bool.eq_false_of_not_eq_true (mt Single.value?_of_isNaN h)
    rw [signals, hNaN, Bool.false_and]
  | long | word | double | byte => rfl

/-- A number that has been loaded can be stored again. -/
theorem store_load_of_number (format : Format) (h : format.value? operand ≠ none) :
    format.store (format.load operand) =
      (operand.setWidth (8 * format.size.bytes)).setWidth 64 := by
  have hNarrowed := narrowed_narrowed format operand
  have hLoad := load_congr format hNarrowed
  rw [← value?_load, ← hLoad, value?_load] at h
  rw [← hLoad, store_load format (congrArg (BitVec.setWidth 64) hNarrowed), copied,
    signals_of_number format h, if_neg Bool.false_ne_true]

/-- **Different numbers have different loads.** -/
theorem load_injective (format : Format) (hNumber : format.value? operand ≠ none)
    (h : format.load operand' = format.load operand) :
    operand'.setWidth (8 * format.size.bytes) = operand.setWidth (8 * format.size.bytes) := by
  have hNumber' : format.value? operand' ≠ none := by rwa [← value?_load, h, value?_load]
  have hStored := congrArg format.store h
  rw [store_load_of_number format hNumber', store_load_of_number format hNumber] at hStored
  rw [← narrowed_narrowed format operand', hStored, narrowed_narrowed]

/-- **Operand loads are exact.**  Whatever lies above an operand, it is loaded as the double with
its value and its sign: an integer as the integer of its bits, where zero is the positive zero, a
single as the same zero, number or infinity, and a double as it is.  A NaN of the single format
keeps its sign and its payload and is quiet.  So operands of one format that are loaded alike are
equal, unless they are NaNs. -/
theorem loads_are_exact (operand : Quad) :
    (∀ format : Format, (format.load operand).value? = format.value? operand ∧
      (format.load operand).sign = format.negative operand) ∧
    (single.value? operand = none → (single.load operand).bits =
      BitVec.ofBool (operand.getLsbD 31) ++ 0x7FF#11 ++ (1#1 ++ operand.extractLsb' 0 22) ++ 0#29) ∧
    (double.load operand).bits = operand ∧
    ∀ (format : Format) (operand' : Quad),
      (operand'.setWidth (8 * format.size.bytes) = operand.setWidth (8 * format.size.bytes) →
        format.load operand' = format.load operand) ∧
      (format.value? operand ≠ none → format.load operand' = format.load operand →
        operand'.setWidth (8 * format.size.bytes) = operand.setWidth (8 * format.size.bytes)) :=
  ⟨fun format => ⟨value?_load format operand, sign_load format operand⟩, bits_load_single_of_nan,
    rfl, fun format _ => ⟨load_congr format, load_injective format⟩⟩

/-- The least word and a subnormal single, both under other bits, and a signalling NaN. -/
theorem loads_are_exact_least :
    (word.load 0xABCD8000).value? = some ((-2 ^ 15 : ℚ) : WithBotTop ℚ) ∧
      (word.load 0xABCD8000).sign = true ∧
      word.load 0xABCD8000 = word.load 0x8000 ∧
      (single.load 0xFFFFFFFF80000001).value? = some ((-1 / 2 ^ 149 : ℚ) : WithBotTop ℚ) ∧
      single.load 0x80000000 ≠ single.load 0xFFFFFFFF80000001 ∧
      (single.load 0xFF800001).bits = 0xFFF8000020000000 := by
  obtain ⟨hWord, -, -, hWords⟩ := loads_are_exact 0xABCD8000
  obtain ⟨hSingle, -, -, hSingles⟩ := loads_are_exact 0xFFFFFFFF80000001
  obtain ⟨-, hNaN, -, -⟩ := loads_are_exact 0xFF800001
  obtain ⟨hWordValue, hWordSign⟩ := hWord word
  have hNumber : single.value? 0xFFFFFFFF80000001 = some ((-1 / 2 ^ 149 : ℚ) : WithBotTop ℚ) := by
    decide +kernel
  refine ⟨hWordValue.trans (by decide +kernel), hWordSign.trans (by decide),
    ((hWords word 0x8000).1 (by decide)).symm, (hSingle single).1.trans hNumber, ?_,
    hNaN (by decide)⟩
  intro hSame
  have hBits := (hSingles single 0x80000000).2 (by rw [hNumber]; exact Option.some_ne_none _) hSame
  revert hBits
  decide

end Format

end M68kFloat
