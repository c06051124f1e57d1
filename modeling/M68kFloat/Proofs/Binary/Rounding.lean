import M68kFloat.Proofs.Binary.Value

/-!
# Rounding what needs none

A magnitude is a number that fits the fraction with its leading one, times a power of two.
The least such power makes it `Layout.Normal`, and in this form both ways between words and
magnitudes can be read off: `Normal.units` gives the magnitude of the word, and
`Normal.round` the word that the magnitude rounds to.

So rounding undoes counting (`Layout.round_units`), also where everything is counted in
another unit, and it is exact wherever the magnitude is short enough (`Layout.units_round`).
-/

namespace M68kFloat

theorem nearestEven_mul (n : ℕ) {d : ℕ} (hd : 0 < d) : nearestEven (n * d) d = n := by
  rw [nearestEven, Nat.mul_div_cancel n hd, Nat.mul_mod_left]
  exact if_pos (Or.inl hd)

theorem nearestEven_one (n : ℕ) : nearestEven n 1 = n := by
  have h := nearestEven_mul n Nat.one_pos
  rwa [Nat.mul_one] at h

namespace Layout

variable {layout : Layout}

theorem lead_pos (layout : Layout) : 0 < layout.lead := by
  rw [lead_eq]
  exact Nat.two_pow_pos _

/-- The magnitude `q * 2 ^ s` with the least power of two that makes `q` fit the fraction with
its leading one. -/
structure Normal (layout : Layout) (q s : ℕ) : Prop where
  fits : q < 2 * layout.lead
  least : s = 0 ∨ layout.lead ≤ q

/-- Every word is that of a normal magnitude, -/
theorem exists_normal_word (layout : Layout) (word : ℕ) :
    ∃ q s, layout.Normal q s ∧ word = s * layout.lead + q := by
  have hPos := layout.lead_pos
  by_cases h : word < layout.lead
  · exact ⟨word, 0, ⟨by omega, Or.inl rfl⟩, by omega⟩
  · have hRest := Nat.mod_lt word hPos
    have hExponent : 1 ≤ word / layout.lead := (Nat.one_le_div_iff hPos).mpr (by omega)
    obtain ⟨s, hs⟩ : ∃ s, word / layout.lead = s + 1 := ⟨_, (Nat.sub_add_cancel hExponent).symm⟩
    refine ⟨layout.lead + word % layout.lead, s, ⟨by omega, Or.inr (by omega)⟩, ?_⟩
    have hWord := Nat.div_add_mod' word layout.lead
    rw [hs, Nat.succ_mul] at hWord
    omega

/-- and every short number times a power of two is one. -/
theorem exists_normal_of_short {m : ℕ} (hm : m < 2 * layout.lead) (k : ℕ) :
    ∃ q s, layout.Normal q s ∧ s ≤ k ∧ m * 2 ^ k = q * 2 ^ s := by
  induction k with
  | zero => exact ⟨m, 0, ⟨hm, Or.inl rfl⟩, Nat.le_refl 0, rfl⟩
  | succ k ih =>
    obtain ⟨q, s, hNormal, hs, hEqual⟩ := ih
    have hDouble : m * 2 ^ (k + 1) = q * 2 ^ s * 2 := by
      rw [Nat.pow_succ, ← Nat.mul_assoc, hEqual]
    by_cases h : layout.lead ≤ q
    · exact ⟨q, s + 1, ⟨hNormal.fits, Or.inr h⟩, by omega, by
        rw [hDouble, Nat.pow_succ, Nat.mul_assoc]⟩
    · -- below the leading one there is no power of two yet, so the number itself is doubled
      obtain rfl : s = 0 := hNormal.least.resolve_right h
      exact ⟨q * 2, 0, ⟨by omega, Or.inl rfl⟩, by omega, by
        rw [hDouble, Nat.pow_zero, Nat.mul_one, Nat.mul_one]⟩

namespace Normal

variable {q s : ℕ}

theorem units (h : layout.Normal q s) : layout.units (s * layout.lead + q) = q * 2 ^ s := by
  have hPos := layout.lead_pos
  by_cases hLead : layout.lead ≤ q
  · obtain ⟨r, rfl⟩ : ∃ r, q = layout.lead + r := ⟨_, (Nat.add_sub_cancel' hLead).symm⟩
    have hRest : r < layout.lead := by have := h.fits; omega
    have hWord : s * layout.lead + (layout.lead + r) = r + (s + 1) * layout.lead := by
      rw [Nat.succ_mul]
      omega
    rw [hWord, units_of_le (by rw [Nat.succ_mul]; omega), Nat.add_mul_mod_self_right,
      Nat.mod_eq_of_lt hRest, Nat.add_mul_div_right _ _ hPos, Nat.div_eq_of_lt hRest, Nat.zero_add,
      Nat.add_sub_cancel]
  · obtain rfl : s = 0 := h.least.resolve_right hLead
    rw [Nat.zero_mul, Nat.zero_add, units_of_lt (by omega), Nat.pow_zero, Nat.mul_one]

theorem log2_sub (h : layout.Normal q s) : (q * 2 ^ s).log2 - layout.fraction = s := by
  have hFits := h.fits
  rw [lead_eq, ← Nat.pow_succ'] at hFits
  rcases h.least with rfl | hLead
  · rw [Nat.pow_zero, Nat.mul_one, Nat.sub_eq_zero_iff_le]
    by_cases hq : q = 0
    · rw [hq]
      exact Nat.zero_le _
    · exact Nat.le_of_lt_succ ((Nat.log2_lt hq).mpr hFits)
  · rw [lead_eq] at hLead
    have hLog : (q * 2 ^ s).log2 = layout.fraction + s := by
      have hPower := Nat.two_pow_pos s
      have hNonzero : q * 2 ^ s ≠ 0 :=
        Nat.ne_of_gt (Nat.mul_pos (Nat.lt_of_lt_of_le (Nat.two_pow_pos _) hLead) hPower)
      rw [Nat.log2_eq_iff hNonzero, Nat.pow_add, Nat.add_right_comm, Nat.pow_add]
      exact ⟨Nat.mul_le_mul_right _ hLead, Nat.mul_lt_mul_of_pos_right hFits hPower⟩
    rw [hLog, Nat.add_sub_cancel_left]

/-- A normal magnitude rounds to its word, in whatever unit it is counted. -/
theorem round (h : layout.Normal q s) {d : ℕ} (hd : 0 < d) :
    layout.round (q * 2 ^ s * d) d = min (s * layout.lead + q) layout.infinity := by
  have hUnit : q * 2 ^ s * d = q * (d <<< s) := by
    rw [Nat.shiftLeft_eq, Nat.mul_assoc, Nat.mul_comm (2 ^ s)]
  have hPos : 0 < d <<< s := by
    rw [Nat.shiftLeft_eq]
    exact Nat.mul_pos hd (Nat.two_pow_pos s)
  rw [Layout.round, Nat.mul_div_cancel _ hd, h.log2_sub, hUnit, nearestEven_mul _ hPos]

end Normal

/-- **Rounding undoes counting.** -/
theorem round_units {word d : ℕ} (h : word ≤ layout.infinity) (hd : 0 < d) :
    layout.round (layout.units word * d) d = word := by
  obtain ⟨q, s, hNormal, rfl⟩ := layout.exists_normal_word word
  rw [hNormal.units, hNormal.round hd, Nat.min_eq_left h]

/-- **Short numbers are exact.**  They round to a finite word that counts as much. -/
theorem units_round {m k : ℕ} (hm : m < 2 * layout.lead)
    (hRoom : (k + 2) * layout.lead ≤ layout.infinity) :
    layout.round (m * 2 ^ k) 1 < layout.infinity ∧
      layout.units (layout.round (m * 2 ^ k) 1) = m * 2 ^ k := by
  obtain ⟨q, s, hNormal, hs, hEqual⟩ := exists_normal_of_short hm k
  have hWord : s * layout.lead + q < layout.infinity := by
    have hPower := Nat.mul_le_mul_right layout.lead hs
    have hFits := hNormal.fits
    rw [Nat.add_mul] at hRoom
    omega
  have hRound := hNormal.round Nat.one_pos
  rw [Nat.mul_one, Nat.min_eq_left hWord.le] at hRound
  rw [hEqual, hRound]
  exact ⟨hWord, hNormal.units⟩

/-- Only zero rounds to zero. -/
theorem round_one_eq_zero_iff (hInfinity : 0 < layout.infinity) (n : ℕ) :
    layout.round n 1 = 0 ↔ n = 0 := by
  have hLead := layout.lead_pos
  constructor
  · intro h
    rw [round, Nat.div_one] at h
    by_cases hShift : n.log2 - layout.fraction = 0
    · rw [hShift, Nat.shiftLeft_zero, nearestEven_one] at h
      omega
    · have hPositive : 0 < (n.log2 - layout.fraction) * layout.lead :=
        Nat.mul_pos (Nat.pos_of_ne_zero hShift) hLead
      omega
  · rintro rfl
    have hShift : (0 / 1 : ℕ).log2 - layout.fraction = 0 := by simp
    rw [round, hShift, Nat.shiftLeft_zero, nearestEven_one]
    omega

theorem round_le_infinity (layout : Layout) (n k : ℕ) : layout.round n k ≤ layout.infinity :=
  Nat.min_le_right _ _

end Layout

namespace Double

/-! ### Rounded doubles -/

theorem sign_round (sign : Bool) (n k : ℕ) : (round sign n k).sign = sign := sign_ofParts _ _

theorem magnitude_round (sign : Bool) (n k : ℕ) :
    (round sign n k).magnitude = Layout.double.round n k := by
  refine magnitude_ofParts sign ?_
  have h := Layout.double.round_le_infinity n k
  rw [infinity_double] at h
  omega

theorem isNaN_round (sign : Bool) (n k : ℕ) : (round sign n k).isNaN = false := by
  have h := Layout.double.round_le_infinity n k
  rw [isNaN, magnitude_round, decide_eq_false_iff_not]
  omega

theorem isZero_round (sign : Bool) (n : ℕ) : (round sign n 1).isZero = decide (n = 0) := by
  rw [isZero, magnitude_round]
  exact decide_eq_decide.mpr (Layout.round_one_eq_zero_iff (by decide) n)

end Double

end M68kFloat
