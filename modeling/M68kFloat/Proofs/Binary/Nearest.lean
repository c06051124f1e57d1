import Mathlib.Algebra.Order.Field.Basic
import Mathlib.Tactic.Linarith
import M68kFloat.Proofs.Binary.Rounding

/-!
# Rounding to the nearest

`Layout.round` gives the word nearest to a quotient, and of two that are equally near the even one
(`Layout.Nearest`).  Where the quotient lies, the words are the multiples of a power of two, and
among these it is a matter of rounding to an integer (`nearestEven_error`).  A word further down
lies on a finer grid, but it is below a number of the grid that the quotient is above.

This is about words without an end.  The word of an infinity is one of them, so a quotient rounds to
it or beyond as soon as it reaches the number in the middle between the infinity and the last
finite word (`Nearest.le_iff`); being even, the infinity wins the tie.  And since words are ordered
as their magnitudes are, a larger quotient never rounds to a smaller word (`Nearest.mono`).
-/

namespace M68kFloat

/-! ### Distances -/

theorem midpoint_le_of_abs_sub_le {x a b : ℚ} (hab : a < b) (h : |x - b| ≤ |x - a|) :
    (a + b) / 2 ≤ x := by
  by_contra hx
  have hLess : x < (a + b) / 2 := not_le.mp hx
  have hRight : b - x ≤ |x - b| := by
    rw [abs_sub_comm]
    exact le_abs_self _
  have hLeft : |x - a| < b - x := abs_lt.mpr ⟨by linarith, by linarith⟩
  linarith

theorem le_midpoint_of_abs_sub_le {x a b : ℚ} (hab : a < b) (h : |x - a| ≤ |x - b|) :
    x ≤ (a + b) / 2 := by
  by_contra hx
  have hGreater : (a + b) / 2 < x := not_le.mp hx
  have hLeft : x - a ≤ |x - a| := le_abs_self _
  have hRight : |x - b| < x - a := abs_lt.mpr ⟨by linarith, by linarith⟩
  linarith

theorem abs_sub_eq_of_midpoint {x a b : ℚ} (h : x = (a + b) / 2) : |x - b| = |x - a| := by
  have hOpposite : x - b = -(x - a) := by
    rw [h]
    ring
  rw [hOpposite, abs_neg]

/-! ### Rounding to an integer -/

section NearestEven

variable {n d : ℕ}

theorem div_le_nearestEven (n d : ℕ) : n / d ≤ nearestEven n d := by
  simp only [nearestEven]
  split <;> omega

theorem nearestEven_le (n d : ℕ) : nearestEven n d ≤ n / d + 1 := by
  simp only [nearestEven]
  split <;> omega

theorem quotient_eq (n : ℕ) (hd : 0 < d) :
    (n : ℚ) / d = (n / d : ℕ) + ((n % d : ℕ) : ℚ) / d := by
  have hPos : (0 : ℚ) < d := Nat.cast_pos.mpr hd
  have hDivision : ((d * (n / d) + n % d : ℕ) : ℚ) = n := congrArg Nat.cast (Nat.div_add_mod n d)
  push_cast at hDivision
  field_simp
  linarith

/-- Rounding to an integer is off by at most one half, and where it is, the integer is even. -/
theorem nearestEven_error (n : ℕ) (hd : 0 < d) :
    |(n : ℚ) / d - nearestEven n d| ≤ 1 / 2 ∧
      (|(n : ℚ) / d - nearestEven n d| = 1 / 2 → nearestEven n d % 2 = 0) := by
  have hPos : (0 : ℚ) < d := Nat.cast_pos.mpr hd
  have hRest : ((n % d : ℕ) : ℚ) < d := Nat.cast_lt.mpr (Nat.mod_lt n hd)
  have hHalf : ((n % d : ℕ) : ℚ) / d = 1 / 2 ↔ 2 * (n % d) = d := by
    rw [div_eq_div_iff hPos.ne' two_ne_zero, ← Nat.cast_inj (R := ℚ)]
    push_cast
    constructor <;> intro h <;> linarith
  rw [quotient_eq n hd]
  by_cases hDown : 2 * (n % d) < d ∨ 2 * (n % d) = d ∧ n / d % 2 = 0
  · have hSmall : ((n % d : ℕ) : ℚ) / d ≤ 1 / 2 := by
      have hTwice : ((2 * (n % d) : ℕ) : ℚ) ≤ d := Nat.cast_le.mpr (by omega)
      push_cast at hTwice
      rw [div_le_div_iff₀ hPos two_pos]
      linarith
    have hDistance : |((n / d : ℕ) : ℚ) + ((n % d : ℕ) : ℚ) / d - nearestEven n d| =
        ((n % d : ℕ) : ℚ) / d := by
      rw [nearestEven, if_pos hDown, add_sub_cancel_left,
        abs_of_nonneg (div_nonneg (Nat.cast_nonneg _) hPos.le)]
    rw [hDistance, hHalf]
    refine ⟨hSmall, fun hTie => ?_⟩
    rw [nearestEven, if_pos hDown]
    omega
  · have hLarge : 1 / 2 ≤ ((n % d : ℕ) : ℚ) / d := by
      have hTwice : (d : ℚ) ≤ ((2 * (n % d) : ℕ) : ℚ) := Nat.cast_le.mpr (by omega)
      push_cast at hTwice
      rw [div_le_div_iff₀ two_pos hPos]
      linarith
    have hBelowOne : ((n % d : ℕ) : ℚ) / d < 1 := (div_lt_one hPos).mpr hRest
    have hDistance : |((n / d : ℕ) : ℚ) + ((n % d : ℕ) : ℚ) / d - nearestEven n d| =
        1 - ((n % d : ℕ) : ℚ) / d := by
      rw [nearestEven, if_neg hDown, Nat.cast_add, Nat.cast_one, add_sub_add_left_eq_sub,
        abs_sub_comm, abs_of_nonneg (by linarith)]
    rw [hDistance]
    refine ⟨by linarith, fun hTie => ?_⟩
    have hHalves := hHalf.mp (by linarith)
    rw [nearestEven, if_neg hDown]
    omega

/-- Half a step is as near as an integer can come. -/
theorem nearestEven_nearest (n : ℕ) (hd : 0 < d) (m : ℕ) :
    |(n : ℚ) / d - nearestEven n d| ≤ |(n : ℚ) / d - m| ∧
      (m ≠ nearestEven n d → |(n : ℚ) / d - m| = |(n : ℚ) / d - nearestEven n d| →
        nearestEven n d % 2 = 0) := by
  obtain ⟨hError, hTie⟩ := nearestEven_error n hd
  have hApart (hNe : m ≠ nearestEven n d) :
      1 ≤ |(n : ℚ) / d - nearestEven n d| + |(n : ℚ) / d - m| := by
    have hStep : (1 : ℚ) ≤ |(m : ℚ) - nearestEven n d| := by
      have hInt : (1 : ℤ) ≤ |(m : ℤ) - nearestEven n d| :=
        Int.one_le_abs (sub_ne_zero.mpr (Nat.cast_injective.ne hNe))
      exact_mod_cast hInt
    have hTriangle := abs_sub_le (m : ℚ) ((n : ℚ) / d) (nearestEven n d)
    rw [abs_sub_comm (m : ℚ) ((n : ℚ) / d)] at hTriangle
    linarith
  constructor
  · by_cases hSame : m = nearestEven n d
    · rw [hSame]
    · linarith [hApart hSame]
  · intro hNe hEqual
    exact hTie (by linarith [hApart hNe])

end NearestEven

namespace Layout

variable {layout : Layout}

/-! ### Words in order -/

/-- The magnitude of a word, also where the fraction has just run over. -/
theorem units_of_grid {q s : ℕ} (hFits : q ≤ 2 * layout.lead) (hLeast : s = 0 ∨ layout.lead ≤ q) :
    layout.units (s * layout.lead + q) = q * 2 ^ s := by
  rcases Nat.lt_or_eq_of_le hFits with hLess | rfl
  · exact Normal.units ⟨hLess, hLeast⟩
  · have hNext : layout.Normal layout.lead (s + 1) := by
      have hPos := layout.lead_pos
      exact ⟨by omega, Or.inr le_rfl⟩
    have hWord : s * layout.lead + 2 * layout.lead = (s + 1) * layout.lead + layout.lead := by ring
    rw [hWord, hNext.units]
    ring

theorem units_zero_word : layout.units 0 = 0 := units_of_lt layout.lead_pos

/-- **Words are ordered as their magnitudes are.** -/
theorem units_strictMono (layout : Layout) : StrictMono layout.units := by
  refine strictMono_nat_of_lt_succ fun word => ?_
  obtain ⟨q, s, hNormal, rfl⟩ := layout.exists_normal_word word
  have hFits := hNormal.fits
  have hLeast := hNormal.least
  have hNext : layout.units (s * layout.lead + (q + 1)) = (q + 1) * 2 ^ s :=
    units_of_grid (by omega) (by omega)
  rw [hNormal.units, Nat.add_assoc, hNext]
  exact Nat.mul_lt_mul_of_pos_right (Nat.lt_succ_self q) (Nat.two_pow_pos s)

/-- A word is on the grid of a power of two, or below the first leading one of it. -/
theorem grid_or_below (layout : Layout) (s word : ℕ) :
    (∃ m, layout.units word = m * 2 ^ s) ∨
      s ≠ 0 ∧ layout.units word < layout.lead * 2 ^ s := by
  by_cases hBelow : s ≠ 0 ∧ word < s * layout.lead + layout.lead
  · refine Or.inr ⟨hBelow.1, ?_⟩
    have hPos := layout.lead_pos
    have hFirst : layout.units (s * layout.lead + layout.lead) = layout.lead * 2 ^ s :=
      units_of_grid (by omega) (Or.inr le_rfl)
    rw [← hFirst]
    exact units_strictMono layout hBelow.2
  · obtain ⟨q, k, hNormal, rfl⟩ := layout.exists_normal_word word
    have hFits := hNormal.fits
    have hFiner : s ≤ k := by
      by_contra hLess
      have hRow : (k + 1) * layout.lead ≤ s * layout.lead := Nat.mul_le_mul_right _ (by omega)
      rw [Nat.succ_mul] at hRow
      omega
    refine Or.inl ⟨q * 2 ^ (k - s), ?_⟩
    rw [hNormal.units, Nat.mul_assoc, ← Nat.pow_add, Nat.sub_add_cancel hFiner]

/-! ### Nearest words -/

/-- No word is nearer to a number of least subnormals, and none is as near unless this one is
even. -/
structure Nearest (layout : Layout) (x : ℚ) (word : ℕ) : Prop where
  closest : ∀ other, |x - layout.units word| ≤ |x - layout.units other|
  even : ∀ other, other ≠ word → |x - layout.units other| = |x - layout.units word| → word % 2 = 0

/-- The power of two by which a quotient is divided to be rounded. -/
def shift (layout : Layout) (n d : ℕ) : ℕ := (n / d).log2 - layout.fraction

/-- The word nearest to a quotient among words without an end. -/
def unbounded (layout : Layout) (n d : ℕ) : ℕ :=
  layout.shift n d * layout.lead + nearestEven n (d * 2 ^ layout.shift n d)

theorem round_eq_min (layout : Layout) (n d : ℕ) :
    layout.round n d = min (layout.unbounded n d) layout.infinity := by
  rw [round, unbounded, shift, Nat.shiftLeft_eq]

/-- Divided by this power, a quotient fits the fraction with its leading one. -/
theorem shift_spec (layout : Layout) (n d : ℕ) :
    n / (d * 2 ^ layout.shift n d) < 2 * layout.lead ∧
      (layout.shift n d = 0 ∨ layout.lead ≤ n / (d * 2 ^ layout.shift n d)) := by
  rw [← Nat.div_div_eq_div_mul, lead_eq, ← Nat.pow_succ', shift]
  generalize n / d = quotient
  have hPower := Nat.two_pow_pos (quotient.log2 - layout.fraction)
  have hHigh : quotient < 2 ^ (quotient.log2 + 1) := Nat.lt_log2_self
  constructor
  · rw [Nat.div_lt_iff_lt_mul hPower, ← Nat.pow_add]
    exact hHigh.trans_le (Nat.pow_le_pow_right (by decide) (by omega))
  · by_cases hSmall : quotient.log2 ≤ layout.fraction
    · exact Or.inl (by omega)
    · have hNonzero : quotient ≠ 0 := by
        rintro rfl
        simp at hSmall
      rw [Nat.le_div_iff_mul_le hPower, ← Nat.pow_add, Nat.add_sub_cancel' (by omega)]
      exact Or.inr (Nat.log2_self_le hNonzero)

theorem lead_mod_two (hFraction : 0 < layout.fraction) : layout.lead % 2 = 0 := by
  obtain ⟨k, hk⟩ : ∃ k, layout.fraction = k + 1 := ⟨_, (Nat.sub_add_cancel hFraction).symm⟩
  rw [lead_eq, hk, Nat.pow_succ]
  exact Nat.mul_mod_left _ 2

/-- On the grid, distances are those of the integers times its step. -/
theorem abs_sub_grid (n d s m : ℕ) :
    |(n : ℚ) / d - (m * 2 ^ s : ℕ)| = |(n : ℚ) / (d * 2 ^ s : ℕ) - m| * 2 ^ s := by
  have hPower : (0 : ℚ) < 2 ^ s := by positivity
  have hScaled : (n : ℚ) / d - (m * 2 ^ s : ℕ) = ((n : ℚ) / (d * 2 ^ s : ℕ) - m) * 2 ^ s := by
    push_cast
    rw [sub_mul, div_mul_eq_mul_div, mul_div_mul_right _ _ hPower.ne']
  rw [hScaled, abs_mul, abs_of_pos hPower]

theorem cast_mul_le_div {n d s m : ℕ} (hd : 0 < d) (h : m ≤ n / (d * 2 ^ s)) :
    ((m * 2 ^ s : ℕ) : ℚ) ≤ (n : ℚ) / d := by
  have hMul := (Nat.le_div_iff_mul_le (Nat.mul_pos hd (Nat.two_pow_pos s))).mp h
  rw [le_div_iff₀ (Nat.cast_pos.mpr hd), ← Nat.cast_mul, Nat.cast_le]
  calc m * 2 ^ s * d = m * (d * 2 ^ s) := by ring
    _ ≤ n := hMul

/-- **A quotient rounds to the nearest word**, of two that are equally near to the even one. -/
theorem nearest_unbounded (hFraction : 0 < layout.fraction) (n : ℕ) {d : ℕ} (hd : 0 < d) :
    layout.Nearest ((n : ℚ) / d) (layout.unbounded n d) := by
  obtain ⟨hFits, hLeast⟩ := layout.shift_spec n d
  rw [unbounded]
  generalize layout.shift n d = s at hFits hLeast ⊢
  have hLow := div_le_nearestEven n (d * 2 ^ s)
  have hHigh := nearestEven_le n (d * 2 ^ s)
  have hNearest := nearestEven_nearest n (Nat.mul_pos hd (Nat.two_pow_pos s))
  have hUnits : layout.units (s * layout.lead + nearestEven n (d * 2 ^ s)) =
      nearestEven n (d * 2 ^ s) * 2 ^ s := units_of_grid (by omega) (by omega)
  generalize nearestEven n (d * 2 ^ s) = q at hLow hHigh hNearest hUnits ⊢
  have hOnGrid (m : ℕ) : |(n : ℚ) / d - (q * 2 ^ s : ℕ)| ≤ |(n : ℚ) / d - (m * 2 ^ s : ℕ)| := by
    rw [abs_sub_grid, abs_sub_grid]
    exact mul_le_mul_of_nonneg_right (hNearest m).1 (by positivity)
  -- below the grid nothing is as near as its first leading one
  have hBelow (other : ℕ) (hs : s ≠ 0) (hOther : layout.units other < layout.lead * 2 ^ s) :
      |(n : ℚ) / d - (q * 2 ^ s : ℕ)| < |(n : ℚ) / d - layout.units other| := by
    have hLead := cast_mul_le_div hd (hLeast.resolve_left hs)
    have hFurther : (layout.units other : ℚ) < (layout.lead * 2 ^ s : ℕ) := Nat.cast_lt.mpr hOther
    have hCloser := hOnGrid layout.lead
    rw [abs_of_nonneg (sub_nonneg.mpr hLead)] at hCloser
    rw [abs_of_pos (show 0 < (n : ℚ) / d - layout.units other by linarith)]
    linarith
  constructor
  case closest =>
    intro other
    rw [hUnits]
    rcases layout.grid_or_below s other with ⟨m, hm⟩ | ⟨hs, hOther⟩
    · rw [hm]
      exact hOnGrid m
    · exact (hBelow other hs hOther).le
  case even =>
    intro other hNe hTie
    rw [hUnits] at hTie
    rcases layout.grid_or_below s other with ⟨m, hm⟩ | ⟨hs, hOther⟩
    · have hNumber : m ≠ q := by
        rintro rfl
        exact hNe ((units_strictMono layout).injective (hm.trans hUnits.symm))
      rw [hm, abs_sub_grid, abs_sub_grid, mul_left_inj' (by positivity)] at hTie
      have hEven := (hNearest m).2 hNumber hTie
      rw [Nat.add_mod, Nat.mul_mod, lead_mod_two hFraction, hEven]
      rfl
    · exact absurd hTie (hBelow other hs hOther).ne'

namespace Nearest

variable {x y : ℚ} {word word' : ℕ}

/-- **A larger number never rounds to a smaller word.** -/
theorem mono (hx : layout.Nearest x word) (hy : layout.Nearest y word') (h : x ≤ y) :
    word ≤ word' := by
  by_contra hLess
  have hUnits {a b : ℕ} (hab : a < b) : (layout.units a : ℚ) < layout.units b :=
    Nat.cast_lt.mpr (units_strictMono layout hab)
  have hOrder := hUnits (not_le.mp hLess)
  have hMiddle := midpoint_le_of_abs_sub_le hOrder (hx.closest word')
  have hMiddle' := le_midpoint_of_abs_sub_le hOrder (hy.closest word)
  -- the numbers are the same and in the middle between the words, so both words are even
  have hTie : |x - layout.units word| = |x - layout.units word'| :=
    abs_sub_eq_of_midpoint (by linarith)
  have hTie' : |y - layout.units word| = |y - layout.units word'| :=
    abs_sub_eq_of_midpoint (by linarith)
  have hEven := hx.even word' (by omega) hTie.symm
  have hEven' := hy.even word (by omega) hTie'
  -- and the word after the smaller one is nearer
  have hNext := hUnits (show word' < word' + 1 by omega)
  have hRest := hUnits (show word' + 1 < word by omega)
  have hNearer := midpoint_le_of_abs_sub_le hRest (hx.closest (word' + 1))
  linarith

/-- **Where an even word begins.** -/
theorem le_iff (h : layout.Nearest x word) {bound : ℕ} (hEven : bound % 2 = 0) (hPos : 0 < bound) :
    bound ≤ word ↔
      ((layout.units (bound - 1) : ℚ) + layout.units bound) / 2 ≤ x := by
  have hUnits {a b : ℕ} (hab : a < b) : (layout.units a : ℚ) < layout.units b :=
    Nat.cast_lt.mpr (units_strictMono layout hab)
  have hLast := hUnits (show bound - 1 < bound by omega)
  constructor
  · intro hReached
    have hMore : (layout.units bound : ℚ) ≤ layout.units word :=
      Nat.cast_le.mpr ((units_strictMono layout).monotone hReached)
    have hMiddle := midpoint_le_of_abs_sub_le (hLast.trans_le hMore) (h.closest (bound - 1))
    linarith
  · intro hMiddle
    by_contra hLess
    have hFewer : (layout.units word : ℚ) ≤ layout.units (bound - 1) :=
      Nat.cast_le.mpr ((units_strictMono layout).monotone (by omega))
    have hMiddle' := le_midpoint_of_abs_sub_le (hFewer.trans_lt hLast) (h.closest bound)
    -- only the word before the bound is left, it is as far away, and it is odd
    have hSame : (layout.units word : ℚ) = layout.units (bound - 1) := by linarith
    have hWord : word = bound - 1 := (units_strictMono layout).injective (Nat.cast_injective hSame)
    have hTie : |x - layout.units bound| = |x - layout.units word| :=
      abs_sub_eq_of_midpoint (by linarith)
    have hWordEven := h.even bound (by omega) hTie
    omega

end Nearest

end Layout

end M68kFloat
