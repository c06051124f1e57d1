import M68kFloat.Binary.Double

/-!
# Condition codes

Bits 27 to 24 of the status register say of a double whether it is negative, a
zero, an infinity and a NaN.  They are read off the pattern, so negative zero is
both negative and zero and a NaN has a sign.

`ConditionCodes.ofStatus_replace` says that codes put into a status register are
the codes found there, and `ConditionCodes.getLsbD_replace` that nothing else in it
changes.
-/

namespace M68kFloat

structure ConditionCodes where
  /-- N: the sign bit is set. -/
  negative : Bool
  /-- Z: a zero. -/
  zero : Bool
  /-- I: an infinity. -/
  infinite : Bool
  /-- NAN: not a number. -/
  nan : Bool
  deriving DecidableEq

namespace ConditionCodes

def ofDouble (d : Double) : ConditionCodes := ⟨d.sign, d.isZero, d.isInfinite, d.isNaN⟩

/-- The codes in a status register. -/
def ofStatus (status : Long) : ConditionCodes :=
  ⟨status.getLsbD 27, status.getLsbD 26, status.getLsbD 25, status.getLsbD 24⟩

/-- The codes as the four bits of the status register, N first. -/
def bits (codes : ConditionCodes) : BitVec 4 :=
  BitVec.ofBool codes.negative ++ BitVec.ofBool codes.zero ++ BitVec.ofBool codes.infinite ++
    BitVec.ofBool codes.nan

/-- The status register with its codes replaced. -/
def replace (codes : ConditionCodes) (status : Long) : Long :=
  status.extractLsb' 28 4 ++ codes.bits ++ status.extractLsb' 0 24

/-- The bits of a status register with its codes replaced. -/
theorem getLsbD_replace_eq (codes : ConditionCodes) (status : Long) (k : Nat) :
    (codes.replace status).getLsbD k =
      if 24 ≤ k ∧ k < 28 then codes.bits.getLsbD (k - 24) else status.getLsbD k := by
  have split : ∀ (top middle : BitVec 4) (low : BitVec 24),
      BitVec.getLsbD (w := 4 + 4 + 24) (top ++ middle ++ low) k =
        if k < 24 then low.getLsbD k
        else if k - 24 < 4 then middle.getLsbD (k - 24) else top.getLsbD (k - 24 - 4) := by
    intro top middle low
    simp only [BitVec.getLsbD_append]
  refine (split _ _ _).trans ?_
  by_cases h : k < 24
  · simp [h, show ¬ 24 ≤ k by omega]
  · by_cases h' : k < 28
    · simp [h, h', show 24 ≤ k by omega, show k - 24 < 4 by omega]
    · by_cases hk : k < 32
      · simp [h, h', show ¬ k - 24 < 4 by omega, show k - 24 - 4 < 4 by omega,
          show 28 + (k - 24 - 4) = k by omega]
      · simp [h, h', show ¬ k - 24 < 4 by omega, show ¬ k - 24 - 4 < 4 by omega,
          BitVec.getLsbD_of_ge status k (by omega)]

@[simp] theorem ofStatus_replace (codes : ConditionCodes) (status : Long) :
    ofStatus (codes.replace status) = codes := by
  obtain ⟨n, z, i, nan⟩ := codes
  simp only [ofStatus, getLsbD_replace_eq]
  cases n <;> cases z <;> cases i <;> cases nan <;> rfl

/-- All bits but the four codes stay. -/
theorem getLsbD_replace (codes : ConditionCodes) (status : Long) {k : Nat}
    (h : k < 24 ∨ 28 ≤ k) : (codes.replace status).getLsbD k = status.getLsbD k := by
  rw [getLsbD_replace_eq, if_neg (by omega)]

end ConditionCodes

end M68kFloat
