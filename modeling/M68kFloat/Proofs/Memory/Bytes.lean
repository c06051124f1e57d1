import Mathlib.Algebra.Group.Nat.Defs
import M68kFloat.Memory

/-!
# Memory byte by byte

`Written before after a n bytes` says that `after` is `before` with the `n` bytes
`bytes 0`, …, `bytes (n - 1)` put at the addresses from `a` up, the addresses taken in the
bits that count.  A byte put into memory is such a write, and `Written.append` says that
two writes that meet are one, as long as they do not run once around the memory.  So
words, longs, doubles, extended images and whole register lists are all one write, whose
bytes are those of a value, the most significant first (`bigEndian`).

In the other direction a value read is determined by the bytes it consists of
(`eq_of_bigEndian`), so reading what was written gives the value back.
-/

namespace M68kFloat.Memory

/-! ### Distances -/

theorem sub_ofNat_sub (a : Long) (n k : Nat) :
    a - BitVec.ofNat 32 n - BitVec.ofNat 32 k = a - BitVec.ofNat 32 (n + k) := by
  apply BitVec.eq_of_toNat_eq
  simp only [BitVec.toNat_sub, BitVec.toNat_ofNat]
  omega

/-- How far the byte at `b` lies above the byte at `a`. -/
def distance (a b : Long) : Nat := (index (b - a)).toNat

theorem distance_lt (a b : Long) : distance a b < 2 ^ 24 := (index (b - a)).isLt

theorem distance_eq (a b : Long) : distance a b = (2 ^ 32 - a.toNat + b.toNat) % 2 ^ 24 := by
  simp only [distance, index, BitVec.toNat_setWidth, BitVec.toNat_sub]
  omega

@[simp] theorem distance_self (a : Long) : distance a a = 0 := by
  simp [distance, index]

theorem distance_add_left (a b : Long) {k : Nat} (hk : k ≤ 2 ^ 24) :
    distance (a + BitVec.ofNat 32 k) b = (distance a b + (2 ^ 24 - k)) % 2 ^ 24 := by
  simp only [distance_eq, BitVec.toNat_add, BitVec.toNat_ofNat]
  omega

theorem distance_add_right (a : Long) {k : Nat} (hk : k < 2 ^ 24) :
    distance a (a + BitVec.ofNat 32 k) = k := by
  simp only [distance_eq, BitVec.toNat_add, BitVec.toNat_ofNat]
  omega

theorem distance_sub_left (a b : Long) (k : Nat) :
    distance (a - BitVec.ofNat 32 k) b = (distance a b + k) % 2 ^ 24 := by
  simp only [distance_eq, BitVec.toNat_sub, BitVec.toNat_ofNat]
  omega

/-- Two addresses name one byte when they are equally far from a third. -/
theorem index_eq_iff_distance (a b c : Long) : index b = index c ↔ distance a b = distance a c := by
  rw [← BitVec.toNat_inj]
  simp only [distance_eq, index, BitVec.toNat_setWidth]
  omega

/-! ### Blocks -/

/-- The address `b` is one of the `n` addresses from `a` up. -/
def Within (a : Long) (n : Nat) (b : Long) : Prop := distance a b < n

instance (a : Long) (n : Nat) (b : Long) : Decidable (Within a n b) :=
  inferInstanceAs (Decidable (distance a b < n))

/-- The parts of a block, the first one below. -/
theorem within_append_iff {a b : Long} {n k : Nat} (hRoom : n + k ≤ 2 ^ 24) :
    Within a (n + k) b ↔ Within a n b ∨ Within (a + BitVec.ofNat 32 n) k b := by
  have hd := distance_lt a b
  simp only [Within, distance_add_left a b (show n ≤ 2 ^ 24 by omega)]
  omega

example : Within 0x00FFFFFF 2 0x5A000000 := by decide

/-- Two blocks have no byte in common if each begins after the end of the other. -/
theorem not_within_of_distance {a a' b : Long} {n k : Nat} (h : n ≤ distance a a')
    (h' : k ≤ distance a' a) (hb : Within a n b) : ¬ Within a' k b := by
  simp only [Within, distance_eq] at h h' hb ⊢
  omega

/-- What lies in a block does not lie in the block that ends where it begins. -/
theorem not_within_sub_of_within {a b : Long} {n k : Nat} (h : Within a n b)
    (hRoom : n + k ≤ 2 ^ 24) : ¬ Within (a - BitVec.ofNat 32 k) k b := by
  simp only [Within, distance_sub_left] at h ⊢
  omega

theorem within_add_iff {a b : Long} {n k : Nat} (hRoom : n + k ≤ 2 ^ 24) :
    Within (a - BitVec.ofNat 32 (n + k)) (n + k) b ↔
      Within (a - BitVec.ofNat 32 n) n b ∨
        Within (a - BitVec.ofNat 32 n - BitVec.ofNat 32 k) k b := by
  have hd := distance_lt a b
  simp only [Within, distance_sub_left]
  omega

/-- The first bytes below an address are among those below it. -/
theorem within_sub_mono {a b : Long} {n k : Nat} (h : Within (a - BitVec.ofNat 32 n) n b)
    (hLe : n ≤ k) (hRoom : k ≤ 2 ^ 24) : Within (a - BitVec.ofNat 32 k) k b := by
  have hd := distance_lt a b
  simp only [Within, distance_sub_left] at h ⊢
  omega

/-! ### The bytes of a value -/

/-- The `i`-th byte of a value, the most significant first. -/
def bigEndian {w : Nat} (value : BitVec w) (i : Nat) : Byte := value.extractLsb' (w - 8 * (i + 1)) 8

theorem eq_of_bigEndian {n : Nat} {x y : BitVec (8 * n)}
    (h : ∀ i < n, bigEndian x i = bigEndian y i) : x = y := by
  apply BitVec.eq_of_getLsbD_eq
  intro p hp
  have hByte := congrArg (fun b => b.getLsbD (p % 8)) (h (n - 1 - p / 8) (by omega))
  have hBit : 8 * n - 8 * (n - 1 - p / 8 + 1) + p % 8 = p := by omega
  have hMod : p % 8 < 8 := by omega
  simpa [bigEndian, hBit, hMod] using hByte

/-- The bytes of two values put together are the bytes of the first and then those of the
second. -/
theorem bigEndian_append {n k : Nat} (x : BitVec (8 * n)) (y : BitVec (8 * k)) {i : Nat}
    (hi : i < n + k) :
    bigEndian (x ++ y) i = if i < n then bigEndian x i else bigEndian y (i - n) := by
  apply BitVec.eq_of_getLsbD_eq
  intro p hp
  by_cases h : i < n
  · rw [if_pos h]
    have hHigh : ¬ 8 * n + 8 * k - 8 * (i + 1) + p < 8 * k := by omega
    have hBit : 8 * n + 8 * k - 8 * (i + 1) + p - 8 * k = 8 * n - 8 * (i + 1) + p := by omega
    simp only [bigEndian, BitVec.getLsbD_extractLsb', BitVec.getLsbD_append, hp, hHigh, hBit,
      decide_true, Bool.true_and, if_false]
  · rw [if_neg h]
    have hLow : 8 * n + 8 * k - 8 * (i + 1) + p < 8 * k := by omega
    have hBit : 8 * n + 8 * k - 8 * (i + 1) + p = 8 * k - 8 * (i - n + 1) + p := by omega
    simp only [bigEndian, BitVec.getLsbD_extractLsb', BitVec.getLsbD_append, hp, hLow,
      decide_true, Bool.true_and, if_true]
    rw [hBit]

/-! ### Writes -/

/-- `after` is `before` with the bytes `bytes 0`, …, `bytes (n - 1)` put at `a` and the
addresses after it. -/
def Written (before after : Memory) (a : Long) (n : Nat) (bytes : Nat → Byte) : Prop :=
  ∀ b, after.peek b = if distance a b < n then bytes (distance a b) else before.peek b

theorem Written.congr {before after : Memory} {a : Long} {n : Nat} {bytes bytes' : Nat → Byte}
    (h : Written before after a n bytes) (hBytes : ∀ i < n, bytes i = bytes' i) :
    Written before after a n bytes' := by
  intro b
  rw [h b]
  by_cases hb : distance a b < n
  · rw [if_pos hb, if_pos hb, hBytes _ hb]
  · rw [if_neg hb, if_neg hb]

theorem Written.peek_of_not_within {before after : Memory} {a b : Long} {n : Nat}
    {bytes : Nat → Byte} (h : Written before after a n bytes) (hb : ¬ Within a n b) :
    after.peek b = before.peek b :=
  (h b).trans (if_neg hb)

theorem Written.peek_add {before after : Memory} {a : Long} {n : Nat} {bytes : Nat → Byte}
    (h : Written before after a n bytes) {i : Nat} (hi : i < n) (hn : n ≤ 2 ^ 24) :
    after.peek (a + BitVec.ofNat 32 i) = bytes i := by
  rw [h, distance_add_right a (by omega), if_pos hi]

/-- **Two writes that meet are one.** -/
theorem Written.append {before middle after : Memory} {a : Long} {n k : Nat}
    {first second : Nat → Byte} (hFirst : Written before middle a n first)
    (hSecond : Written middle after (a + BitVec.ofNat 32 n) k second) (hRoom : n + k ≤ 2 ^ 24) :
    Written before after a (n + k) fun i => if i < n then first i else second (i - n) := by
  intro b
  have hd := distance_lt a b
  rw [hSecond b, hFirst b, distance_add_left a b (by omega)]
  dsimp only
  by_cases h : distance a b < n
  · rw [if_neg (show ¬ (distance a b + (2 ^ 24 - n)) % 2 ^ 24 < k by omega), if_pos h,
      if_pos (by omega), if_pos h]
  · have hRest : (distance a b + (2 ^ 24 - n)) % 2 ^ 24 = distance a b - n := by omega
    rw [hRest, if_neg h]
    by_cases hk : distance a b - n < k
    · rw [if_pos hk, if_pos (by omega), if_neg h]
    · rw [if_neg hk, if_neg (by omega)]

theorem written_poke (memory : Memory) (a : Long) (value : Byte) :
    Written memory (memory.poke a value) a 1 (bigEndian value) := by
  intro b
  have hIndex : index b = index a ↔ distance a b = 0 := by
    rw [index_eq_iff_distance a, distance_self]
  rw [peek_poke]
  by_cases h : distance a b = 0
  · rw [if_pos (hIndex.mpr h), if_pos (by omega), h]
    simp [bigEndian]
  · rw [if_neg (fun hEq => h (hIndex.mp hEq)), if_neg (by omega)]

theorem Written.append_bigEndian {before middle after : Memory} {a : Long} {n k : Nat}
    {x : BitVec (8 * n)} {y : BitVec (8 * k)} (hFirst : Written before middle a n (bigEndian x))
    (hSecond : Written middle after (a + BitVec.ofNat 32 n) k (bigEndian y))
    (hRoom : n + k ≤ 2 ^ 24) : Written before after a (n + k) (bigEndian (x ++ y)) :=
  (hFirst.append hSecond hRoom).congr fun _ hi => (bigEndian_append x y hi).symm

theorem written_pokeWord (memory : Memory) (a : Long) (value : Word) :
    Written memory (memory.pokeWord a value) a 2 (bigEndian value) := by
  have h := (written_poke memory a (value.extractLsb' 8 8)).append_bigEndian (n := 1) (k := 1)
    (written_poke _ (a + 1) (value.extractLsb' 0 8)) (by decide)
  rwa [BitVec.extractLsb'_append_extractLsb' (w := 8)] at h

theorem written_pokeLong (memory : Memory) (a value : Long) :
    Written memory (memory.pokeLong a value) a 4 (bigEndian value) := by
  have h := (written_pokeWord memory a (value.extractLsb' 16 16)).append_bigEndian (n := 2) (k := 2)
    (written_pokeWord _ (a + 2) (value.extractLsb' 0 16)) (by decide)
  rwa [BitVec.extractLsb'_append_extractLsb' (w := 16)] at h

/-! ### Reads -/

/-- The bytes of `value` are the `n` bytes of `memory` from `a` up. -/
def Reads {w : Nat} (memory : Memory) (a : Long) (n : Nat) (value : BitVec w) : Prop :=
  ∀ i < n, bigEndian value i = memory.peek (a + BitVec.ofNat 32 i)

/-- Only one value can be read at an address. -/
theorem Reads.unique {memory : Memory} {a : Long} {n : Nat} {x y : BitVec (8 * n)}
    (hx : Reads memory a n x) (hy : Reads memory a n y) : x = y :=
  eq_of_bigEndian fun i hi => (hx i hi).trans (hy i hi).symm

/-- What is read depends on the bytes read alone. -/
theorem Reads.congr {w : Nat} {memory memory' : Memory} {a : Long} {n : Nat} {value : BitVec w}
    (h : Reads memory a n value) (hn : n ≤ 2 ^ 24)
    (hBytes : ∀ b, Within a n b → memory'.peek b = memory.peek b) : Reads memory' a n value := by
  intro i hi
  rw [h i hi, hBytes]
  rw [Within, distance_add_right a (by omega)]
  exact hi

/-- What has been written is read. -/
theorem Written.reads {w : Nat} {before after : Memory} {a : Long} {n : Nat} {value : BitVec w}
    (h : Written before after a n (bigEndian value)) (hn : n ≤ 2 ^ 24) :
    Reads after a n value :=
  fun _ hi => (h.peek_add hi hn).symm

theorem Reads.append {memory : Memory} {a : Long} {n k : Nat} {x : BitVec (8 * n)}
    {y : BitVec (8 * k)} (hx : Reads memory a n x) (hy : Reads memory (a + BitVec.ofNat 32 n) k y) :
    Reads memory a (n + k) (x ++ y) := by
  intro i hi
  rw [bigEndian_append x y hi]
  by_cases h : i < n
  · rw [if_pos h, hx i h]
  · rw [if_neg h, hy (i - n) (by omega), BitVec.add_assoc, ← BitVec.ofNat_add,
      show n + (i - n) = i by omega]

theorem Reads.of_append {memory : Memory} {a : Long} {n k : Nat} {x : BitVec (8 * n)}
    {y : BitVec (8 * k)} (h : Reads memory a (n + k) (x ++ y)) : Reads memory a n x := by
  intro i hi
  rw [← h i (by omega), bigEndian_append x y (by omega), if_pos hi]

theorem reads_peek (memory : Memory) (a : Long) : Reads memory a 1 (memory.peek a) := by
  intro i hi
  obtain rfl : i = 0 := by omega
  simp [bigEndian]

theorem reads_peekWord (memory : Memory) (a : Long) : Reads memory a 2 (memory.peekWord a) :=
  (reads_peek memory a).append (n := 1) (k := 1) (reads_peek memory (a + 1))

theorem reads_peekLong (memory : Memory) (a : Long) : Reads memory a 4 (memory.peekLong a) := by
  have hLast : a + 2 + 1 = a + 3 := by rw [BitVec.add_assoc]; rfl
  have hWords : memory.peekLong a = memory.peekWord a ++ memory.peekWord (a + 2) := by
    rw [peekLong, peekWord, peekWord, hLast]
    exact BitVec.append_assoc
  rw [hWords]
  exact (reads_peekWord memory a).append (n := 2) (k := 2) (reads_peekWord memory (a + 2))

end M68kFloat.Memory
