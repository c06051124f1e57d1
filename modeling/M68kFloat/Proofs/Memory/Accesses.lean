import Mathlib.Data.List.Induction
import M68kFloat.Proofs.Operand.Fetching

/-!
# Memory as one array of bytes

A read or a write of each width is an access to consecutive bytes of one array, whatever
the widths of the other accesses and wherever they overlap, across the end of memory and
across the end of the addresses too.  `written_write` and `reads_read` say so for the bus
of a `Ram`, and `Reads.toNat` puts the bytes that a read finds together as one number.

Bytes that are loaded are put one by one.  A list may be longer than memory, and then
several of its bytes go to one place, where the last of them stays (`Loaded`).
-/

namespace M68kFloat

/-! ### Accesses of a width -/

namespace Bus

variable {β : Type} [Bus β]

/-- A read of a width. -/
def read : (width : BusWidth) → Long → β → BitVec (8 * width.bytes) × β
  | .byte => readByte
  | .word => readWord
  | .long => readLong

/-- A write of a width. -/
def write : (width : BusWidth) → Long → BitVec (8 * width.bytes) → β → β
  | .byte => writeByte
  | .word => writeWord
  | .long => writeLong

end Bus

namespace Ram

theorem written_write (ram : Ram) (a : Long) (width : BusWidth)
    (value : BitVec (8 * width.bytes)) :
    Memory.Written ram.memory (Bus.write width a value ram).memory a width.bytes
      (Memory.bigEndian value) := by
  cases width with
  | byte => exact Memory.written_poke ram.memory a value
  | word => exact Memory.written_pokeWord ram.memory a value
  | long => exact Memory.written_pokeLong ram.memory a value

theorem reads_read (ram : Ram) (a : Long) (width : BusWidth) :
    Memory.Reads ram.memory a width.bytes (Bus.read width a ram).1 := by
  cases width with
  | byte => exact Memory.reads_peek ram.memory a
  | word => exact Memory.reads_peekWord ram.memory a
  | long => exact Memory.reads_peekLong ram.memory a

theorem read_unchanged (ram : Ram) (a : Long) (width : BusWidth) :
    (Bus.read width a ram).2 = ram := by
  cases width <;> rfl

end Ram

namespace Memory

/-! ### The number that bytes stand for -/

/-- The number whose digits to the base 256 are `n` bytes, the most significant first. -/
def combine (bytes : Nat → Byte) (n : Nat) : Nat :=
  (List.range n).foldl (fun value i => 256 * value + (bytes i).toNat) 0

theorem combine_succ (bytes : Nat → Byte) (n : Nat) :
    combine bytes (n + 1) = 256 * combine bytes n + (bytes n).toNat := by
  simp only [combine, List.range_succ, List.foldl_append, List.foldl_cons, List.foldl_nil]

theorem combine_congr {bytes bytes' : Nat → Byte} {n : Nat} (h : ∀ i < n, bytes i = bytes' i) :
    combine bytes n = combine bytes' n := by
  induction n with
  | zero => rfl
  | succ n ih =>
    rw [combine_succ, combine_succ, h n (by omega), ih fun i hi => h i (by omega)]

/-- The first bytes of a value are what remains of it without the others. -/
theorem combine_bigEndian_of_le {n k : Nat} (value : BitVec (8 * n)) (hk : k ≤ n) :
    combine (bigEndian value) k = value.toNat / 2 ^ (8 * (n - k)) := by
  induction k with
  | zero =>
    have hAll : value.toNat < 2 ^ (8 * n) := value.isLt
    exact (Nat.div_eq_of_lt hAll).symm
  | succ k ih =>
    have hRest : 8 * (n - k) = 8 * (n - (k + 1)) + 8 := by omega
    have hByte : (bigEndian value k).toNat = value.toNat / 2 ^ (8 * (n - (k + 1))) % 256 := by
      rw [bigEndian, BitVec.extractLsb'_toNat, Nat.shiftRight_eq_div_pow, ← Nat.mul_sub]
    rw [combine_succ, ih (by omega), hByte, hRest, Nat.pow_add, ← Nat.div_div_eq_div_mul]
    exact Nat.div_add_mod _ 256

/-- **A value is the number that its bytes stand for.** -/
theorem combine_bigEndian {n : Nat} (value : BitVec (8 * n)) :
    combine (bigEndian value) n = value.toNat := by
  rw [combine_bigEndian_of_le value (Nat.le_refl n), Nat.sub_self, Nat.mul_zero, Nat.pow_zero,
    Nat.div_one]

example : combine (bigEndian (0x12345678 : Long)) 4 = 0x12345678 := by decide

theorem Reads.toNat {memory : Memory} {a : Long} {n : Nat} {value : BitVec (8 * n)}
    (h : Reads memory a n value) :
    value.toNat = combine (fun i => memory.peek (a + BitVec.ofNat 32 i)) n := by
  rw [← combine_bigEndian value]
  exact combine_congr h

/-! ### Loading -/

theorem load_append (memory : Memory) (a : Long) (bytes bytes' : List Byte) :
    memory.load a (bytes ++ bytes') =
      (memory.load a bytes).load (a + BitVec.ofNat 32 bytes.length) bytes' := by
  induction bytes generalizing memory a with
  | nil =>
    have hStart : a + BitVec.ofNat 32 0 = a := BitVec.add_zero a
    rw [List.length_nil, hStart]
    rfl
  | cons byte bytes ih =>
    have hNext : a + 1 + BitVec.ofNat 32 bytes.length = a + BitVec.ofNat 32 (bytes.length + 1) := by
      rw [BitVec.add_assoc, Nat.add_comm bytes.length, BitVec.ofNat_add]
      rfl
    rw [List.cons_append, load, load, ih, hNext, List.length_cons]

theorem load_concat (memory : Memory) (a : Long) (bytes : List Byte) (byte : Byte) :
    memory.load a (bytes ++ [byte]) =
      (memory.load a bytes).poke (a + BitVec.ofNat 32 bytes.length) byte :=
  load_append memory a bytes [byte]

/-- Each byte is put at the address of its position. -/
theorem load_eq_foldl (memory : Memory) (a : Long) (bytes : List Byte) :
    memory.load a bytes =
      bytes.zipIdx.foldl
        (fun memory entry => memory.poke (a + BitVec.ofNat 32 entry.2) entry.1) memory := by
  induction bytes using List.reverseRecOn with
  | nil => rfl
  | append_singleton bytes byte ih =>
    rw [load_concat, List.zipIdx_append, List.foldl_append, ← ih, Nat.zero_add]
    rfl

/-- `after` is `before` with bytes put at `a` and the addresses after it, the last one
staying where several are put. -/
structure Loaded (before after : Memory) (a : Long) (bytes : List Byte) : Prop where
  last : ∀ (b : Long) (i : Nat) (hi : i < bytes.length), index b = index (a + BitVec.ofNat 32 i) →
    (∀ j, i < j → j < bytes.length → index b ≠ index (a + BitVec.ofNat 32 j)) →
    after.peek b = bytes[i]
  missed : ∀ b, (∀ i < bytes.length, index b ≠ index (a + BitVec.ofNat 32 i)) →
    after.peek b = before.peek b

/-- One more byte replaces what lies at its place and nothing else. -/
theorem Loaded.concat {before after : Memory} {a : Long} {bytes : List Byte}
    (h : Loaded before after a bytes) (byte : Byte) :
    Loaded before (after.poke (a + BitVec.ofNat 32 bytes.length) byte) a (bytes ++ [byte]) where
  last b i hi hHit hLast := by
    rw [List.length_append, List.length_singleton] at hi hLast
    rw [peek_poke]
    by_cases hEnd : i = bytes.length
    · subst hEnd
      rw [if_pos hHit, List.getElem_concat_length rfl]
    · have hBefore : i < bytes.length := by omega
      rw [if_neg (hLast bytes.length hBefore (by omega)), List.getElem_append_left hBefore]
      exact h.last b i hBefore hHit fun j hj hjEnd => hLast j hj (by omega)
  missed b hMissed := by
    rw [List.length_append, List.length_singleton] at hMissed
    rw [peek_poke, if_neg (hMissed bytes.length (by omega))]
    exact h.missed b fun i hi => hMissed i (by omega)

/-- **The last byte that is loaded at a place stays there.** -/
theorem loaded_load (memory : Memory) (a : Long) (bytes : List Byte) :
    Loaded memory (memory.load a bytes) a bytes := by
  induction bytes using List.reverseRecOn with
  | nil =>
    exact ⟨fun _ _ hi => absurd hi (Nat.not_lt_zero _), fun _ _ => rfl⟩
  | append_singleton bytes byte ih =>
    rw [load_concat]
    exact ih.concat byte

/-- Words are loaded as their bytes. -/
theorem loadWords_eq_load (memory : Memory) (a : Long) (words : List Word) :
    memory.loadWords a words =
      memory.load a (words.flatMap fun word => (List.range 2).map (bigEndian word)) := by
  induction words generalizing memory a with
  | nil => rfl
  | cons word words ih =>
    have hPair : memory.pokeWord a word = memory.load a ((List.range 2).map (bigEndian word)) := rfl
    rw [loadWords, ih, List.flatMap_cons, load_append, hPair]
    rfl

end Memory

open Memory

/-- **Memory is one array of bytes, the most significant first, at every width.**  What is
read after a write is made of the bytes written, where the read meets them, and of the old
bytes elsewhere, for any two addresses and widths.  Reads change nothing.  Bytes that are
loaded are put one by one, the last one staying where several go to one place, and words are
loaded as their bytes. -/
theorem Ram.array_of_bytes (ram : Ram) :
    (∀ (a b : Long) (w r : BusWidth) (value : BitVec (8 * w.bytes)),
      (Bus.read r b (Bus.write w a value ram)).1.toNat =
        combine (fun i =>
          if distance a (b + BitVec.ofNat 32 i) < w.bytes then
            bigEndian value (distance a (b + BitVec.ofNat 32 i))
          else ram.memory.peek (b + BitVec.ofNat 32 i)) r.bytes) ∧
    (∀ (b : Long) (r : BusWidth), (Bus.read r b ram).2 = ram) ∧
    (∀ b : Long, (Bus.read .byte b ram).1 = ram.memory.peek b ∧
      (Bus.read .long b ram).1 = ram.memory.peekLong b) ∧
    (∀ (a : Long) (bytes : List Byte),
      ram.memory.load a bytes =
        bytes.zipIdx.foldl
          (fun memory entry => memory.poke (a + BitVec.ofNat 32 entry.2) entry.1) ram.memory ∧
      Loaded ram.memory (ram.memory.load a bytes) a bytes) ∧
    ∀ (a : Long) (words : List Word),
      ram.memory.loadWords a words =
        ram.memory.load a (words.flatMap fun word => (List.range 2).map (bigEndian word)) := by
  refine ⟨fun a b w r value => ?_, fun b r => ram.read_unchanged b r, fun b => ⟨rfl, rfl⟩,
    fun a bytes => ⟨load_eq_foldl _ a bytes, loaded_load _ a bytes⟩,
    fun a words => loadWords_eq_load _ a words⟩
  rw [(reads_read _ b r).toNat]
  exact combine_congr fun i _ => ram.written_write a w value _

example : (Memory.zero.pokeLong 0xFFFFFFFE 0x11223344).peekWord 0x7F000000 = 0x3344 := by decide

end M68kFloat
