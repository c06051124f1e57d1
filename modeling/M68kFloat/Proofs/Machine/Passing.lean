import M68kFloat.Proofs.Machine.Checked
import M68kFloat.Proofs.Machine.Execution

/-!
# Checks that never fail

The numbers that are cut out of words by shifts and masks are those that the fields of the words
have, and they are small enough by themselves, so their checks are no more than `pure`
(`register_cut`, `onBus_eq`).  An access through a field then passes all checks, as the modes that
allow a write lead to registers and memory: `Passes` says so of a checked execution beside the
same execution without checks.
-/

namespace M68kFloat.Checked

open Exec (bind_apply)

variable {α γ : Type}

/-! ### Checks that never fail -/

theorem bind_of_some {x : Checked α} {f : α → Checked γ} {m : Machine Ram} {step : α × Machine Ram}
    (h : x m = some step) : (x >>= f) m = f step.1 step.2 := by
  show (x m >>= fun step => f step.1 step.2) = f step.1 step.2
  rw [h, Option.bind_eq_bind, Option.bind_some]

theorem require_of {condition : Prop} [Decidable condition] (h : condition) :
    require condition = pure () := by
  funext m
  exact if_pos h

theorem cut_eq {w : Nat} (hWidth : 3 ≤ w) (bits : BitVec w) (low : Nat) :
    cut bits low = (bits.extractLsb' low 3).toNat := by
  have hSeven : 7 < 2 ^ w := Nat.lt_of_lt_of_le (by decide) (Nat.pow_le_pow_right (by decide) hWidth)
  rw [cut, BitVec.toNat_and, BitVec.toNat_ushiftRight, BitVec.extractLsb'_toNat, BitVec.toNat_ofNat,
    Nat.mod_eq_of_lt hSeven]
  exact Nat.and_two_pow_sub_one_eq_mod _ 3

theorem register_toNat (n : RegisterNumber) : register n.toNat = pure n := by
  rw [register, require_of n.isLt, pure_bind, BitVec.ofNat_toNat, BitVec.setWidth_eq]

/-- Three bits always name a register. -/
theorem register_cut {w : Nat} (hWidth : 3 ≤ w) (bits : BitVec w) (low : Nat) :
    register (cut bits low) = pure (bits.extractLsb' low 3) := by
  rw [cut_eq hWidth, register_toNat]

theorem onBus_eq (address : Long) (width : BusWidth) (call : Exec Ram α) :
    onBus address width call = unchecked call := by
  have hBytes : ∀ i < width.bytes,
      ((address + BitVec.ofNat 32 i) &&& 0x00FFFFFF).toNat < 2 ^ 24 := by
    intro i _
    rw [BitVec.toNat_and]
    exact Nat.lt_of_le_of_lt Nat.and_le_right (by decide)
  rw [onBus, require_of hBytes, pure_bind]

theorem indexValue_eq (cpu : Cpu) (word : Word) :
    indexValue cpu word = pure (cpu.indexValue (Index.ofWord word)) := by
  have hPlaces : (word >>> 9 &&& 3#16).toNat = (word.extractLsb' 9 2).toNat := by
    rw [BitVec.toNat_and, BitVec.toNat_ushiftRight, BitVec.extractLsb'_toNat]
    exact Nat.and_two_pow_sub_one_eq_mod _ 2
  have hLess : (word.extractLsb' 9 2).toNat < 32 :=
    Nat.lt_trans (word.extractLsb' 9 2).isLt (by decide)
  rw [indexValue, register_cut (by decide), pure_bind, hPlaces]
  dsimp only
  rw [require_of hLess, pure_bind]
  rfl

/-- An index that is not left out is that of the word. -/
theorem indexOrZero_eq (cpu : Cpu) (word : Word) (isNone : Bool) :
    indexOrZero cpu word (if isNone then none else some (Index.ofWord word)) =
      pure (((if isNone then none else some (Index.ofWord word)).map cpu.indexValue).getD 0) := by
  cases isNone with
  | true => rfl
  | false => exact indexValue_eq cpu word

theorem selected_eq (list : Byte) {bits : List Nat} (h : ∀ bit ∈ bits, bit < 8) :
    selected list bits = pure (bits.filter fun bit => list &&& 1#8 <<< bit ≠ 0) := by
  induction bits with
  | nil => rfl
  | cons bit bits ih =>
    rw [List.forall_mem_cons] at h
    rw [selected, testBit, require_of h.1, ih h.2]
    simp only [pure_bind, List.filter_cons]

theorem filter_eq_listed : ∀ list : Byte,
    (List.range 8).filter (fun bit => list &&& 1#8 <<< bit ≠ 0) =
      (Exec.listed list).map BitVec.toNat := by
  decide

theorem selected_range (list : Byte) :
    selected list (List.range 8) = pure ((Exec.listed list).map BitVec.toNat) := by
  rw [selected_eq list (fun bit hBit => List.mem_range.mp hBit), filter_eq_listed]

/-- The operation with numbers for its registers. -/
def mapNumbers : Operation RegisterNumber → Operation Nat
  | .general (.register source) destination opmode =>
    .general (.register source.toNat) destination.toNat opmode
  | .general (.memory format) destination opmode =>
    .general (.memory format) destination.toNat opmode
  | .store source format => .store source.toNat format
  | .control access register => .control access register
  | .multiple access list => .multiple access list

theorem exists_of_bind_eq_ok {ε α β : Type} {x : Except ε α} {f : α → Except ε β} {b : β}
    (h : x >>= f = .ok b) : ∃ a, x = .ok a ∧ f a = .ok b := by
  cases x with
  | ok a => exact ⟨a, rfl, h⟩
  | error e => cases h

theorem register_of_sourceOf {extension : Word} {n : RegisterNumber}
    (h : Operation.sourceOf extension = .ok (.register n)) : n = extension.extractLsb' 10 3 := by
  rw [Operation.sourceOf] at h
  split at h
  · split at h
    · cases h
    · cases hFormat : Operation.formatOf (Operation.specifierBits extension) .read with
      | ok format =>
        rw [hFormat] at h
        cases h
      | error cause =>
        rw [hFormat] at h
        cases h
  · cases h
    rfl

theorem cut_word (word : Word) (low : Nat) : cut word low = (word.extractLsb' low 3).toNat :=
  cut_eq (by decide) word low

theorem numbered_general {extension : Word} {source : Source RegisterNumber}
    (h : Operation.sourceOf extension = .ok source) (opmode : Opmode) :
    numbered extension (.general source (Operation.registerBits extension) opmode) =
      mapNumbers (.general source (Operation.registerBits extension) opmode) := by
  cases source with
  | memory format => rw [numbered, cut_word, mapNumbers, Operation.registerBits]
  | register n =>
    obtain rfl := register_of_sourceOf h
    rw [numbered, cut_word, cut_word, mapNumbers, Operation.registerBits]

/-- The numbers in an extension word are those of the registers of its operation. -/
theorem numbered_eq {extension : Word} {op : Operation RegisterNumber}
    (h : Operation.ofExtension extension = .ok op) : numbered extension op = mapNumbers op := by
  rw [Operation.ofExtension] at h
  split at h
  · obtain ⟨source, hSource, h⟩ := exists_of_bind_eq_ok h
    obtain ⟨opmode, -, h⟩ := exists_of_bind_eq_ok h
    cases h
    exact numbered_general hSource opmode
  · obtain ⟨source, hSource, h⟩ := exists_of_bind_eq_ok h
    obtain ⟨opmode, -, h⟩ := exists_of_bind_eq_ok h
    cases h
    exact numbered_general hSource opmode
  · cases h
  · obtain ⟨format, -, h⟩ := exists_of_bind_eq_ok h
    cases h
    rw [numbered, cut_word, mapNumbers, Operation.registerBits]
  · obtain ⟨register, -, h⟩ := exists_of_bind_eq_ok h
    cases h
    rfl
  · obtain ⟨register, -, h⟩ := exists_of_bind_eq_ok h
    cases h
    rfl
  · dsimp only at h
    split at h <;> cases h
    rfl
  · dsimp only at h
    split at h <;> cases h
    rfl

/-! ### Accesses -/

/-- The counters are the same. -/
structure SameCounters (m m' : Machine Ram) : Prop where
  cycles : m'.cpu.cycles = m.cpu.cycles
  cancels : m'.bus.traceCancels = m.bus.traceCancels

/-- No check of `x` fails, and it does what `y` does, which leaves the counters alone. -/
def Passes (x : Checked α) (y : Exec Ram α) : Prop :=
  ∀ m, x m = some (y m) ∧ SameCounters m (y m).2

section Passes

variable {x : Checked α} {y : Exec Ram α} {f : α → Checked γ} {g : α → Exec Ram γ}

theorem passes_unchecked (h : ∀ m, SameCounters m (y m).2) : Passes (unchecked y) y :=
  fun m => ⟨rfl, h m⟩

theorem passes_pure (a : α) : Passes (pure a) (pure a) := fun _ => ⟨rfl, rfl, rfl⟩

/-- What follows has to pass with the results that there are. -/
theorem Passes.bind (h : Passes x y) (hNext : ∀ m, Passes (f (y m).1) (g (y m).1)) :
    Passes (x >>= f) (y >>= g) := by
  intro m
  obtain ⟨hRun, hFirst⟩ := h m
  obtain ⟨hRest, hSecond⟩ := hNext m (y m).2
  refine ⟨?_, hSecond.cycles.trans hFirst.cycles, hSecond.cancels.trans hFirst.cancels⟩
  rw [bind_of_some hRun, bind_apply]
  exact hRest

theorem Passes.returning (h : Passes x y) (p : α → γ) :
    Passes (x >>= fun a => pure (p a)) (y >>= fun a => pure (p a)) :=
  h.bind fun _ => passes_pure _

theorem Passes.map (h : Passes x y) (p : α → γ) : Passes (p <$> x) (p <$> y) := by
  rw [map_eq_pure_bind, map_eq_pure_bind]
  exact h.returning p

theorem passes_getCpu : Passes getCpu Exec.getCpu := passes_unchecked fun _ => ⟨rfl, rfl⟩

theorem passes_say (message : Message) : Passes (say message) (Exec.say message) :=
  passes_unchecked fun _ => ⟨rfl, rfl⟩

theorem passes_modifyCpu {change : Cpu → Cpu} (h : ∀ cpu, (change cpu).cycles = cpu.cycles) :
    Passes (modifyCpu change) (Exec.modifyCpu change) :=
  passes_unchecked fun m => ⟨h m.cpu, rfl⟩

theorem passes_onBus {y : Exec Ram α} (h : ∀ m, SameCounters m (y m).2) (address : Long)
    (width : BusWidth) : Passes (onBus address width y) y := by
  rw [onBus_eq]
  exact passes_unchecked h

end Passes

theorem passes_fetchWord : Passes fetchWord Exec.fetchWord := by
  intro m
  exact passes_onBus (fun _ => ⟨rfl, rfl⟩) m.cpu.pc .word m

theorem passes_fetchLong : Passes fetchLong Exec.fetchLong := by
  intro m
  exact passes_onBus (fun _ => ⟨rfl, rfl⟩) m.cpu.pc .long m

theorem passes_fetchDisplacement (width : DisplacementWidth) :
    Passes (fetchDisplacement width) (Exec.fetchDisplacement width) := by
  cases width with
  | null => exact passes_pure 0
  | word => exact passes_fetchWord.returning _
  | long => exact passes_fetchLong

theorem passes_readPointer (address : Long) :
    Passes (onBus address .long (Exec.readLong .pointer address))
      (Exec.readLong .pointer address) :=
  passes_onBus (fun _ => ⟨rfl, rfl⟩) address .long

theorem passes_indexedAddress (base : Long) :
    Passes (indexedAddress base) (Exec.indexedAddress base) := by
  refine passes_fetchWord.bind fun m => ?_
  generalize (Exec.fetchWord m).1 = word
  refine passes_getCpu.bind fun m => ?_
  by_cases hFull : word.getLsbD 8 = true
  · rw [IndexWord.ofWord, if_pos hFull]
    simp only [indexOrZero_eq, pure_bind]
    refine (passes_fetchDisplacement _).bind fun m => ?_
    cases Indirection.ofBits (word.extractLsb' 0 3) with
    | direct => exact passes_pure _
    | preindexed width =>
      exact (passes_fetchDisplacement width).bind fun _ => (passes_readPointer _).returning _
    | postindexed width =>
      exact (passes_fetchDisplacement width).bind fun _ => (passes_readPointer _).returning _
  · rw [IndexWord.ofWord, if_neg hFull]
    simp only [indexValue_eq, pure_bind]
    exact passes_pure _

theorem passes_stepped (n : RegisterNumber) (address moved : Long) :
    Passes (modifyCpu (·.setA n moved) >>= fun _ => pure (.memory address))
      (Exec.modifyCpu (·.setA n moved) >>= fun _ => pure (Place.memory address)) := by
  have hSet : Passes (modifyCpu (·.setA n moved)) (Exec.modifyCpu (·.setA n moved)) :=
    passes_modifyCpu fun _ => rfl
  exact hSet.returning _

/-- The register of a mode is the one that the field names. -/
theorem passes_locate {field : Byte} {mode : Mode} (h : Mode.ofField? field = some mode)
    (size : Size) : Passes (locate field mode size) (Exec.locate mode size) := by
  refine passes_getCpu.bind fun m => ?_
  have hRegister : register (cut field 0) = pure (Mode.registerBits field) :=
    register_cut (by decide) field 0
  simp only [hRegister, pure_bind]
  unfold Mode.ofField? Mode.ofFields? at h
  split at h
  · cases h
    exact passes_pure _
  · cases h
    exact passes_pure _
  · cases h
    exact passes_pure _
  · cases h
    exact passes_stepped _ _ _
  · cases h
    exact passes_stepped _ _ _
  · cases h
    exact (passes_fetchDisplacement .word).returning _
  · cases h
    exact (passes_indexedAddress _).returning _
  · split at h
    · cases h
      exact (passes_fetchDisplacement .word).returning _
    · cases h
      exact (passes_fetchDisplacement .long).returning _
    · cases h
      exact (passes_fetchDisplacement .word).returning _
    · cases h
      exact (passes_indexedAddress _).returning _
    · cases h
      exact passes_pure _
    · cases h

/-! ### Operands -/

theorem passes_longs {x x' : Checked Long} {y y' : Exec Ram Long} (hHigh : Passes x y)
    (hLow : Passes x' y') (join : Long → Long → α) :
    Passes (x >>= fun high => x' >>= fun low => pure (join high low))
      (y >>= fun high => y' >>= fun low => pure (join high low)) :=
  hHigh.bind fun _ => hLow.returning _

theorem passes_readLong (address : Long) :
    Passes (readLong address) (Exec.readLong .operand address) :=
  passes_onBus (fun _ => ⟨rfl, rfl⟩) address .long

theorem passes_writeLong (address value : Long) :
    Passes (writeLong address value) (Exec.writeLong address value) :=
  passes_onBus (fun _ => ⟨rfl, rfl⟩) address .long

theorem passes_readMemory (address : Long) (size : Size) :
    Passes (readMemory address size) (Exec.readMemory address size) := by
  cases size with
  | byte => exact (passes_onBus (fun _ => ⟨rfl, rfl⟩) address .byte).returning _
  | word => exact (passes_onBus (fun _ => ⟨rfl, rfl⟩) address .word).returning _
  | long => exact (passes_readLong address).returning _
  | double | extended =>
    exact passes_longs (passes_readLong address) (passes_readLong (address + 4)) (· ++ ·)

theorem passes_readStream (size : Size) : Passes (readStream size) (Exec.readStream size) := by
  cases size with
  | byte | word => exact passes_fetchWord.returning _
  | long => exact passes_fetchLong.returning _
  | double | extended => exact passes_longs passes_fetchLong passes_fetchLong (· ++ ·)

theorem passes_readPlace (place : Place) (size : Size) :
    Passes (readPlace place size) (Exec.readPlace place size) := by
  cases place with
  | dataRegister n => exact passes_unchecked fun _ => by cases size <;> exact ⟨rfl, rfl⟩
  | addressRegister n => exact passes_unchecked fun _ => ⟨rfl, rfl⟩
  | memory address => exact passes_readMemory address size
  | immediate => exact passes_readStream size

theorem passes_writeMemory (address : Long) (size : Size) (value : Quad) :
    Passes (writeMemory address size value) (Exec.writeMemory address size value) := by
  cases size with
  | byte => exact passes_onBus (fun _ => ⟨rfl, rfl⟩) address .byte
  | word => exact passes_onBus (fun _ => ⟨rfl, rfl⟩) address .word
  | long => exact passes_writeLong address _
  | double => exact (passes_writeLong address _).bind fun _ => passes_writeLong (address + 4) _
  | extended =>
    exact (passes_writeLong address _).bind fun _ =>
      (passes_writeLong (address + 4) _).bind fun _ => passes_writeLong (address + 8) 0

/-- Anything but the instruction stream can be written. -/
theorem passes_writePlace {place : Place} (h : place ≠ .immediate) (size : Size) (value : Quad) :
    Passes (writePlace place size value) (Exec.writePlace place size value) := by
  cases place with
  | dataRegister n => exact passes_unchecked fun _ => by cases size <;> exact ⟨rfl, rfl⟩
  | addressRegister n => exact passes_unchecked fun _ => ⟨rfl, rfl⟩
  | memory address => exact passes_writeMemory address size value
  | immediate => exact absurd rfl h

/-- Only the immediate mode leads into the instruction stream. -/
theorem locate_ne_immediate {mode : Mode} (h : mode ≠ .immediate) (size : Size) (m : Machine Ram) :
    (Exec.locate mode size m).1 ≠ .immediate := by
  by_cases hMemory : mode.inMemory = true
  · obtain ⟨a, hPlace⟩ := Exec.locate_inMemory hMemory size m
    rw [hPlace]
    exact Place.noConfusion
  · cases mode with
    | dataRegister n | addressRegister n => exact Place.noConfusion
    | immediate => exact absurd rfl h
    | _ => exact absurd rfl hMemory

/-! ### Accesses through a field -/

/-- The modes to which an access through a field can lead. -/
theorem passes_withOperand {field : Byte} {size : Size} {access : Access} {use : Mode → Checked α}
    {use' : Mode → Exec Ram α}
    (h : ∀ mode, Mode.route? field size access = some mode → Passes (use mode) (use' mode)) :
    Passes (withOperand field size access use) (Exec.withOperand field size access use') := by
  rw [withOperand, Exec.withOperand]
  cases hRoute : Mode.route? field size access with
  | some mode => exact (h mode hRoute).map _
  | none => exact fun m => ⟨rfl, rfl, rfl⟩

section Access

variable {field : Byte} {size : Size} {mode : Mode}

theorem passes_readThrough (h : Mode.route? field size .read = some mode) :
    Passes (readThrough field size mode) (Exec.readThrough size mode) :=
  (passes_locate (Exec.route_eq_some.mp h).1 size).bind fun _ => passes_readPlace _ size

theorem passes_writeThrough (h : Mode.route? field size .write = some mode) (value : Quad) :
    Passes (writeThrough field size value mode) (Exec.writeThrough size value mode) := by
  refine (passes_locate (Exec.route_eq_some.mp h).1 size).bind fun m => ?_
  exact passes_writePlace (locate_ne_immediate (Exec.not_immediate_of_write h) size m) size value

variable (field)

theorem passes_readOperand (size : Size) :
    Passes (readOperand field size) (Exec.readOperand field size) :=
  passes_withOperand fun _ hRoute => passes_readThrough hRoute

theorem passes_writeOperand (size : Size) (value : Quad) :
    Passes (writeOperand field size value) (Exec.writeOperand field size value) :=
  passes_withOperand fun _ hRoute => passes_writeThrough hRoute value

theorem passes_readExtended : Passes (readExtended field) (Exec.readExtended field) := by
  refine passes_withOperand fun mode hRoute => ?_
  refine (passes_locate (Exec.route_eq_some.mp hRoute).1 .extended).bind fun m => ?_
  refine (passes_say _).bind fun _ => ?_
  exact (passes_readPlace _ .extended).returning Double.mk

theorem passes_writeExtended (value : Double) :
    Passes (writeExtended field value) (Exec.writeExtended field value) := by
  refine passes_withOperand fun mode hRoute => ?_
  have hMode := Exec.not_immediate_of_write hRoute
  refine (passes_locate (Exec.route_eq_some.mp hRoute).1 .extended).bind fun m => ?_
  refine (passes_say _).bind fun _ => ?_
  exact passes_writePlace (locate_ne_immediate hMode .extended m) .extended value.bits

end Access

end M68kFloat.Checked
