import Mathlib.Data.List.Basic
import M68kFloat.Proofs.Machine.Refusal

/-!
# Which instructions are accepted

The grammar of the general instructions is a list of checks: `generalChecks opcode extension`
are those that an instruction goes through, in the order in which they are made, each with
the cause to refuse the instruction if it fails.  The list is written from the bits of the
two words alone.

`acceptance_by_encoding` says that the first check that fails decides how the instruction
ends, and that it ends well if none does.  On the way an operation is reduced to the operand
that it asks for (`Operation.operand?`): whether that operand is admitted is all that can go
wrong after decoding (`operation_result`).

A multiple move asks for its operand once for every register of its list.  So it asks for
nothing where the list is empty, and then every addressing mode passes
(`multiple_accepted_iff`), also those that no multiple move can use.
-/

namespace M68kFloat

/-- The operand that an operation asks for. -/
def Operation.operand? {ρ : Type} : Operation ρ → Option (Size × Access)
  | general (.register _) _ _ => none
  | general (.memory format) _ _ => some (format.size, .read)
  | store _ format => some (format.size, .write)
  | control access _ => some (.long, access)
  | multiple access list => if list = 0 then none else some (.extended, access)

/-- How an instruction ends that starts at an address, by the cause to refuse it. -/
def ending (start : Long) : Option Cause → Except Fault Unit
  | none => .ok ()
  | some cause => .error ⟨cause, start⟩

/-! ### The grammar -/

/-- A check with the cause to refuse an instruction that does not pass it. -/
structure Check where
  passes : Bool
  cause : Cause

namespace Check

def firstFailed? (checks : List Check) : Option Cause :=
  (checks.find? fun check => !check.passes).map cause

theorem firstFailed?_of_passes {check : Check} (h : check.passes = true) (checks : List Check) :
    firstFailed? (check :: checks) = firstFailed? checks := by
  rw [firstFailed?, List.find?_cons, h]
  rfl

theorem firstFailed?_of_fails {check : Check} (h : check.passes = false) (checks : List Check) :
    firstFailed? (check :: checks) = some check.cause := by
  rw [firstFailed?, List.find?_cons, h]
  rfl

/-- The operand that a field leads to is admitted. -/
def operand (field : Byte) (size : Size) (access : Access) : Check where
  passes := (Mode.route? field size access).isSome
  cause := .illegalAddressing ((Mode.modeBits field).setWidth 8)
    ((Mode.registerBits field).setWidth 8) size access

/-- The opmode is one of ten. -/
def opmode (code : Byte) : Check where
  passes := code ∈ ([0x00, 0x04, 0x18, 0x1A, 0x20, 0x22, 0x23, 0x28, 0x38, 0x3A] : List Byte)
  cause := .opmode code

/-- The condition is one of twelve. -/
def condition (code : Byte) : Check where
  passes := code ∈ ([0x00, 0x01, 0x0E, 0x0F, 0x12, 0x13, 0x14, 0x15, 0x1A, 0x1B, 0x1C, 0x1D] :
    List Byte)
  cause := .condition code

/-- The selector has one bit set. -/
def selector (code : BitVec 3) (access : Access) : Check where
  passes := code = 1 ∨ code = 2 ∨ code = 4
  cause := .controlRegister (code.setWidth 8) access

/-- The two formats that are known and not implemented in either direction. -/
def stubs (code : BitVec 3) (access : Access) : List Check :=
  [⟨code ≠ 2, .format .extended access⟩, ⟨code ≠ 3, .format .packed access⟩]

/-- The list of a multiple move is empty, or the field has the one mode of its direction. -/
def multiple (list field : Byte) (access : Access) (mode : BitVec 3) : Check where
  passes := list = 0 ∨ field.extractLsb' 3 3 = mode
  cause := .illegalAddressing ((field.extractLsb' 3 3).setWidth 8)
    ((field.extractLsb' 0 3).setWidth 8) .extended access

end Check

/-- The size of an operand by the code of its format: 4 is a word, 5 a double, 6 a byte, and
0 and 1 are longs. -/
def sizeOfCode (code : BitVec 3) : Size :=
  if code = 4 then .word else if code = 5 then .double else if code = 6 then .byte else .long

/-- The checks that follow the extension word, by its class in bits 15 to 13.  The code of a
format or the selector of a control register is in bits 12 to 10, the opmode in bits 6 to 0,
and a multiple move has its mode in bits 12 and 11 and its list in bits 7 to 0. -/
def extensionChecks (field : Byte) (extension : Word) : List Check :=
  let code := extension.extractLsb' 10 3
  let opmode : Byte := (extension.extractLsb' 0 7).setWidth 8
  let mode := extension.extractLsb' 11 2
  let list : Byte := extension.setWidth 8
  match extension.extractLsb' 13 3 with
  | 0#3 => [.opmode opmode]
  | 1#3 => [⟨false, .subop 1⟩]
  | 2#3 =>
    ⟨code ≠ 7, .sourceSpecifier 7⟩ :: Check.stubs code .read ++
      [.opmode opmode, .operand field (sizeOfCode code) .read]
  | 3#3 =>
    Check.stubs code .write ++
      [⟨code ≠ 7, .format .packedDynamic .write⟩, .operand field (sizeOfCode code) .write]
  | 4#3 => [.selector code .read, .operand field .long .read]
  | 5#3 => [.selector code .write, .operand field .long .write]
  | 6#3 => [⟨mode = 2, .multipleMode (mode.setWidth 8) .read⟩, .multiple list field .read 3]
  | 7#3 => [⟨mode = 0, .multipleMode (mode.setWidth 8) .write⟩, .multiple list field .write 4]

/-- The checks of a general instruction, by its class in bits 7 and 6 of the opcode.  The six
bits below are the condition of a branch and otherwise the effective address field. -/
def generalChecks (opcode extension : Word) : List Check :=
  let field : Byte := (opcode.extractLsb' 0 6).setWidth 8
  match opcode.extractLsb' 6 2 with
  | 0#2 => extensionChecks field extension
  | 1#2 => [⟨false, .mainOp 1⟩]
  | 2#2 | 3#2 => [.condition field]

/-! ### Decoding -/

theorem ofCode?_isSome_opmode (code : Byte) :
    (Opmode.ofCode? code).isSome = (Check.opmode code).passes := by
  rw [Bool.eq_iff_iff, Opmode.ofCode?, List.find?_isSome, Check.opmode, decide_eq_true_iff]
  simp only [Opmode.all, Opmode.code, List.mem_cons, List.not_mem_nil, or_false,
    exists_eq_or_imp, exists_eq_left, decide_eq_true_eq, eq_comm (b := code)]

theorem ofCode?_isSome_condition (code : Byte) :
    (Condition.ofCode? code).isSome = (Check.condition code).passes := by
  rw [Bool.eq_iff_iff, Condition.ofCode?, List.find?_isSome, Check.condition, decide_eq_true_iff]
  simp only [Condition.all, Condition.code, List.mem_cons, List.not_mem_nil, or_false,
    exists_eq_or_imp, exists_eq_left, decide_eq_true_eq, eq_comm (b := code)]

/-- The check of the operand that an operation asks for, if it asks for one. -/
def Operation.checks (op : Operation RegisterNumber) (field : Byte) : List Check :=
  op.operand?.toList.map fun (size, access) => .operand field size access

/-- The cause to refuse what has been decoded. -/
def refusalOf (field : Byte) : Except Cause (Operation RegisterNumber) → Option Cause
  | .error cause => some cause
  | .ok op => Check.firstFailed? (op.checks field)

namespace Operation

theorem opmodeOf_cases (extension : Word) :
    let check := Check.opmode ((extension.extractLsb' 0 7).setWidth 8)
    (check.passes = true ∧ ∃ opmode, opmodeOf extension = .ok opmode) ∨
      check.passes = false ∧ opmodeOf extension = .error check.cause := by
  dsimp only
  rw [← ofCode?_isSome_opmode, opmodeOf]
  cases h : Opmode.ofCode? ((extension.extractLsb' 0 7).setWidth 8) with
  | some opmode => exact Or.inl ⟨rfl, opmode, rfl⟩
  | none => exact Or.inr ⟨rfl, rfl⟩

/-- A code is that of one of three formats that are not implemented, or of one that is. -/
theorem formatOf_cases (code : BitVec 3) (access : Access) :
    (code = 2 ∧ formatOf code access = .error (.format .extended access)) ∨
    (code = 3 ∧ formatOf code access = .error (.format .packed access)) ∨
    (code = 7 ∧ formatOf code access = .error (.format .packedDynamic access)) ∨
    (code ≠ 2 ∧ code ≠ 3 ∧ code ≠ 7) ∧
      ∃ format, formatOf code access = .ok format ∧ format.size = sizeOfCode code := by
  have hAll : ∀ code : BitVec 3, code = 2 ∨ code = 3 ∨ code = 7 ∨ (code ≠ 2 ∧ code ≠ 3 ∧ code ≠ 7) ∧
      ∃ format ∈ [Format.long, .single, .word, .double, .byte],
        (Specifier.ofBits code).format? = some format ∧ format.size = sizeOfCode code := by
    decide
  rcases hAll code with rfl | rfl | rfl | ⟨hCode, format, -, hFormat, hSize⟩
  · exact Or.inl ⟨rfl, rfl⟩
  · exact Or.inr (Or.inl ⟨rfl, rfl⟩)
  · exact Or.inr (Or.inr (Or.inl ⟨rfl, rfl⟩))
  · exact Or.inr (Or.inr (Or.inr ⟨hCode, format, by rw [formatOf, hFormat], hSize⟩))

theorem controlRegisterOf_cases (extension : Word) :
    let check := Check.selector (extension.extractLsb' 10 3) (direction extension)
    (check.passes = true ∧ ∃ register, controlRegisterOf extension = .ok register) ∨
      check.passes = false ∧ controlRegisterOf extension = .error check.cause := by
  dsimp only
  have hAll : ∀ code : BitVec 3, (ControlRegister.ofSelector? (code.setWidth 8)).isSome =
      decide (code = 1 ∨ code = 2 ∨ code = 4) := by decide
  have hCode := hAll (extension.extractLsb' 10 3)
  rw [Check.selector, ← hCode, controlRegisterOf, specifierBits]
  cases h : ControlRegister.ofSelector? ((extension.extractLsb' 10 3).setWidth 8) with
  | some register => exact Or.inl ⟨rfl, register, rfl⟩
  | none => exact Or.inr ⟨rfl, rfl⟩

variable {extension : Word} {bits : BitVec 3} (field : Byte)

theorem direction_of_class (h : extension.extractLsb' 13 3 = bits) :
    direction extension = if bits.getLsbD 0 then .write else .read := by
  rw [direction, ← h, BitVec.getLsbD_extractLsb']
  rfl

theorem memory_of_class (h : extension.extractLsb' 13 3 = bits) :
    extension.getLsbD 14 = bits.getLsbD 1 := by
  rw [← h, BitVec.getLsbD_extractLsb']
  rfl

theorem refusal_of_register (h : extension.extractLsb' 13 3 = 0#3) :
    refusalOf field (ofExtension extension) =
      Check.firstFailed? (extensionChecks field extension) := by
  have hSource : sourceOf extension = .ok (.register (specifierBits extension)) := by
    rw [sourceOf, memory_of_class h]
    rfl
  simp only [ofExtension, extensionChecks, h, hSource]
  rcases opmodeOf_cases extension with ⟨hPasses, opmode, hOpmode⟩ | ⟨hFails, hOpmode⟩
  · rw [hOpmode, Check.firstFailed?_of_passes hPasses]
    rfl
  · rw [hOpmode, Check.firstFailed?_of_fails hFails]
    rfl

theorem sourceOf_of_memory (h : extension.extractLsb' 13 3 = 2#3) :
    sourceOf extension =
      if extension.extractLsb' 10 3 = 7 then .error (.sourceSpecifier 7)
      else .memory <$> formatOf (extension.extractLsb' 10 3) .read := by
  rw [sourceOf, memory_of_class h]
  by_cases hCode : extension.extractLsb' 10 3 = 7
  · rw [specifierBits, hCode]
    rfl
  · rw [if_neg hCode]
    exact if_neg hCode

theorem refusal_of_memory (h : extension.extractLsb' 13 3 = 2#3) :
    refusalOf field (ofExtension extension) =
      Check.firstFailed? (extensionChecks field extension) := by
  simp only [ofExtension, extensionChecks, h, sourceOf_of_memory h, Check.stubs,
    List.cons_append, List.nil_append]
  rcases formatOf_cases (extension.extractLsb' 10 3) .read with
    ⟨hCode, hFormat⟩ | ⟨hCode, hFormat⟩ | ⟨hCode, -⟩ | ⟨⟨h2, h3, h7⟩, format, hFormat, hSize⟩
  · rw [hFormat, hCode, if_neg (by decide)]
    rfl
  · rw [hFormat, hCode, if_neg (by decide)]
    rfl
  · rw [hCode, if_pos rfl]
    rfl
  · rw [hFormat, if_neg h7, Check.firstFailed?_of_passes (decide_eq_true h7),
      Check.firstFailed?_of_passes (decide_eq_true h2),
      Check.firstFailed?_of_passes (decide_eq_true h3), ← hSize]
    rcases opmodeOf_cases extension with ⟨hPasses, opmode, hOpmode⟩ | ⟨hFails, hOpmode⟩
    · rw [hOpmode, Check.firstFailed?_of_passes hPasses]
      rfl
    · rw [hOpmode, Check.firstFailed?_of_fails hFails]
      rfl

theorem refusal_of_store (h : extension.extractLsb' 13 3 = 3#3) :
    refusalOf field (ofExtension extension) =
      Check.firstFailed? (extensionChecks field extension) := by
  simp only [ofExtension, extensionChecks, h, specifierBits, Check.stubs, List.cons_append,
    List.nil_append]
  rcases formatOf_cases (extension.extractLsb' 10 3) .write with
    ⟨hCode, hFormat⟩ | ⟨hCode, hFormat⟩ | ⟨hCode, hFormat⟩ | ⟨⟨h2, h3, h7⟩, format, hFormat, hSize⟩
  · rw [hFormat, hCode]
    rfl
  · rw [hFormat, hCode]
    rfl
  · rw [hFormat, hCode]
    rfl
  · rw [hFormat, Check.firstFailed?_of_passes (decide_eq_true h2),
      Check.firstFailed?_of_passes (decide_eq_true h3),
      Check.firstFailed?_of_passes (decide_eq_true h7), ← hSize]
    rfl

theorem refusal_of_control (field : Byte) (extension : Word) :
    refusalOf field (controlRegisterOf extension >>= fun register =>
        pure (control (direction extension) register)) =
      Check.firstFailed? [.selector (extension.extractLsb' 10 3) (direction extension),
        .operand field .long (direction extension)] := by
  rcases controlRegisterOf_cases extension with ⟨hPasses, register, hRegister⟩ | ⟨hFails, hRegister⟩
  · rw [hRegister, Check.firstFailed?_of_passes hPasses]
    rfl
  · rw [hRegister, Check.firstFailed?_of_fails hFails]
    rfl

/-- An extended image is read through one mode, -/
theorem route_extended_read : ∀ field : Byte,
    (Mode.route? field .extended .read).isSome = decide (field.extractLsb' 3 3 = 3) := by
  decide

/-- and written through one other. -/
theorem route_extended_write : ∀ field : Byte,
    (Mode.route? field .extended .write).isSome = decide (field.extractLsb' 3 3 = 4) := by
  decide

theorem refusal_of_list {list : Byte} {access : Access} {mode : BitVec 3}
    (hMode : (Mode.route? field .extended access).isSome = decide (field.extractLsb' 3 3 = mode)) :
    refusalOf field (.ok (multiple access list)) =
      Check.firstFailed? [.multiple list field access mode] := by
  by_cases hList : list = 0
  · rw [refusalOf, checks, operand?, if_pos hList,
      Check.firstFailed?_of_passes (decide_eq_true (Or.inl hList))]
    rfl
  · rw [refusalOf, checks, operand?, if_neg hList]
    by_cases hField : field.extractLsb' 3 3 = mode
    · rw [Check.firstFailed?_of_passes (decide_eq_true (Or.inr hField))]
      exact Check.firstFailed?_of_passes (hMode.trans (decide_eq_true hField)) []
    · rw [Check.firstFailed?_of_fails (decide_eq_false (not_or.mpr ⟨hList, hField⟩))]
      exact Check.firstFailed?_of_fails (hMode.trans (decide_eq_false hField)) []

theorem refusal_of_multiple (extension : Word) {access : Access} {mode : BitVec 3}
    (hMode : (Mode.route? field .extended access).isSome = decide (field.extractLsb' 3 3 = mode)) :
    let list : Byte := extension.setWidth 8
    let bits := extension.extractLsb' 11 2
    refusalOf field (if bits = multipleMode access then .ok (multiple access list)
        else .error (.multipleMode (bits.setWidth 8) access)) =
      Check.firstFailed? [⟨bits = multipleMode access, .multipleMode (bits.setWidth 8) access⟩,
        .multiple list field access mode] := by
  intro list bits
  by_cases hBits : bits = multipleMode access
  · rw [if_pos hBits, Check.firstFailed?_of_passes (decide_eq_true hBits)]
    exact refusal_of_list field hMode
  · rw [if_neg hBits, Check.firstFailed?_of_fails (decide_eq_false hBits)]
    rfl

/-- **Decoding and the operand it leads to make the checks of the grammar.** -/
theorem refusal_of_extension (field : Byte) (extension : Word) :
    refusalOf field (ofExtension extension) =
      Check.firstFailed? (extensionChecks field extension) := by
  have hClasses : ∀ bits : BitVec 3, bits = 0#3 ∨ bits = 1#3 ∨ bits = 2#3 ∨ bits = 3#3 ∨
      bits = 4#3 ∨ bits = 5#3 ∨ bits = 6#3 ∨ bits = 7#3 := by decide
  rcases hClasses (extension.extractLsb' 13 3) with h | h | h | h | h | h | h | h
  · exact refusal_of_register field h
  · simp only [ofExtension, extensionChecks, h]
    rfl
  · exact refusal_of_memory field h
  · exact refusal_of_store field h
  · have hControl := refusal_of_control field extension
    simp only [ofExtension, extensionChecks, h]
    rwa [direction_of_class h] at hControl ⊢
  · have hControl := refusal_of_control field extension
    simp only [ofExtension, extensionChecks, h]
    rwa [direction_of_class h] at hControl ⊢
  · simp only [ofExtension, extensionChecks, h, direction_of_class h]
    exact refusal_of_multiple field extension (route_extended_read field)
  · simp only [ofExtension, extensionChecks, h, direction_of_class h]
    exact refusal_of_multiple field extension (route_extended_write field)

end Operation

/-! ### Execution -/

namespace Exec

variable {β : Type}

theorem withOperand_result (field : Byte) (size : Size) (access : Access) (use : Mode → Exec β Unit)
    (m : Machine β) :
    (withOperand field size access use m).1 =
      ending m.cpu.start (Check.firstFailed? [.operand field size access]) := by
  cases h : Mode.route? field size access with
  | some mode =>
    have hPasses : (Check.operand field size access).passes = true := by
      rw [Check.operand, h]
      rfl
    rw [withOperand_of_route h, Check.firstFailed?_of_passes hPasses]
    rfl
  | none =>
    have hFails : (Check.operand field size access).passes = false := by
      rw [Check.operand, h]
      rfl
    rw [withOperand_of_refused h, Check.firstFailed?_of_fails hFails]
    rfl

theorem reporting_result (x : Exec β (Except Fault Unit)) (m : Machine β) :
    (reporting x m).1 = (x m).1 := by
  cases h : (x m).1 with
  | ok a => rw [reporting_of_ok h, h]
  | error fault => rw [reporting_of_error h]

variable [Bus β]

theorem listed_eq_nil_iff : ∀ list : Byte, listed list = [] ↔ list = 0 := by decide

/-- An empty list asks for no operand. -/
theorem multiple_empty (access : Access) (m : Machine β) :
    multiple access 0 m =
      (.ok (), { m with messages := m.messages ++ [.moved access 0] }) := by
  have hNone : listed 0 = [] := (listed_eq_nil_iff 0).mpr rfl
  rw [multiple, bind_apply, getCpu_apply, hNone]
  rfl

theorem multiple_of_refused {access : Access} {list : Byte} {m : Machine β} (hList : list ≠ 0)
    (h : Mode.route? m.cpu.field .extended access = none) :
    (multiple access list m).1 = .error (refusal m.cpu.field .extended access m.cpu.start) := by
  obtain ⟨bit, bits, hBits⟩ := List.exists_cons_of_ne_nil (mt (listed_eq_nil_iff list).mp hList)
  have hFirst := moveListed_of_refused h bit m
  have hAll : (moveAll access m.cpu.field (bit :: bits) m).1 =
      .error (refusal m.cpu.field .extended access m.cpu.start) := by
    rw [moveAll, andThen_of_error hFirst]
  rw [multiple, bind_apply, getCpu_apply, hBits, andThen_of_error hAll]

theorem multiple_result (access : Access) (list : Byte) (m : Machine β) :
    (multiple access list m).1 = ending m.cpu.start
      (Check.firstFailed? (Operation.checks (.multiple access list) m.cpu.field)) := by
  by_cases hList : list = 0
  · subst hList
    rw [multiple_empty]
    rfl
  · have hAsked := withOperand_result m.cpu.field .extended access (fun _ => pure ()) m
    rw [Operation.checks, Operation.operand?, if_neg hList]
    refine Eq.trans ?_ hAsked
    cases h : Mode.route? m.cpu.field .extended access with
    | some mode => rw [multiple_of_route h, withOperand_of_route h]; rfl
    | none => rw [multiple_of_refused hList h, withOperand_of_refused h]

/-- **After decoding only the operand can be refused.** -/
theorem operation_result (op : Operation RegisterNumber) (m : Machine β) :
    (operation op m).1 = ending m.cpu.start (Check.firstFailed? (op.checks m.cpu.field)) := by
  cases op with
  | general source destination opmode =>
    cases source with
    | register n => rfl
    | memory format => exact withOperand_result _ _ _ _ m
  | store source format => exact withOperand_result _ _ _ _ m
  | control access register => exact withOperand_result _ _ _ _ m
  | multiple access list => exact multiple_result access list m

theorem dispatch_result (m : Machine β) :
    (dispatch m).1 = ending m.cpu.start (Check.firstFailed?
      (extensionChecks m.cpu.field (Bus.readWord m.cpu.pc m.bus).1)) := by
  rw [← Operation.refusal_of_extension]
  cases h : Operation.ofExtension (Bus.readWord m.cpu.pc m.bus).1 with
  | error cause => rw [dispatch_of_error h]; rfl
  | ok op => rw [dispatch_of_ok h]; exact operation_result op (decoded m op)

theorem branch_result (form : BranchForm) (m : Machine β) :
    (branch form m).1 = ending m.cpu.start (Check.firstFailed? [.condition m.cpu.field]) := by
  have hCode := ofCode?_isSome_condition m.cpu.field
  rw [branch, bind_apply, getCpu_apply]
  cases h : Condition.ofCode? m.cpu.field with
  | none =>
    rw [h] at hCode
    rw [Check.firstFailed?_of_fails hCode.symm]
    rfl
  | some condition =>
    rw [h] at hCode
    rw [Check.firstFailed?_of_passes hCode.symm]
    rfl

/-- **The encoding decides.**  On any bus and in whatever state: a general instruction ends
in the fault of the first of its checks that fails, and ends well if none does.  The checks
depend on the opcode and, in the class that has one, on the extension word. -/
theorem acceptance_by_encoding (m : Machine β) :
    (generalGroup m).1 = ending m.cpu.start
      (Check.firstFailed? (generalChecks m.cpu.ir (Bus.readWord m.cpu.pc m.bus).1)) := by
  rw [generalGroup_apply, reporting_result]
  rcases class_cases (m.cpu.ir.extractLsb' 6 2) with h | h | h | h
  · simp only [generalChecks, h]
    exact dispatch_result m
  · simp only [generalChecks, h]
    rfl
  · simp only [generalChecks, h]
    exact branch_result .word m
  · simp only [generalChecks, h]
    exact branch_result .long m

/-- A format is checked before the opmode, and the opmode before the operand. -/
example (opcode : Word) (h : opcode.extractLsb' 6 2 = 0#2) :
    Check.firstFailed? (generalChecks opcode 0x487F) = some (.format .extended .read) := by
  rw [generalChecks, h]
  rfl

/-! ### Register lists -/

/-- The mode through which a list moves. -/
def listMode : Access → RegisterNumber → Mode
  | .write => .predecrement
  | .read => .postincrement

theorem route_extended_isSome (field : Byte) (access : Access) :
    (Mode.route? field .extended access).isSome = true ↔
      ∃ n, Mode.ofField? field = some (listMode access n) := by
  cases access with
  | read => revert field; decide
  | write => revert field; decide

/-- **A list is accepted through its one mode, and an empty list through all.**  Otherwise
the operand is refused.  An empty list leaves the processor behind the extension word. -/
theorem multiple_accepted_iff {m : Machine β} {access : Access} {list : Byte}
    (hClass : m.cpu.ir.extractLsb' 6 2 = 0)
    (hWord : Operation.ofExtension (Bus.readWord m.cpu.pc m.bus).1 =
      .ok (.multiple access list)) :
    ((generalGroup m).1 = .ok () ↔
      list = 0 ∨ ∃ n, Mode.ofField? m.cpu.field = some (listMode access n)) ∧
    ((generalGroup m).1 ≠ .ok () → (generalGroup m).1 =
      .error (refusal m.cpu.field .extended access m.cpu.start)) ∧
    (list = 0 → (generalGroup m).2.cpu = m.cpu.advance 2) := by
  have hResult : (generalGroup m).1 =
      (multiple access list (decoded m (.multiple access list))).1 := by
    rw [generalGroup_of_extension hClass, reporting_result, dispatch_of_ok hWord]
    rfl
  rw [← route_extended_isSome, hResult]
  by_cases hList : list = 0
  · subst hList
    have hEmpty := multiple_empty access (decoded m (.multiple access 0))
    have hGroup := generalGroup_of_operation hClass hWord (congrArg Prod.fst hEmpty)
    rw [hGroup, operation, hEmpty]
    exact ⟨iff_of_true rfl (Or.inl rfl), fun h => absurd rfl h, fun _ => rfl⟩
  · cases hRoute : Mode.route? m.cpu.field .extended access with
    | some mode =>
      have hOk := congrArg Prod.fst
        (multiple_of_route (m := decoded m (.multiple access list)) hRoute list)
      rw [hOk]
      exact ⟨iff_of_true rfl (Or.inr rfl), fun h => absurd rfl h, fun h => absurd h hList⟩
    | none =>
      have hRefused := multiple_of_refused (m := decoded m (.multiple access list)) hList hRoute
      rw [hRefused]
      refine ⟨iff_of_false nofun ?_, fun _ => rfl, fun h => absurd h hList⟩
      rintro (h | h)
      · exact hList h
      · exact absurd h Bool.false_ne_true

/-- The store of no register to an absolute address. -/
def storesNothing : Machine Ram := .begun 0xF239 [0xE000, 0x0000, 0x2000]

/-- The store of no register is accepted through a mode that no list moves through, and the
address that follows it is left to be executed. -/
theorem multiple_accepted_iff_absolute :
    Mode.ofField? storesNothing.cpu.field = some .absoluteLong ∧
      (generalGroup storesNothing).1 = .ok () ∧
      (generalGroup storesNothing).2.cpu.pc = 0x1004 := by
  obtain ⟨hAccepted, -, hEmpty⟩ :=
    multiple_accepted_iff (m := storesNothing) rfl rfl
  refine ⟨rfl, hAccepted.mpr (Or.inl rfl), ?_⟩
  rw [hEmpty rfl]
  rfl

/-- So not every mode that is illegal for a list is refused. -/
theorem exists_multiple_accepted : ¬ ∀ (m : Machine Ram) (access : Access) (list : Byte),
    m.cpu.ir.extractLsb' 6 2 = 0 →
    Operation.ofExtension (m.bus.memory.peekWord m.cpu.pc) = .ok (.multiple access list) →
    ((generalGroup m).1 = .ok () ↔ ∃ n, Mode.ofField? m.cpu.field = some (listMode access n)) := by
  intro h
  obtain ⟨n, hn⟩ := (h storesNothing .write 0 rfl rfl).mp rfl
  cases hn

end Exec

end M68kFloat
