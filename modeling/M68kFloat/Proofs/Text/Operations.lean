import M68kFloat.Operation
import M68kFloat.Proofs.Text.Numerals

/-!
# Operations and their texts

The text of an operation tells the operation.  Every text is a `Line` of assembler notation: a
mnemonic, a point, the letter of a format, a space, and two arguments with a comma between them.
No mnemonic holds a point, no letter is a space and no argument holds a comma, so the parts of a
line are found again (`Line.text_injective`), and from its parts an operation is assembled again
(`ofLine?_line`).

Moves are what makes this necessary.  A general move, a store and both moves of a control register
share a mnemonic and a letter, and only the places of their arguments tell them apart, and that a
control register has no number.
-/

namespace M68kFloat.Operation

/-! ### Arguments -/

/-- What stands before the comma of a line or after it. -/
inductive Argument
  /-- The operand, whose address stays open. -/
  | operand
  /-- A floating-point register. -/
  | register (n : Nat)
  | control (r : ControlRegister)
  /-- A register list. -/
  | list (bits : Byte)
  | predecrement
  | postincrement

namespace Argument

def text : Argument → List Char
  | operand => "<ea>".toList
  | register n => "FP".toList ++ (toString n).toList
  | control r => r.name.toList
  | list bits => "#".toList ++ (hexadecimal bits).toList
  | predecrement => "-(An)".toList
  | postincrement => "(An)+".toList

/-- The code of the character with which an argument begins. -/
def initial : Argument → Nat
  | operand => 60
  | register _ | control _ => 70
  | list _ => 35
  | predecrement => 45
  | postincrement => 40

theorem head?_text (a : Argument) : a.text.head?.map Char.toNat = some a.initial := by
  cases a with
  | control r => cases r <;> rfl
  | _ => rfl

theorem name_eq (register : ControlRegister) :
    ∃ letter rest, letter.isDigit = false ∧
      register.name.toList = "FP".toList ++ letter :: rest := by
  cases register with
  | fpiar => exact ⟨'I', ['A', 'R'], rfl, rfl⟩
  | fpsr => exact ⟨'S', ['R'], rfl, rfl⟩
  | fpcr => exact ⟨'C', ['R'], rfl, rfl⟩

/-- No number makes a floating-point register a control register. -/
theorem register_ne_control (n : Nat) (r : ControlRegister) :
    (register n).text ≠ (control r).text := by
  intro h
  obtain ⟨letter, rest, hLetter, hName⟩ := name_eq r
  have hNumber : (toString n).toList = letter :: rest := List.append_cancel_left (h.trans hName)
  refine notMem_toString hLetter n ?_
  rw [hNumber]
  exact List.mem_cons_self

theorem name_injective {r r' : ControlRegister} (h : r.name.toList = r'.name.toList) : r = r' := by
  revert h
  cases r <;> cases r' <;> decide

theorem text_injective {a a' : Argument} (h : a.text = a'.text) : a = a' := by
  have hInitial : a'.initial = a.initial := by
    have hHead := a.head?_text
    rw [h, a'.head?_text] at hHead
    exact Option.some.inj hHead
  cases a with
  | operand => cases a' <;> first | rfl | cases hInitial
  | predecrement => cases a' <;> first | rfl | cases hInitial
  | postincrement => cases a' <;> first | rfl | cases hInitial
  | list bits =>
    cases a' with
    | list bits' =>
      have hDigits := List.append_cancel_left h
      rw [hexadecimal_injective (by decide) (String.toList_injective hDigits)]
    | _ => cases hInitial
  | register n =>
    cases a' with
    | register n' => rw [toString_injective (List.append_cancel_left h)]
    | control r => exact absurd h (register_ne_control n r)
    | _ => cases hInitial
  | control r =>
    cases a' with
    | register n => exact absurd h.symm (register_ne_control n r)
    | control r' => rw [name_injective h]
    | _ => cases hInitial

theorem comma_notMem_text (a : Argument) : ',' ∉ a.text := by
  cases a with
  | register n =>
    intro h
    rcases List.mem_append.mp h with h | h
    · exact absurd h (by decide)
    · exact notMem_toString rfl n h
  | list bits =>
    have hDigits : ∀ k < 16, ',' ≠ digit k := by decide
    intro h
    rcases List.mem_append.mp h with h | h
    · exact absurd h (by decide)
    · rw [toList_hexadecimal] at h
      exact notMem_digits (by decide) hDigits _ _ h
  | control r => cases r <;> decide
  | operand => decide
  | predecrement => decide
  | postincrement => decide

end Argument

/-! ### Lines -/

/-- A line of assembler notation. -/
structure Line where
  /-- The operation that the mnemonic names, if it is not the move of a list. -/
  opmode : Option Opmode
  /-- The format that the letter names, if it is not that of a whole register. -/
  format : Option Format
  first : Argument
  second : Argument

namespace Line

def mnemonic (opmode : Option Opmode) : List Char :=
  (opmode.elim "FMOVEM" Opmode.mnemonic).toList

def letter (format : Option Format) : List Char := (format.elim "X" Format.suffix).toList

def text (line : Line) : List Char :=
  mnemonic line.opmode ++ '.' ::
    (letter line.format ++ ' ' :: (line.first.text ++ ',' :: line.second.text))

theorem mnemonic_injective {opmode opmode' : Option Opmode}
    (h : mnemonic opmode = mnemonic opmode') : opmode = opmode' := by
  have hMem : ∀ opmode : Option Opmode, opmode ∈ none :: Opmode.all.map some := by
    rintro (_ | opmode)
    · decide
    · cases opmode <;> decide
  have hAll : ∀ a ∈ none :: Opmode.all.map some, ∀ b ∈ none :: Opmode.all.map some,
      mnemonic a = mnemonic b → a = b := by decide
  exact hAll _ (hMem opmode) _ (hMem opmode') h

theorem letter_injective {format format' : Option Format} (h : letter format = letter format') :
    format = format' := by
  revert h
  rcases format with _ | _ | _ | _ | _ | _ <;> rcases format' with _ | _ | _ | _ | _ | _ <;> decide

theorem point_notMem_mnemonic (opmode : Option Opmode) : '.' ∉ mnemonic opmode := by
  rcases opmode with _ | opmode
  · decide
  · cases opmode <;> decide

theorem space_notMem_letter (format : Option Format) : ' ' ∉ letter format := by
  rcases format with _ | format
  · decide
  · cases format <;> decide

/-- **The parts of a line are found by the point, the space and the comma.** -/
theorem text_injective {line line' : Line} (h : line.text = line'.text) : line = line' := by
  obtain ⟨opmode, format, first, second⟩ := line
  obtain ⟨opmode', format', first', second'⟩ := line'
  obtain ⟨hMnemonic, hRest⟩ := append_separator_inj (point_notMem_mnemonic opmode)
    (point_notMem_mnemonic opmode') h
  obtain ⟨hLetter, hArguments⟩ := append_separator_inj (space_notMem_letter format)
    (space_notMem_letter format') hRest
  obtain ⟨hFirst, hSecond⟩ := append_separator_inj first.comma_notMem_text
    first'.comma_notMem_text hArguments
  obtain rfl : opmode = opmode' := mnemonic_injective hMnemonic
  obtain rfl : format = format' := letter_injective hLetter
  obtain rfl : first = first' := Argument.text_injective hFirst
  obtain rfl : second = second' := Argument.text_injective hSecond
  rfl

end Line

/-! ### Operations as lines -/

variable {ρ : Type} {number : ρ → Nat}

/-- The line of an operation. -/
def line (number : ρ → Nat) : Operation ρ → Line
  | general (.register source) destination opmode =>
    ⟨some opmode, none, .register (number source), .register (number destination)⟩
  | general (.memory format) destination opmode =>
    ⟨some opmode, some format, .operand, .register (number destination)⟩
  | store source format => ⟨some .move, some format, .register (number source), .operand⟩
  | control .write register => ⟨some .move, some .long, .control register, .operand⟩
  | control .read register => ⟨some .move, some .long, .operand, .control register⟩
  | multiple .write list => ⟨none, none, .list list, .predecrement⟩
  | multiple .read list => ⟨none, none, .postincrement, .list list⟩

/-- The operation of a line, where a number names a register. -/
def ofLine? (register : Nat → ρ) : Line → Option (Operation ρ)
  | ⟨some opmode, none, .register n, .register k⟩ =>
    some (general (.register (register n)) (register k) opmode)
  | ⟨some opmode, some format, .operand, .register k⟩ =>
    some (general (.memory format) (register k) opmode)
  | ⟨some .move, some format, .register n, .operand⟩ => some (store (register n) format)
  | ⟨some .move, some .long, .control r, .operand⟩ => some (control .write r)
  | ⟨some .move, some .long, .operand, .control r⟩ => some (control .read r)
  | ⟨none, none, .list list, .predecrement⟩ => some (multiple .write list)
  | ⟨none, none, .postincrement, .list list⟩ => some (multiple .read list)
  | _ => none

theorem ofLine?_line {register : Nat → ρ} (h : ∀ r, register (number r) = r) (op : Operation ρ) :
    ofLine? register (op.line number) = some op := by
  cases op with
  | general source destination opmode =>
    cases source with
    | register source => simp only [line, ofLine?, h]
    | memory format => simp only [line, ofLine?, h]
  | store source format => simp only [line, ofLine?, h]
  | control access register => cases access <;> rfl
  | multiple access list => cases access <;> rfl

theorem toList_registerName (n : Nat) :
    (registerName n).toList = (Argument.register n).text := String.toList_append

theorem toList_textWith (op : Operation ρ) :
    (op.textWith number).toList = (op.line number).text := by
  cases op with
  | general source destination opmode =>
    cases source with
    | register source =>
      show (opmode.mnemonic ++ ".X " ++ registerName (number source) ++ "," ++
        registerName (number destination)).toList = _
      simp [line, Line.text, Line.mnemonic, Line.letter, toList_registerName]
    | memory format =>
      show (opmode.mnemonic ++ "." ++ format.suffix ++ " <ea>," ++
        registerName (number destination)).toList = _
      simp [line, Line.text, Line.mnemonic, Line.letter, toList_registerName, Argument.text]
  | store source format =>
    show ("FMOVE." ++ format.suffix ++ " " ++ registerName (number source) ++ ",<ea>").toList = _
    simp [line, Line.text, Line.mnemonic, Line.letter, toList_registerName, Argument.text,
      Opmode.mnemonic]
  | control access register =>
    cases access with
    | write =>
      show ("FMOVE.L " ++ register.name ++ ",<ea>").toList = _
      simp [line, Line.text, Line.mnemonic, Line.letter, Argument.text, Opmode.mnemonic,
        Format.suffix]
    | read =>
      show ("FMOVE.L <ea>," ++ register.name).toList = _
      simp [line, Line.text, Line.mnemonic, Line.letter, Argument.text, Opmode.mnemonic,
        Format.suffix]
  | multiple access list =>
    cases access with
    | write =>
      show ("FMOVEM.X #" ++ hexadecimal list ++ ",-(An)").toList = _
      simp [line, Line.text, Line.mnemonic, Line.letter, Argument.text]
    | read =>
      show ("FMOVEM.X (An)+,#" ++ hexadecimal list).toList = _
      simp [line, Line.text, Line.mnemonic, Line.letter, Argument.text]

theorem textWith_injective {register : Nat → ρ} (h : ∀ r, register (number r) = r)
    {op op' : Operation ρ} (hText : op.textWith number = op'.textWith number) : op = op' := by
  have hLine : op.line number = op'.line number := by
    apply Line.text_injective
    rw [← toList_textWith, hText, toList_textWith]
  have hOp := ofLine?_line h op
  rw [hLine, ofLine?_line h op'] at hOp
  exact (Option.some.inj hOp).symm

/-- **The text of an operation identifies it**, whatever numbers its registers have.  So two
extension words that are decoded have one text exactly where they are decoded alike. -/
theorem text_identifies_operation :
    (∀ op op' : Operation Nat, op.textWith id = op'.textWith id ↔ op = op') ∧
    ∀ (extension extension' : Word) (op op' : Operation RegisterNumber),
      ofExtension extension = .ok op → ofExtension extension' = .ok op' →
      (op.text = op'.text ↔ ofExtension extension = ofExtension extension') := by
  constructor
  · intro op op'
    have hNumber : ∀ n : Nat, id (id n) = n := fun _ => rfl
    exact ⟨textWith_injective hNumber, congrArg _⟩
  · intro extension extension' op op' hOp hOp'
    have hNumber : ∀ n : RegisterNumber, BitVec.ofNat 3 n.toNat = n := fun n => by simp
    rw [hOp, hOp', Except.ok.injEq]
    exact ⟨textWith_injective hNumber, congrArg _⟩

/-- A load of the last register and one of a control register have texts that begin alike, and
bits that do not count make no difference to the text. -/
theorem text_identifies_operation_moves :
    ofExtension 0x4380 = .ok (general (.memory .long) 7 .move) ∧
    ofExtension 0x9000 = .ok (control .read .fpcr) ∧
    ofExtension 0x93FF = .ok (control .read .fpcr) ∧
    (general (.memory .long) (7 : RegisterNumber) .move).text ≠
      (control (ρ := RegisterNumber) .read .fpcr).text ∧
    ofExtension 0x9000 = ofExtension 0x93FF := by
  obtain ⟨-, hWords⟩ := text_identifies_operation
  refine ⟨rfl, rfl, rfl, ?_, ?_⟩
  · intro h
    have hOps : general (.memory .long) (7 : RegisterNumber) .move = control .read .fpcr :=
      Except.ok.inj ((hWords 0x4380 0x9000 _ _ rfl rfl).mp h)
    cases hOps
  · exact (hWords 0x9000 0x93FF (control .read .fpcr) (control .read .fpcr) rfl rfl).mp rfl

end M68kFloat.Operation
