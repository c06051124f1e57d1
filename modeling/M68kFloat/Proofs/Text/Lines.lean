import Mathlib.Data.List.Infix
import M68kFloat.Message
import M68kFloat.Proofs.Text.Faults

/-!
# Messages told by their first words

What kind of message a line of the log is can be read off its level and its first words
(`Message.begins`).  Of two openings neither begins the other, unless both are of one kind
(`Message.Apart`); for the faults this is decided on their stems, and an address in hexadecimal is
no word as words have other letters.
-/

namespace M68kFloat

namespace Message

/-- Whether a message has a level, and its text begins with the words given. -/
def begins (level words : String) (message : Message) : Bool :=
  message.level = level && words.toList.isPrefixOf message.text.toList

/-- The words about an extended image. -/
def imageWords (access : Access) : String := "extended " ++ access.text ++ " at "

/-- The words about a branch that is taken. -/
def branchWords (condition : Condition) : String := "FB" ++ condition.name ++ " taken to "

/-- The words with which the text of a message begins. -/
def opening : Message → List Char
  | dispatched start .. => (hexadecimal start).toList ++ ": ".toList
  | branched condition _ => (branchWords condition).toList
  | moved .. => "FMOVEM ".toList
  | saving _ => "FSAVE at ".toList
  | restoring _ => "FRESTORE at ".toList
  | extended access _ => (imageWords access).toList
  | refused fault => fault.cause.opening
  | rejected .. => "rejected ".toList

theorem opening_begins (message : Message) : message.opening <+: message.text.toList := by
  cases message with
  | dispatched start opcode extension operation =>
    show (hexadecimal start).toList ++ ": ".toList <+:
      (hexadecimal start ++ ": " ++ hexadecimal opcode ++ " " ++ hexadecimal extension ++ " " ++
        operation.text).toList
    simp
  | branched condition target =>
    show ("FB" ++ condition.name ++ " taken to ").toList <+:
      ("FB" ++ condition.name ++ " taken to " ++ hexadecimal target).toList
    exact ⟨(hexadecimal target).toList, String.toList_append.symm⟩
  | moved access list =>
    show "FMOVEM ".toList <+: ("FMOVEM " ++ access.text ++ " list " ++ binary list).toList
    simp
  | saving start =>
    show "FSAVE at ".toList <+: ("FSAVE at " ++ hexadecimal start ++ " writes a null frame").toList
    simp
  | restoring start =>
    show "FRESTORE at ".toList <+:
      ("FRESTORE at " ++ hexadecimal start ++ " discards its frame").toList
    simp
  | extended access place =>
    cases access with
    | read =>
      show ("extended " ++ "read" ++ " at ").toList <+:
        ("extended read at " ++ place.text ++ " truncated to double").toList
      simp
    | write =>
      show ("extended " ++ "write" ++ " at ").toList <+:
        ("extended write at " ++ place.text ++ " stored as double").toList
      simp
  | refused fault =>
    show fault.cause.opening <+: fault.text.toList
    rw [Fault.toList_text, Cause.toList_text, List.append_assoc, List.append_assoc]
    exact List.prefix_append _ _
  | rejected opcode fault =>
    show "rejected ".toList <+: ("rejected " ++ hexadecimal opcode ++ ": " ++ fault.text).toList
    simp

/-! ### Openings apart -/

/-- Neither of two openings begins the other. -/
def Apart (words words' : List Char) : Prop := ¬ words <+: words' ∧ ¬ words' <+: words

instance (words words' : List Char) : Decidable (Apart words words') :=
  inferInstanceAs (Decidable (_ ∧ _))

theorem Apart.symm {words words' : List Char} (h : Apart words words') : Apart words' words :=
  ⟨h.2, h.1⟩

variable {level words : String} {message : Message}

theorem begins_of_opening (hLevel : message.level = level)
    (h : words.toList <+: message.opening) : message.begins level words = true := by
  rw [begins, Bool.and_eq_true]
  exact ⟨decide_eq_true hLevel,
    List.isPrefixOf_iff_prefix.mpr (h.trans message.opening_begins)⟩

theorem not_begins_of_level (h : message.level ≠ level) : message.begins level words = false := by
  rw [begins, decide_eq_false h, Bool.false_and]

/-- A text begins with one of two openings that are apart, and not with the other. -/
theorem not_begins_of_apart (h : Apart words.toList message.opening) :
    message.begins level words = false := by
  refine Bool.eq_false_iff.mpr fun hBegins => ?_
  rw [begins, Bool.and_eq_true] at hBegins
  rcases List.prefix_or_prefix_of_prefix (List.isPrefixOf_iff_prefix.mp hBegins.2)
    message.opening_begins with hWords | hOpening
  · exact h.1 hWords
  · exact h.2 hOpening

/-- Words with a letter after F are not an address. -/
theorem apart_hexadecimal {c : Char} {words : List Char} (hMem : c ∈ words.take 8)
    (hLetter : 'F'.toNat < c.toNat) (start : Long) :
    Apart words ((hexadecimal start).toList ++ ": ".toList) := by
  have hDigits : ∀ k < 16, (digit k).toNat ≤ 'F'.toNat := by decide
  have hLength : (hexadecimal start).toList.length = 8 := length_hexadecimal start
  have hNone : c ∉ (hexadecimal start).toList := by
    rw [toList_hexadecimal]
    refine notMem_digits (by decide) (fun k hk hEq => ?_) _ _
    rw [hEq] at hLetter
    exact absurd (hDigits k hk) (Nat.not_le_of_lt hLetter)
  have hTake : ((hexadecimal start).toList ++ ": ".toList).take 8 = (hexadecimal start).toList :=
    List.take_left' hLength
  constructor
  · intro h
    have hFirst := h.take 8
    rw [hTake] at hFirst
    exact hNone (hFirst.subset hMem)
  · intro h
    have hFirst := h.take 8
    rw [hTake] at hFirst
    have hEq := hFirst.eq_of_length_le (by rw [hLength]; exact List.length_take_le 8 words)
    rw [hEq] at hNone
    exact hNone hMem

theorem apart_fault {words : List Char} (h : ∀ stem ∈ Cause.stems, Apart words stem.opening)
    (fault : Fault) : Apart words (refused fault).opening := by
  have hStem := h _ fault.cause.stem_mem
  rw [Cause.opening_stem] at hStem
  exact hStem

/-! ### Kinds -/

def isDispatched : Message → Bool
  | dispatched .. => true
  | _ => false

def isBranched : Message → Bool
  | branched .. => true
  | _ => false

def isExtended (access : Access) : Message → Bool
  | extended access' _ => access' = access
  | _ => false

def isRejected : Message → Bool
  | rejected .. => true
  | _ => false

theorem trace_ne_debug : "TRACE" ≠ "DEBUG" := by decide

theorem apart_imageWords (access : Access) :
    ∀ words ∈ ["FSAVE at ", "FRESTORE at ", "rejected "],
      Apart (imageWords access).toList words.toList := by
  cases access <;> decide

theorem apart_imageWords_of_ne {access access' : Access} (h : access' ≠ access) :
    Apart (imageWords access).toList (imageWords access').toList := by
  revert h
  cases access <;> cases access' <;> decide

theorem isRejected_eq (message : Message) :
    message.isRejected = message.begins "DEBUG" "rejected " := by
  symm
  cases message with
  | dispatched | branched | moved => exact not_begins_of_level trace_ne_debug
  | saving start =>
    exact not_begins_of_apart (by decide : Apart "rejected ".toList "FSAVE at ".toList)
  | restoring start =>
    exact not_begins_of_apart (by decide : Apart "rejected ".toList "FRESTORE at ".toList)
  | extended access place =>
    exact not_begins_of_apart (apart_imageWords access "rejected " (by decide)).symm
  | refused fault => exact not_begins_of_apart (apart_fault (by decide +kernel) fault)
  | rejected opcode fault => exact begins_of_opening rfl List.prefix_rfl

theorem isExtended_eq (access : Access) (message : Message) :
    message.isExtended access = message.begins "DEBUG" (imageWords access) := by
  symm
  cases message with
  | dispatched | branched | moved => exact not_begins_of_level trace_ne_debug
  | saving start => exact not_begins_of_apart (apart_imageWords access "FSAVE at " (by decide))
  | restoring start =>
    exact not_begins_of_apart (apart_imageWords access "FRESTORE at " (by decide))
  | extended access' place =>
    by_cases h : access' = access
    · subst h
      rw [isExtended, decide_eq_true rfl]
      exact begins_of_opening rfl List.prefix_rfl
    · rw [isExtended, decide_eq_false h]
      exact not_begins_of_apart (apart_imageWords_of_ne h)
  | refused fault =>
    refine not_begins_of_apart (apart_fault ?_ fault)
    cases access <;> decide +kernel
  | rejected opcode fault =>
    exact not_begins_of_apart (apart_imageWords access "rejected " (by decide))

theorem apart_branchWords (condition : Condition) (start : Long) :
    Apart (branchWords condition).toList ((hexadecimal start).toList ++ ": ".toList) := by
  have hLetter : ∃ c ∈ (branchWords condition).toList.take 8, 'F'.toNat < c.toNat := by
    cases condition with
    | never => exact ⟨'a', by decide, by decide⟩
    | equal => exact ⟨'q', by decide, by decide⟩
    | always | greater | greaterOrEqual => exact ⟨'r', by decide, by decide⟩
    | less | lessOrEqual => exact ⟨'e', by decide, by decide⟩
    | notEqual | notLess | notLessOrEqual | notGreater | notGreaterOrEqual =>
      exact ⟨'o', by decide, by decide⟩
  obtain ⟨c, hMem, hAfter⟩ := hLetter
  exact apart_hexadecimal hMem hAfter start

/-- Whether the words are those about a branch, on whatever condition. -/
def tellsBranch (message : Message) : Bool :=
  Condition.all.any fun condition => message.begins "TRACE" (branchWords condition)

theorem isBranched_eq (message : Message) : message.isBranched = message.tellsBranch := by
  have hNone (h : ∀ condition, message.begins "TRACE" (branchWords condition) = false) :
      message.tellsBranch = false :=
    List.any_eq_false.mpr fun condition _ => Bool.eq_false_iff.mp (h condition)
  symm
  cases message with
  | dispatched start opcode extension operation =>
    exact hNone fun condition => not_begins_of_apart (apart_branchWords condition start)
  | branched condition target =>
    have hMem : condition ∈ Condition.all := by cases condition <;> decide
    exact List.any_eq_true.mpr ⟨condition, hMem, begins_of_opening rfl List.prefix_rfl⟩
  | moved access list =>
    have hApart (condition : Condition) :
        Apart (branchWords condition).toList "FMOVEM ".toList := by
      cases condition <;> decide
    exact hNone fun condition => not_begins_of_apart (hApart condition)
  | saving | restoring | extended | refused | rejected =>
    exact hNone fun condition => not_begins_of_level trace_ne_debug.symm

/-- Only a message about an operation begins with an address. -/
theorem not_begins_address {message : Message} (h : message.isDispatched = false) (start : Long) :
    message.begins "TRACE" (hexadecimal start ++ ": ") = false := by
  cases message with
  | dispatched => cases h
  | branched condition target =>
    refine not_begins_of_apart ?_
    rw [String.toList_append]
    exact (apart_branchWords condition start).symm
  | moved access list =>
    have hMem : 'M' ∈ "FMOVEM ".toList.take 8 := by decide
    refine not_begins_of_apart ?_
    rw [String.toList_append]
    exact (apart_hexadecimal hMem (by decide) start).symm
  | saving | restoring | extended | refused | rejected =>
    exact not_begins_of_level trace_ne_debug.symm

end Message

end M68kFloat
