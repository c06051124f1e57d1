import Mathlib.Logic.Function.Basic
import M68kFloat.Fault
import M68kFloat.Proofs.Text.Numerals

/-!
# Faults and their texts

The text of a fault tells the fault.  It ends in the address, which always takes the same room, so
what remains is the text of the cause.  This begins with words that tell everything but the
numbers and, for a control register, the direction (`Cause.opening`), and no such opening begins
another (`stem_eq_of_begins`).  What follows an opening is then read piece by piece
(`eq_of_particulars`).
-/

namespace M68kFloat

namespace Cause

/-- The words with which the text of a cause begins. -/
def opening : Cause → List Char
  | illegalAddressing _ _ size access =>
    "illegal ".toList ++ size.text.toList ++ " ".toList ++ access.text.toList ++
      " through mode ".toList
  | format specifier access =>
    specifier.text.toList ++ " ".toList ++ access.text.toList ++ " unimplemented".toList
  | sourceSpecifier _ => "unimplemented source specifier ".toList
  | opmode _ => "unimplemented opmode ".toList
  | subop _ => "unimplemented subop ".toList
  | mainOp _ => "unimplemented main op ".toList
  | saveRestoreOp _ => "unimplemented save/restore op ".toList
  | multipleMode _ access => "FMOVEM ".toList ++ access.text.toList ++ " mode ".toList
  | controlRegister .. => "unknown control register ".toList
  | condition _ => "unhandled condition ".toList

/-- What follows the opening. -/
def particulars : Cause → List Char
  | illegalAddressing mode register _ _ =>
    (decimal mode).toList ++ ", reg ".toList ++ (decimal register).toList
  | format .. => []
  | sourceSpecifier specifier => (decimal specifier).toList
  | opmode code | condition code => (hexadecimal code).toList
  | subop code | mainOp code | saveRestoreOp code => (decimal code).toList
  | multipleMode mode _ => (decimal mode).toList ++ " unimplemented".toList
  | controlRegister selector access =>
    (decimal selector).toList ++ ", ".toList ++ access.text.toList

theorem toList_text (cause : Cause) : cause.text.toList = cause.opening ++ cause.particulars := by
  cases cause with
  | illegalAddressing mode register size access =>
    show ("illegal " ++ size.text ++ " " ++ access.text ++ " through mode " ++ decimal mode ++
        ", reg " ++ decimal register).toList =
      ("illegal ".toList ++ size.text.toList ++ " ".toList ++ access.text.toList ++
        " through mode ".toList) ++
        ((decimal mode).toList ++ ", reg ".toList ++ (decimal register).toList)
    simp only [String.toList_append, List.append_assoc]
  | format specifier access =>
    show (specifier.text ++ " " ++ access.text ++ " unimplemented").toList =
      (specifier.text.toList ++ " ".toList ++ access.text.toList ++ " unimplemented".toList) ++ []
    simp only [String.toList_append, List.append_nil]
  | multipleMode mode access =>
    show ("FMOVEM " ++ access.text ++ " mode " ++ decimal mode ++ " unimplemented").toList =
      ("FMOVEM ".toList ++ access.text.toList ++ " mode ".toList) ++
        ((decimal mode).toList ++ " unimplemented".toList)
    simp only [String.toList_append, List.append_assoc]
  | controlRegister selector access =>
    show ("unknown control register " ++ decimal selector ++ ", " ++ access.text).toList =
      "unknown control register ".toList ++
        ((decimal selector).toList ++ ", ".toList ++ access.text.toList)
    simp only [String.toList_append, List.append_assoc]
  | _ => exact String.toList_append

/-! ### Openings -/

/-- A cause with what its opening does not tell left out. -/
def stem : Cause → Cause
  | illegalAddressing _ _ size access => illegalAddressing 0 0 size access
  | format specifier access => format specifier access
  | sourceSpecifier _ => sourceSpecifier 0
  | opmode _ => opmode 0
  | subop _ => subop 0
  | mainOp _ => mainOp 0
  | saveRestoreOp _ => saveRestoreOp 0
  | multipleMode _ access => multipleMode 0 access
  | controlRegister .. => controlRegister 0 .read
  | condition _ => condition 0

def stems : List Cause :=
  [Access.read, .write].flatMap (fun access =>
    Size.all.map (fun size => illegalAddressing 0 0 size access) ++
      [.implemented .long, .implemented .single, .implemented .word, .implemented .double,
        .implemented .byte, .extended, .packed, .packedDynamic].map (fun s => format s access) ++
      [multipleMode 0 access]) ++
  [sourceSpecifier 0, opmode 0, subop 0, mainOp 0, saveRestoreOp 0, controlRegister 0 .read,
    condition 0]

theorem stem_mem (cause : Cause) : cause.stem ∈ stems := by
  cases cause with
  | illegalAddressing mode register size access =>
    show illegalAddressing 0 0 size access ∈ stems
    cases size <;> cases access <;> decide
  | format specifier access =>
    show format specifier access ∈ stems
    rcases specifier with (_ | _ | _ | _ | _) | _ | _ | _ <;> cases access <;> decide
  | multipleMode mode access =>
    show multipleMode 0 access ∈ stems
    cases access <;> decide
  | sourceSpecifier _ => exact (by decide : sourceSpecifier 0 ∈ stems)
  | opmode _ => exact (by decide : opmode 0 ∈ stems)
  | subop _ => exact (by decide : subop 0 ∈ stems)
  | mainOp _ => exact (by decide : mainOp 0 ∈ stems)
  | saveRestoreOp _ => exact (by decide : saveRestoreOp 0 ∈ stems)
  | controlRegister _ _ => exact (by decide : controlRegister 0 .read ∈ stems)
  | condition _ => exact (by decide : condition 0 ∈ stems)

theorem opening_stem (cause : Cause) : cause.stem.opening = cause.opening := by
  cases cause <;> rfl

/-- **No opening begins another.** -/
theorem stem_eq_of_begins {cause cause' : Cause} (h : cause.opening <+: cause'.opening) :
    cause.stem = cause'.stem := by
  have hAll : ∀ a ∈ stems, ∀ b ∈ stems, a.opening <+: b.opening → a = b := by decide +kernel
  rw [← opening_stem cause, ← opening_stem cause'] at h
  exact hAll _ cause.stem_mem _ cause'.stem_mem h

/-! ### Particulars -/

theorem access_text_injective {access access' : Access}
    (h : access.text.toList = access'.text.toList) : access = access' := by
  revert h
  cases access <;> cases access' <;> decide

/-- Causes that only differ in their particulars differ in the texts of these. -/
theorem eq_of_particulars {cause cause' : Cause} (hStem : cause.stem = cause'.stem)
    (h : cause.particulars = cause'.particulars) : cause = cause' := by
  cases cause with
  | illegalAddressing mode register size access =>
    cases cause' with
    | illegalAddressing mode' register' size' access' =>
      obtain ⟨-, -, rfl, rfl⟩ := Cause.illegalAddressing.inj hStem
      rw [particulars, particulars, List.append_assoc, List.append_assoc] at h
      obtain ⟨rfl, hRest⟩ := decimal_append_inj rfl h
      rw [decimal_injective (List.append_cancel_left hRest)]
    | _ => cases hStem
  | format specifier access =>
    cases cause' with
    | format specifier' access' => exact hStem
    | _ => cases hStem
  | sourceSpecifier specifier =>
    cases cause' with
    | sourceSpecifier specifier' => rw [decimal_injective h]
    | _ => cases hStem
  | opmode code =>
    cases cause' with
    | opmode code' => rw [hexadecimal_injective (by decide) (String.toList_injective h)]
    | _ => cases hStem
  | subop code =>
    cases cause' with
    | subop code' => rw [decimal_injective h]
    | _ => cases hStem
  | mainOp code =>
    cases cause' with
    | mainOp code' => rw [decimal_injective h]
    | _ => cases hStem
  | saveRestoreOp code =>
    cases cause' with
    | saveRestoreOp code' => rw [decimal_injective h]
    | _ => cases hStem
  | multipleMode mode access =>
    cases cause' with
    | multipleMode mode' access' =>
      obtain ⟨-, rfl⟩ := Cause.multipleMode.inj hStem
      rw [decimal_injective (List.append_cancel_right h)]
    | _ => cases hStem
  | controlRegister selector access =>
    cases cause' with
    | controlRegister selector' access' =>
      rw [particulars, particulars, List.append_assoc, List.append_assoc] at h
      obtain ⟨rfl, hRest⟩ := decimal_append_inj rfl h
      rw [access_text_injective (List.append_cancel_left hRest)]
    | _ => cases hStem
  | condition code =>
    cases cause' with
    | condition code' => rw [hexadecimal_injective (by decide) (String.toList_injective h)]
    | _ => cases hStem

/-- The text of a cause tells the cause. -/
theorem text_injective {cause cause' : Cause} (h : cause.text = cause'.text) : cause = cause' := by
  have hText : cause.opening ++ cause.particulars = cause'.opening ++ cause'.particulars := by
    rw [← toList_text, h, toList_text]
  -- two openings of one text begin each other
  have hStem : cause.stem = cause'.stem := by
    rcases List.prefix_or_prefix_of_prefix (List.prefix_append _ _)
      (hText ▸ List.prefix_append cause'.opening cause'.particulars) with hPrefix | hPrefix
    · exact stem_eq_of_begins hPrefix
    · exact (stem_eq_of_begins hPrefix).symm
  have hOpening : cause.opening = cause'.opening := by
    rw [← opening_stem, hStem, opening_stem]
  rw [hOpening] at hText
  exact eq_of_particulars hStem (List.append_cancel_left hText)

end Cause

theorem Fault.toList_text (fault : Fault) : fault.text.toList =
    fault.cause.text.toList ++ " at ".toList ++ (hexadecimal fault.pc).toList := by
  show (fault.cause.text ++ " at " ++ hexadecimal fault.pc).toList = _
  rw [String.toList_append, String.toList_append]

theorem Fault.text_injective {fault fault' : Fault} (h : fault.text = fault'.text) :
    fault = fault' := by
  have hText := congrArg String.toList h
  have hLength : (hexadecimal fault.pc).toList.length = (hexadecimal fault'.pc).toList.length := by
    rw [length_hexadecimal, length_hexadecimal]
  rw [Fault.toList_text, Fault.toList_text] at hText
  obtain ⟨hCause, hAddress⟩ := List.append_inj' hText hLength
  have hCause := Cause.text_injective (String.toList_injective (List.append_cancel_right hCause))
  have hPc := hexadecimal_injective (by decide) (String.toList_injective hAddress)
  obtain ⟨cause, pc⟩ := fault
  obtain ⟨cause', pc'⟩ := fault'
  obtain rfl : cause = cause' := hCause
  obtain rfl : pc = pc' := hPc
  rfl

/-- **The text of a fault identifies it.**  Equal texts are of equal faults, so there is a reading
of texts that finds the cause with its fields, its kind and the address of the instruction again,
and finds none in any other text. -/
theorem text_identifies_fault :
    (∀ fault fault' : Fault, fault.text = fault'.text ↔ fault = fault') ∧
    ∃ read : String → Option Fault, ∀ fault text, read text = some fault ↔ fault.text = text := by
  have hInjective : Function.Injective Fault.text := fun _ _ => Fault.text_injective
  exact ⟨fun _ _ => hInjective.eq_iff, Function.partialInv Fault.text,
    fun fault text => hInjective.isPartialInv fault text⟩

end M68kFloat
