import Mathlib.Data.List.Infix
import M68kFloat.Query

/-!
# Paths

A path is read as the property whose path it is and as no other (`ofPath?_eq_some_iff`).
What is read has been written so: a register path is taken apart into `fp`, one digit and
the ending, whatever text it is, and put together again (`ofRegisterPath?_sound`).  What has
been written is read by the table of all properties.

So a query answers the paths that are listed, each with its part of the processor
(`Cpu.parts`), and no other text.
-/

namespace M68kFloat

namespace Property

/-! ### Reading a path -/

theorem toList_decimal (n : RegisterNumber) :
    (decimal n).toList = [Char.ofNat ('0'.toNat + n.toNat)] := by
  revert n
  decide

/-- One digit names a register, and no other text does. -/
theorem registerOf?_eq_some_iff {index : List Char} {n : RegisterNumber} :
    registerOf? index = some n ↔ index = (decimal n).toList := by
  constructor
  · intro h
    unfold registerOf? at h
    split at h
    next digit =>
      split at h
      next hDigit =>
        have hLow : '0'.toNat ≤ digit.toNat := hDigit.1
        have hHigh : digit.toNat ≤ '7'.toNat := hDigit.2
        have hNumber : '0'.toNat + n.toNat = digit.toNat := by
          rw [← Option.some.inj h, BitVec.toNat_ofNat]
          simp only [Char.reduceToNat] at hLow hHigh ⊢
          omega
        rw [toList_decimal, hNumber, Char.ofNat_toNat]
      next => cases h
    next => cases h
  · rintro rfl
    revert n
    decide

theorem ofRegisterPath?_sound {text : List Char} {property : Property}
    (h : ofRegisterPath? text = some property) : text = property.path.toList := by
  obtain ⟨rest, hRest, hProperty⟩ := Option.bind_eq_some_iff.mp h
  rw [List.isPrefixOf?_eq_some_iff_append_eq] at hRest
  cases hIndex : ".bits".toList.isSuffixOf? rest with
  | some index =>
    rw [hIndex] at hProperty
    obtain ⟨n, hDigit, rfl⟩ := Option.map_eq_some_iff.mp hProperty
    rw [List.isSuffixOf?_eq_some_iff_append_eq] at hIndex
    rw [registerOf?_eq_some_iff] at hDigit
    rw [← hRest, ← hIndex, hDigit, path, String.toList_append, String.toList_append,
      List.append_assoc]
  | none =>
    rw [hIndex] at hProperty
    obtain ⟨n, hDigit, rfl⟩ := Option.map_eq_some_iff.mp hProperty
    rw [registerOf?_eq_some_iff] at hDigit
    rw [← hRest, hDigit, path, String.toList_append]

theorem ofName?_sound {text : String} {property : Property} (h : ofName? text = some property) :
    text = property.path := by
  unfold ofName? at h
  split at h <;> cases h <;> rfl

theorem mem_all (property : Property) : property ∈ all := by
  cases property with
  | register n =>
    revert n
    decide
  | pattern n =>
    revert n
    decide
  | control register => cases register <;> decide
  | code code => cases code <;> decide
  | pc => decide
  | opcode => decide
  | cycles => decide

theorem ofPath?_path (property : Property) : ofPath? property.path = some property := by
  have hAll : ∀ property ∈ all, ofPath? property.path = some property := by decide
  exact hAll property (mem_all property)

/-- **A path is read as the property that it names**, and every other text is refused. -/
theorem ofPath?_eq_some_iff {text : String} {property : Property} :
    ofPath? text = some property ↔ text = property.path := by
  constructor
  · intro h
    rcases Option.or_eq_some_iff.mp h with hRegister | ⟨-, hName⟩
    · exact String.toList_injective (ofRegisterPath?_sound hRegister)
    · exact ofName?_sound hName
  · rintro rfl
    exact ofPath?_path property

example : ofPath? "fp8" = none := by decide
example : ofPath? "fp0.bits.bits" = none := by decide
example : ofPath? "fpcr.bits" = none := by decide

/-- The paths that are listed are those of the properties. -/
theorem listed_eq : listed = all.map path := by decide

end Property

/-! ### Answering a path -/

/-- The paths with the parts of a processor that they stand for. -/
def Cpu.parts (cpu : Cpu) : List (String × Value) :=
  [("fp0", .double (cpu.fp.get 0)), ("fp1", .double (cpu.fp.get 1)),
    ("fp2", .double (cpu.fp.get 2)), ("fp3", .double (cpu.fp.get 3)),
    ("fp4", .double (cpu.fp.get 4)), ("fp5", .double (cpu.fp.get 5)),
    ("fp6", .double (cpu.fp.get 6)), ("fp7", .double (cpu.fp.get 7)),
    ("fp0.bits", .quad (cpu.fp.get 0).bits), ("fp1.bits", .quad (cpu.fp.get 1).bits),
    ("fp2.bits", .quad (cpu.fp.get 2).bits), ("fp3.bits", .quad (cpu.fp.get 3).bits),
    ("fp4.bits", .quad (cpu.fp.get 4).bits), ("fp5.bits", .quad (cpu.fp.get 5).bits),
    ("fp6.bits", .quad (cpu.fp.get 6).bits), ("fp7.bits", .quad (cpu.fp.get 7).bits),
    ("fpcr", .long cpu.fpcr), ("fpsr", .long cpu.fpsr), ("fpiar", .long cpu.fpiar),
    ("fpcc.n", .bool (cpu.fpsr.getLsbD 27)), ("fpcc.z", .bool (cpu.fpsr.getLsbD 26)),
    ("fpcc.i", .bool (cpu.fpsr.getLsbD 25)), ("fpcc.nan", .bool (cpu.fpsr.getLsbD 24)),
    ("pc", .long cpu.pc), ("opcode", .word cpu.ir), ("cycles", .quad cpu.cycles)]

namespace Cpu

theorem parts_eq (cpu : Cpu) :
    cpu.parts = Property.all.map fun property => (property.path, property.value cpu) := rfl

theorem query_eq_some_iff {cpu : Cpu} {path : String} {value : Value} :
    cpu.query path = some value ↔
      ∃ property : Property, path = property.path ∧ property.value cpu = value := by
  simp only [query, Option.map_eq_some_iff, Property.ofPath?_eq_some_iff]

end Cpu

/-- **A query answers the paths that are listed and no other text**, each with the part of
the processor that it names. -/
theorem queries_answer_listed (cpu : Cpu) :
    (∀ path : String, (cpu.query path).isSome ↔ path ∈ Property.listed) ∧
    ∀ (path : String) (value : Value),
      cpu.query path = some value ↔ (path, value) ∈ cpu.parts := by
  constructor
  · intro path
    rw [Option.isSome_iff_exists, Property.listed_eq, List.mem_map]
    constructor
    · rintro ⟨value, hValue⟩
      obtain ⟨property, rfl, -⟩ := Cpu.query_eq_some_iff.mp hValue
      exact ⟨property, property.mem_all, rfl⟩
    · rintro ⟨property, -, rfl⟩
      exact ⟨property.value cpu, Cpu.query_eq_some_iff.mpr ⟨property, rfl, rfl⟩⟩
  · intro path value
    rw [Cpu.query_eq_some_iff, Cpu.parts_eq, List.mem_map]
    constructor
    · rintro ⟨property, rfl, rfl⟩
      exact ⟨property, property.mem_all, rfl⟩
    · rintro ⟨property, -, hPart⟩
      exact ⟨property, (congrArg Prod.fst hPart).symm, congrArg Prod.snd hPart⟩

end M68kFloat
