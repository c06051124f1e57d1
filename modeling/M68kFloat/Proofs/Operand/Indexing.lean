import M68kFloat.Proofs.Operand.Address

/-!
# Addresses of index words

An index word stands for a sum.  `Machine.indexTerms` reads its terms off the bits of the word and
the displacements behind it, and `Machine.indexedPlace` adds them up in the four ways there are:
the brief form, the full form without a pointer, and the index before or after a pointer.
`indexedAddress_ram` says that this is the address which the machine finds, what it reads for it,
and that only the program counter moves.

Different words may stand for the same sum.
-/

namespace M68kFloat

open Memory BusCall

/-! ### The sum -/

/-- The value of the index that bits 15 to 9 of an index word select.  From the top these are: an
address register or a data register, its number, all of it or its low word with its sign, and the
number of places that it is shifted. -/
def Cpu.selectedIndex (cpu : Cpu) (selection : BitVec 7) : Long :=
  let n := selection.extractLsb' 3 3
  let register := if selection.getLsbD 6 then cpu.a.get n else cpu.d.get n
  let part := if selection.getLsbD 2 then register else (register.setWidth 16).signExtend 32
  part <<< (selection.extractLsb' 0 2).toNat

/-- The displacement at an address, by the two bits that give its width. -/
def Memory.displacementAt (memory : Memory) (a : Long) (bits : BitVec 2) : Long :=
  if bits = 2 then (memory.peekWord a).signExtend 32
  else if bits = 3 then memory.peekLong a
  else 0

theorem Memory.displacementAt_of_null {bits : BitVec 2} (h : displacementBytes bits = 0)
    (memory : Memory) (a : Long) : memory.displacementAt a bits = 0 := by
  have hWidth : ∀ bits : BitVec 2, displacementBytes bits = 0 → bits ≠ 2 ∧ bits ≠ 3 := by decide
  rw [displacementAt, if_neg (hWidth bits h).1, if_neg (hWidth bits h).2]

/-- The terms of an index word in the full form. -/
structure IndexTerms where
  base : Long
  index : Long
  inner : Long
  outer : Long

namespace Machine

/-- The terms of the index word at the program counter.  Bit 7 leaves out the base and bit 6 the
index; bits 5 and 4 give the width of the inner displacement, bits 1 and 0 that of the outer one,
which lies behind it. -/
def indexTerms (m : Machine Ram) (base : Long) : IndexTerms where
  base := if m.nextWord.getLsbD 7 then 0 else base
  index := if m.nextWord.getLsbD 6 then 0 else m.cpu.selectedIndex (m.nextWord.extractLsb' 9 7)
  inner := m.bus.memory.displacementAt (m.cpu.pc + 2) (m.nextWord.extractLsb' 4 2)
  outer := m.bus.memory.displacementAt
    (m.cpu.pc + (2 + BitVec.ofNat 32 (displacementBytes (m.nextWord.extractLsb' 4 2))))
    (m.nextWord.extractLsb' 0 2)

/-- The address of the pointer that the index word leads through.  Bit 2 puts the index after the
pointer. -/
def indexPointer (m : Machine Ram) (base : Long) : Long :=
  let terms := m.indexTerms base
  if m.nextWord.getLsbD 2 then terms.base + terms.inner
  else terms.base + terms.inner + terms.index

/-- The address that the index word at the program counter makes of a base.  Bit 8 tells the full
form from the brief one. -/
def indexedPlace (m : Machine Ram) (base : Long) : Long :=
  let word := m.nextWord
  let terms := m.indexTerms base
  let pointer := m.bus.memory.peekLong (m.indexPointer base)
  if word.getLsbD 8 = false then
    base + m.cpu.selectedIndex (word.extractLsb' 9 7) + (word.setWidth 8).signExtend 32
  else if word.extractLsb' 0 3 = 0 then terms.base + terms.inner + terms.index
  else if word.getLsbD 2 then pointer + terms.index + terms.outer
  else pointer + terms.outer

/-- The read of the pointer, where there is one. -/
def pointerReads (m : Machine Ram) (base : Long) : List BusCall :=
  if leadsThroughPointer m.nextWord then
    [.read .pointer .long (m.indexPointer base) (m.bus.memory.peekLong (m.indexPointer base))]
  else []

end Machine

namespace Exec

/-! ### Its terms as the machine finds them -/

theorem indexValue_ofWord (cpu : Cpu) (word : Word) :
    cpu.indexValue (Index.ofWord word) = cpu.selectedIndex (word.extractLsb' 9 7) := by
  have hRegister : (word.extractLsb' 9 7).extractLsb' 3 3 = word.extractLsb' 12 3 := by
    apply BitVec.eq_of_getLsbD_eq
    intro k hk
    have hBit : 3 + k < 7 := by omega
    simp [hk, hBit, ← Nat.add_assoc]
  have hScale : (word.extractLsb' 9 7).extractLsb' 0 2 = word.extractLsb' 9 2 := by
    apply BitVec.eq_of_getLsbD_eq
    intro k hk
    have hBit : k < 7 := by omega
    simp [hk, hBit]
  have hBits : (word.extractLsb' 9 7).getLsbD 6 = word.getLsbD 15 ∧
      (word.extractLsb' 9 7).getLsbD 2 = word.getLsbD 11 := by
    simp
  rw [Cpu.selectedIndex, hRegister, hScale, hBits.1, hBits.2]
  rfl

/-- A displacement is fetched by reading the stream. -/
theorem fetchDisplacement_ram (bits : BitVec 2) (m : Machine Ram) :
    ∃ stream, (∀ call ∈ stream, call.IsStream) ∧ fetchDisplacement (.ofBits bits) m =
      (m.bus.memory.displacementAt m.cpu.pc bits,
        fetched m (BitVec.ofNat 32 (displacementBytes bits)) stream) := by
  have hNull : fetchDisplacement .null m = (0, fetched m 0 []) := by
    rw [fetched_nothing]
    rfl
  have hCases : ∀ bits : BitVec 2, bits = 0 ∨ bits = 1 ∨ bits = 2 ∨ bits = 3 := by decide
  rcases hCases bits with rfl | rfl | rfl | rfl
  · exact ⟨[], fun _ h => absurd h List.not_mem_nil, hNull⟩
  · exact ⟨[], fun _ h => absurd h List.not_mem_nil, hNull⟩
  · exact ⟨[wordRead m], List.forall_mem_singleton.mpr trivial, rfl⟩
  · exact ⟨[longRead m], List.forall_mem_singleton.mpr trivial, fetchLong_ram m⟩

theorem readPointer_fetched (a : Long) (m : Machine Ram) (bytes : Long) (stream : List BusCall) :
    readLong .pointer a (fetched m bytes stream) = (m.bus.memory.peekLong a,
      fetched m bytes (stream ++ [.read .pointer .long a (m.bus.memory.peekLong a)])) := by
  rw [readLong_apply]
  simp only [fetched, List.append_assoc]

/-- Where the index goes, by the three bits that say so. -/
theorem indirection_ofBits : ∀ bits : BitVec 3, Indirection.ofBits bits =
    if bits = 0 then .direct
    else if bits.getLsbD 2 then .postindexed (.ofBits (bits.extractLsb' 0 2))
    else .preindexed (.ofBits (bits.extractLsb' 0 2)) := by decide

/-- What is left to do for an index word in the full form once its inner displacement has been
fetched. -/
def finishIndexed (base inner index : Long) : Indirection → Exec Ram Long
  | .direct => return base + inner + index
  | .preindexed width => do
    let outer ← fetchDisplacement width
    return (← readLong .pointer (base + inner + index)) + outer
  | .postindexed width => do
    let outer ← fetchDisplacement width
    return (← readLong .pointer (base + inner)) + index + outer

/-- The index word is read first, and then it is known what to do. -/
theorem indexedAddress_apply (base : Long) (m : Machine Ram) :
    indexedAddress base m = (match IndexWord.ofWord m.nextWord with
      | .brief index displacement =>
        return base + m.cpu.indexValue index + displacement.signExtend 32
      | .full hasBase index width indirection => do
        let inner ← fetchDisplacement width
        finishIndexed (if hasBase then base else 0) inner ((index.map m.cpu.indexValue).getD 0)
          indirection : Exec Ram Long) (fetched m 2 [wordRead m]) := by
  rw [indexedAddress, bind_apply, fetchWord_ram, bind_apply, getCpu_apply]
  show (match IndexWord.ofWord m.nextWord with
    | .brief index displacement => _
    | .full hasBase index width indirection => _ : Exec Ram Long) _ = _
  cases IndexWord.ofWord m.nextWord with
  | brief index displacement => rfl
  | full hasBase index width indirection => cases indirection <;> rfl

theorem indexedAddress_of_full (base : Long) {m : Machine Ram} (h : m.nextWord.getLsbD 8 = true) :
    ∃ stream, (∀ call ∈ stream, call.IsStream) ∧
      indexedAddress base m =
        finishIndexed (m.indexTerms base).base (m.indexTerms base).inner (m.indexTerms base).index
          (.ofBits (m.nextWord.extractLsb' 0 3))
          (fetched m (2 + BitVec.ofNat 32 (displacementBytes (m.nextWord.extractLsb' 4 2)))
            stream) := by
  obtain ⟨inner, hInner, hRun⟩ :=
    fetchDisplacement_ram (m.nextWord.extractLsb' 4 2) (fetched m 2 [wordRead m])
  refine ⟨[wordRead m] ++ inner, ?_, ?_⟩
  · rw [List.forall_mem_append, List.forall_mem_singleton]
    exact ⟨trivial, hInner⟩
  have hParts : IndexWord.ofWord m.nextWord = .full (!m.nextWord.getLsbD 7)
      (if m.nextWord.getLsbD 6 then none else some (Index.ofWord m.nextWord))
      (.ofBits (m.nextWord.extractLsb' 4 2)) (.ofBits (m.nextWord.extractLsb' 0 3)) := by
    rw [IndexWord.ofWord, if_pos h]
  have hBase : (if !m.nextWord.getLsbD 7 then base else 0) = (m.indexTerms base).base := by
    rw [Machine.indexTerms]
    cases m.nextWord.getLsbD 7 <;> rfl
  have hIndex : ((if m.nextWord.getLsbD 6 then none
      else some (Index.ofWord m.nextWord)).map m.cpu.indexValue).getD 0 =
        (m.indexTerms base).index := by
    rw [Machine.indexTerms, ← indexValue_ofWord]
    cases m.nextWord.getLsbD 6 <;> rfl
  rw [indexedAddress_apply, hParts]
  dsimp only
  rw [bind_apply, hRun, hBase, hIndex, fetched_fetched]
  rfl

/-- The pointer is read after the outer displacement has been fetched. -/
theorem finishIndexed_ram (base inner index : Long) (bits : BitVec 3) (m : Machine Ram) :
    let outer := m.bus.memory.displacementAt m.cpu.pc (bits.extractLsb' 0 2)
    let a := if bits.getLsbD 2 then base + inner else base + inner + index
    let pointer := m.bus.memory.peekLong a
    ∃ stream, (∀ call ∈ stream, call.IsStream) ∧
      finishIndexed base inner index (.ofBits bits) m =
        (if bits = 0 then base + inner + index
          else if bits.getLsbD 2 then pointer + index + outer else pointer + outer,
        fetched m
          (BitVec.ofNat 32 (if bits = 0 then 0 else displacementBytes (bits.extractLsb' 0 2)))
          (stream ++ if bits = 0 then [] else [.read .pointer .long a pointer])) := by
  intro outer a pointer
  obtain ⟨stream, hStream, hRun⟩ := fetchDisplacement_ram (bits.extractLsb' 0 2) m
  rw [indirection_ofBits]
  by_cases hDirect : bits = 0
  · refine ⟨[], fun _ h => absurd h List.not_mem_nil, ?_⟩
    simp only [if_pos hDirect, List.append_nil]
    exact congrArg (Prod.mk _) (fetched_nothing m).symm
  · refine ⟨stream, hStream, ?_⟩
    simp only [if_neg hDirect]
    cases hPost : bits.getLsbD 2 with
    | true =>
      have ha : base + inner = a := (if_pos hPost).symm
      rw [if_pos rfl, if_pos rfl, finishIndexed, bind_apply, hRun, ha, bind_apply,
        readPointer_fetched]
      rfl
    | false =>
      have ha : base + inner + index = a := (if_neg (by rw [hPost]; exact Bool.false_ne_true)).symm
      rw [if_neg Bool.false_ne_true, if_neg Bool.false_ne_true, finishIndexed, bind_apply, hRun, ha,
        bind_apply, readPointer_fetched]
      rfl

/-- The bytes of a word in the full form: its own, its inner displacement, and the outer one where
there is a pointer. -/
theorem ofNat_indexBytes_of_full {word : Word} (h : word.getLsbD 8 = true) :
    BitVec.ofNat 32 (indexBytes word) =
      2 + BitVec.ofNat 32 (displacementBytes (word.extractLsb' 4 2)) + BitVec.ofNat 32
        (if word.extractLsb' 0 3 = 0 then 0 else displacementBytes (word.extractLsb' 0 2)) := by
  rw [indexBytes, if_pos h, BitVec.ofNat_add, BitVec.ofNat_add]
  rfl

theorem pointerReads_of_full {m : Machine Ram} (h : m.nextWord.getLsbD 8 = true) (base : Long) :
    m.pointerReads base = if m.nextWord.extractLsb' 0 3 = 0 then []
      else [.read .pointer .long (m.indexPointer base)
        (m.bus.memory.peekLong (m.indexPointer base))] := by
  rw [Machine.pointerReads, leadsThroughPointer, h, Bool.true_and]
  by_cases hDirect : m.nextWord.extractLsb' 0 3 = 0 <;> simp [hDirect]

/-- **An index word is resolved to its sum.**  What is read on the way are the words of the
instruction stream and then the pointer, and only the program counter moves. -/
theorem indexedAddress_ram (base : Long) (m : Machine Ram) :
    ∃ stream, (∀ call ∈ stream, call.IsStream) ∧ indexedAddress base m =
      (m.indexedPlace base, fetched m (BitVec.ofNat 32 (indexBytes m.nextWord))
        (stream ++ m.pointerReads base)) := by
  cases hForm : m.nextWord.getLsbD 8 with
  | false =>
    have hParts : IndexWord.ofWord m.nextWord =
        .brief (Index.ofWord m.nextWord) (m.nextWord.setWidth 8) := by
      rw [IndexWord.ofWord, hForm]
      rfl
    obtain ⟨hBytes, hPointer⟩ := indexBytes_of_brief hParts
    have hPlace : m.indexedPlace base = base + m.cpu.indexValue (Index.ofWord m.nextWord) +
        (m.nextWord.setWidth 8).signExtend 32 := by
      rw [Machine.indexedPlace, if_pos hForm, indexValue_ofWord]
    refine ⟨[wordRead m], List.forall_mem_singleton.mpr trivial, ?_⟩
    rw [indexedAddress_apply, hParts, hBytes, hPlace, Machine.pointerReads, hPointer]
    rfl
  | true =>
    obtain ⟨words, hWords, hRun⟩ := indexedAddress_of_full base hForm
    obtain ⟨outer, hOuter, hFinish⟩ := finishIndexed_ram (m.indexTerms base).base
      (m.indexTerms base).inner (m.indexTerms base).index (m.nextWord.extractLsb' 0 3)
      (fetched m (2 + BitVec.ofNat 32 (displacementBytes (m.nextWord.extractLsb' 4 2))) words)
    have hPost : (m.nextWord.extractLsb' 0 3).getLsbD 2 = m.nextWord.getLsbD 2 := by simp
    have hFull : ¬ m.nextWord.getLsbD 8 = false := by simp [hForm]
    have hPlace : m.indexedPlace base = _ := if_neg hFull
    refine ⟨words ++ outer, List.forall_mem_append.mpr ⟨hWords, hOuter⟩, ?_⟩
    rw [hRun, hFinish, outerWidth_bits, hPost, fetched_fetched, ofNat_indexBytes_of_full hForm,
      hPlace, pointerReads_of_full hForm, List.append_assoc]
    rfl

end Exec

/-! ### Different words for one sum -/

theorem Cpu.AgreeButPc.selectedIndex {cpu cpu' : Cpu} (h : cpu.AgreeButPc cpu')
    (selection : BitVec 7) : cpu'.selectedIndex selection = cpu.selectedIndex selection := by
  rw [h]
  rfl

theorem signExtend_byte (d : Byte) : (d.signExtend 16).signExtend 32 = d.signExtend 32 := by
  apply BitVec.eq_of_toInt_eq
  rw [BitVec.toInt_signExtend_of_le (by decide), BitVec.toInt_signExtend_of_le (by decide),
    BitVec.toInt_signExtend_of_le (by decide)]

/-- The fields of an index word in the brief form. -/
structure BriefForm (word : Word) (selection : BitVec 7) (displacement : Byte) : Prop where
  form : word.getLsbD 8 = false
  selection : word.extractLsb' 9 7 = selection
  displacement : word.setWidth 8 = displacement

/-- The fields of an index word in the full form: what selects the index, whether the base and the
index are left out, the width of the inner displacement, and the indirection. -/
structure FullForm (word : Word) (selection : BitVec 7) (noBase noIndex : Bool)
    (inner : BitVec 2) (indirection : BitVec 3) : Prop where
  form : word.getLsbD 8 = true
  selection : word.extractLsb' 9 7 = selection
  noBase : word.getLsbD 7 = noBase
  noIndex : word.getLsbD 6 = noIndex
  inner : word.extractLsb' 4 2 = inner
  indirection : word.extractLsb' 0 3 = indirection

namespace Machine

variable {m : Machine Ram} {selection : BitVec 7} {noBase noIndex : Bool} {inner : BitVec 2}
  {indirection : BitVec 3}

theorem indexedPlace_of_brief {d : Byte} (h : BriefForm m.nextWord selection d) (base : Long) :
    m.indexedPlace base = base + m.cpu.selectedIndex selection + d.signExtend 32 ∧
      indexBytes m.nextWord = 2 := by
  have hBrief : ¬ m.nextWord.getLsbD 8 = true := Bool.eq_false_iff.mp h.form
  rw [indexedPlace, if_pos h.form, h.selection, h.displacement, indexBytes, if_neg hBrief]
  exact ⟨rfl, rfl⟩

/-- Without a pointer the place is the sum of three terms. -/
theorem indexedPlace_of_direct (h : FullForm m.nextWord selection noBase noIndex inner 0)
    (base : Long) :
    m.indexedPlace base = (if noBase then 0 else base) +
        m.bus.memory.displacementAt (m.cpu.pc + 2) inner +
        (if noIndex then 0 else m.cpu.selectedIndex selection) ∧
      indexBytes m.nextWord = 2 + displacementBytes inner := by
  have hFull : ¬ m.nextWord.getLsbD 8 = false := by simp [h.form]
  rw [indexedPlace, if_neg hFull, if_pos h.indirection, indexTerms, h.noBase, h.noIndex, h.inner,
    h.selection, indexBytes, if_pos h.form, if_pos h.indirection, h.inner]
  exact ⟨rfl, rfl⟩

/-- Without an index the pointer and the place do not depend on where the index would go. -/
theorem indexedPlace_of_noIndex (h : FullForm m.nextWord selection noBase true inner indirection)
    (hPointer : indirection ≠ 0) (base : Long) :
    let a := (if noBase then 0 else base) + (m.indexTerms base).inner
    m.indexedPlace base = m.bus.memory.peekLong a + (m.indexTerms base).outer ∧
      m.pointerReads base = [.read .pointer .long a (m.bus.memory.peekLong a)] := by
  have hFull : ¬ m.nextWord.getLsbD 8 = false := by simp [h.form]
  have hDirect : ¬ m.nextWord.extractLsb' 0 3 = 0 := by rwa [h.indirection]
  have hZero (b : Long) : b + 0 = b := BitVec.add_zero b
  have hBase : (m.indexTerms base).base = if noBase then 0 else base := by
    rw [indexTerms, h.noBase]
  have hIndex : (m.indexTerms base).index = 0 := by
    rw [indexTerms, h.noIndex, if_pos rfl]
  have hAddress : m.indexPointer base =
      (if noBase then 0 else base) + (m.indexTerms base).inner := by
    rw [indexPointer, hBase, hIndex, hZero, ite_self]
  have hLeads : leadsThroughPointer m.nextWord = true := by
    rw [leadsThroughPointer, h.form, h.indirection, Bool.true_and]
    exact bne_iff_ne.mpr hPointer
  intro a
  rw [indexedPlace, if_neg hFull, if_neg hDirect, hIndex, hZero, ite_self, pointerReads,
    if_pos hLeads, hAddress]
  exact ⟨rfl, rfl⟩

/-- **A brief word agrees with the full words that hold its displacement.** -/
theorem indexedPlace_of_sameDisplacement {brief full : Machine Ram} {d : Byte}
    (hBrief : BriefForm brief.nextWord selection d)
    (hFull : FullForm full.nextWord selection false false inner 0)
    (hCpu : brief.cpu.AgreeButPc full.cpu)
    (hDisplacement : full.bus.memory.displacementAt (full.cpu.pc + 2) inner = d.signExtend 32)
    (base : Long) : full.indexedPlace base = brief.indexedPlace base := by
  rw [(indexedPlace_of_brief hBrief base).1, (indexedPlace_of_direct hFull base).1, hDisplacement,
    hCpu.selectedIndex]
  calc base + d.signExtend 32 + brief.cpu.selectedIndex selection
      = base + (d.signExtend 32 + brief.cpu.selectedIndex selection) := BitVec.add_assoc ..
    _ = base + (brief.cpu.selectedIndex selection + d.signExtend 32) := by
        rw [BitVec.add_comm (d.signExtend 32)]
    _ = base + brief.cpu.selectedIndex selection + d.signExtend 32 := (BitVec.add_assoc ..).symm

/-- **Without an index it does not matter on which side of the pointer it would go.** -/
theorem exists_pointer_of_noIndex {before after : Machine Ram} {selection' : BitVec 7}
    {inner' : BitVec 2} {indirection' : BitVec 3} {base : Long}
    (hBefore : FullForm before.nextWord selection noBase true inner indirection)
    (hAfter : FullForm after.nextWord selection' noBase true inner' indirection')
    (hPointer : indirection ≠ 0) (hPointer' : indirection' ≠ 0)
    (hInner : (before.indexTerms base).inner = (after.indexTerms base).inner)
    (hOuter : (before.indexTerms base).outer = (after.indexTerms base).outer) :
    ∃ a, (∀ m ∈ [before, after],
        m.pointerReads base = [.read .pointer .long a (m.bus.memory.peekLong a)]) ∧
      (before.bus.memory.peekLong a = after.bus.memory.peekLong a →
        after.indexedPlace base = before.indexedPlace base) := by
  obtain ⟨hPlace, hReads⟩ := indexedPlace_of_noIndex hBefore hPointer base
  obtain ⟨hPlace', hReads'⟩ := indexedPlace_of_noIndex hAfter hPointer' base
  rw [← hInner] at hPlace' hReads'
  refine ⟨(if noBase then 0 else base) + (before.indexTerms base).inner, ?_, fun hSame => ?_⟩
  · rw [List.forall_mem_cons, List.forall_mem_singleton]
    exact ⟨hReads, hReads'⟩
  · rw [hPlace, hPlace', hSame, hOuter]

end Machine

/-! ### The modes with an index word -/

/-- What a mode with an index word adds to. -/
def Mode.indexBase? (cpu : Cpu) : Mode → Option Long
  | .indexed n => some (cpu.a.get n)
  | .relativeIndexed => some cpu.pc
  | _ => none

/-- Between two machines the instruction stream was read, and then there were these calls. -/
def Machine.ReadsThen (m m' : Machine Ram) (calls : List BusCall) : Prop :=
  ∃ stream, (∀ call ∈ stream, call.IsStream) ∧ m'.callsSince m = stream ++ calls

namespace Exec

/-- **A mode with an index word leads to the sum that the word stands for.** -/
theorem leadsTo_indexedPlace {m : Machine Ram} {mode : Mode} {base : Long}
    (hBase : mode.indexBase? m.cpu = some base) (size : Size) :
    m.LeadsTo mode size (m.indexedPlace base) ∧
      m.cpuThrough mode size = m.cpu.advance (BitVec.ofNat 32 (indexBytes m.nextWord)) ∧
      m.ReadsThen (locate mode size m).2 (m.pointerReads base) := by
  obtain ⟨stream, hStream, hRun⟩ := indexedAddress_ram base m
  have hLocate : locate mode size m =
        (.memory (indexedAddress base m).1, (indexedAddress base m).2) ∧
      m.cpuThrough mode size = m.cpu.advance (BitVec.ofNat 32 (indexBytes m.nextWord)) := by
    cases mode with
    | indexed n =>
      obtain rfl := Option.some.inj hBase
      exact ⟨rfl, rfl⟩
    | relativeIndexed =>
      obtain rfl := Option.some.inj hBase
      exact ⟨rfl, rfl⟩
    | _ => cases hBase
  rw [hRun] at hLocate
  refine ⟨Machine.leadsTo_of_place (by rw [hLocate.1]), hLocate.2, stream, hStream, ?_⟩
  rw [hLocate.1]
  exact Machine.callsSince_eq rfl

theorem leadsTo_sum {m : Machine Ram} {mode : Mode} {base a : Long} {n : Nat}
    (hBase : mode.indexBase? m.cpu = some base) (size : Size) (hPlace : m.indexedPlace base = a)
    (hBytes : indexBytes m.nextWord = n) :
    m.LeadsTo mode size a ∧ m.cpuThrough mode size = m.cpu.advance (BitVec.ofNat 32 n) := by
  obtain ⟨hLeads, hCpu, -⟩ := leadsTo_indexedPlace hBase size
  rw [hPlace] at hLeads
  rw [hBytes] at hCpu
  exact ⟨hLeads, hCpu⟩

/-- **Index words are resolved as they are defined, and different words for one sum agree.**

Every index word leads to its sum, through a pointer in the two forms that have one.  A brief word
agrees with the full words that hold its displacement as a word and as a long.  And where the index
is left out, it does not matter whether it would come before the pointer or after it. -/
theorem index_words_resolve :
    (∀ (m : Machine Ram) (mode : Mode) (base : Long), mode.indexBase? m.cpu = some base →
      ∀ size, m.LeadsTo mode size (m.indexedPlace base) ∧
        m.cpuThrough mode size = m.cpu.advance (BitVec.ofNat 32 (indexBytes m.nextWord)) ∧
        m.ReadsThen (locate mode size m).2 (m.pointerReads base)) ∧
    (∀ (brief word long : Machine Ram) (mode : Mode) (base : Long) (selection : BitVec 7)
        (d : Byte),
      (∀ m ∈ [brief, word, long], mode.indexBase? m.cpu = some base) →
      brief.cpu.AgreeButPc word.cpu → brief.cpu.AgreeButPc long.cpu →
      BriefForm brief.nextWord selection d →
      FullForm word.nextWord selection false false 2 0 →
      word.bus.memory.peekWord (word.cpu.pc + 2) = d.signExtend 16 →
      FullForm long.nextWord selection false false 3 0 →
      long.bus.memory.peekLong (long.cpu.pc + 2) = d.signExtend 32 →
      ∀ size, ∃ a,
        (brief.LeadsTo mode size a ∧ brief.cpuThrough mode size = brief.cpu.advance 2) ∧
        (word.LeadsTo mode size a ∧ word.cpuThrough mode size = word.cpu.advance 4) ∧
        long.LeadsTo mode size a ∧ long.cpuThrough mode size = long.cpu.advance 6) ∧
    (∀ (before after : Machine Ram) (mode : Mode) (base : Long)
        (selection selection' : BitVec 7) (noBase : Bool) (inner inner' outer outer' : BitVec 2),
      (∀ m ∈ [before, after], mode.indexBase? m.cpu = some base) →
      FullForm before.nextWord selection noBase true inner (0#1 ++ outer) → outer ≠ 0 →
      FullForm after.nextWord selection' noBase true inner' (1#1 ++ outer') →
      (before.indexTerms base).inner = (after.indexTerms base).inner →
      (before.indexTerms base).outer = (after.indexTerms base).outer →
      ∀ size, ∃ pointer,
        (∀ m ∈ [before, after], m.ReadsThen (locate mode size m).2
          [.read .pointer .long pointer (m.bus.memory.peekLong pointer)]) ∧
        (before.bus.memory.peekLong pointer = after.bus.memory.peekLong pointer →
          ∃ a, before.LeadsTo mode size a ∧ after.LeadsTo mode size a)) := by
  refine ⟨fun m mode base hBase size => leadsTo_indexedPlace hBase size, ?_, ?_⟩
  · intro brief word long mode base selection d hBases hWordCpu hLongCpu hBrief hWord hWordD hLong
      hLongD size
    simp only [List.mem_cons, List.not_mem_nil, or_false, forall_eq_or_imp, forall_eq] at hBases
    have hWordIs : word.bus.memory.displacementAt (word.cpu.pc + 2) 2 = d.signExtend 32 := by
      rw [Memory.displacementAt, if_pos rfl, hWordD, signExtend_byte]
    have hLongIs : long.bus.memory.displacementAt (long.cpu.pc + 2) 3 = d.signExtend 32 := hLongD
    have hWordPlace := Machine.indexedPlace_of_sameDisplacement hBrief hWord hWordCpu hWordIs base
    have hLongPlace := Machine.indexedPlace_of_sameDisplacement hBrief hLong hLongCpu hLongIs base
    exact ⟨brief.indexedPlace base,
      leadsTo_sum hBases.1 size rfl (Machine.indexedPlace_of_brief hBrief base).2,
      leadsTo_sum hBases.2.1 size hWordPlace (Machine.indexedPlace_of_direct hWord base).2,
      leadsTo_sum hBases.2.2 size hLongPlace (Machine.indexedPlace_of_direct hLong base).2⟩
  · intro before after mode base selection selection' noBase inner inner' outer outer' hBases
      hBefore hOuter hAfter hInner hSame size
    have hLeads : ∀ outer : BitVec 2, outer ≠ 0 → (0#1 ++ outer) ≠ 0 := by decide
    have hLeads' : ∀ outer : BitVec 2, (1#1 ++ outer) ≠ 0 := by decide
    obtain ⟨pointer, hReads, hPlace⟩ := Machine.exists_pointer_of_noIndex hBefore hAfter
      (hLeads outer hOuter) (hLeads' outer') hInner hSame
    refine ⟨pointer, fun m hm => ?_, fun hPointer => ⟨before.indexedPlace base, ?_, ?_⟩⟩
    · rw [← hReads m hm]
      exact (leadsTo_indexedPlace (hBases m hm) size).2.2
    · exact (leadsTo_indexedPlace (hBases before (List.mem_cons_self ..)) size).1
    · rw [← hPlace hPointer]
      have hMem : after ∈ [before, after] := List.mem_cons_of_mem _ (List.mem_cons_self ..)
      exact (leadsTo_indexedPlace (hBases after hMem) size).1

/-- About to follow an index word with A0 as the base, D1 as an index and a pointer above A0. -/
def indexing (words : List Word) : Machine Ram :=
  let m := Machine.begun 0xF230 words
  { m with
    cpu := (m.cpu.setA 0 0x2000).setD 1 0x20
    bus := m.bus.modify (·.pokeLong 0x2010 0x3000) }

/-- Four times D1 less four in three ways, and a pointer that has no index in two. -/
theorem index_words_resolve_scaled :
    (∀ words ∈ [[0x1CFC], [0x1D20, 0xFFFC], [0x1D30, 0xFFFF, 0xFFFC]],
      (indexing words).LeadsTo (.indexed 0) .long 0x207C) ∧
    ∀ words ∈ [[0x0162, 0x0010, 0x0004], [0x0166, 0x0010, 0x0004]],
      (indexing words).LeadsTo (.indexed 0) .long 0x3004 := by
  obtain ⟨-, hForms, hPointers⟩ := index_words_resolve
  obtain ⟨a, ⟨hBrief, -⟩, ⟨hWord, -⟩, hLong, -⟩ :=
    hForms (indexing [0x1CFC]) (indexing [0x1D20, 0xFFFC]) (indexing [0x1D30, 0xFFFF, 0xFFFC])
      (.indexed 0) 0x2000 0b0001110 0xFC (by decide) rfl rfl ⟨by decide, by decide, by decide⟩
      ⟨by decide, by decide, by decide, by decide, by decide, by decide⟩ (by decide)
      ⟨by decide, by decide, by decide, by decide, by decide, by decide⟩ (by decide) .long
  obtain ⟨pointer, hReads, hSame⟩ :=
    hPointers (indexing [0x0162, 0x0010, 0x0004]) (indexing [0x0166, 0x0010, 0x0004])
      (.indexed 0) 0x2000 0 0 false 2 2 2 2 (by decide)
      ⟨by decide, by decide, by decide, by decide, by decide, by decide⟩ (by decide)
      ⟨by decide, by decide, by decide, by decide, by decide, by decide⟩ (by decide) (by decide)
      .long
  obtain rfl : a = 0x207C :=
    Place.memory.inj (hBrief.place.symm.trans (by decide : (locate _ _ _).1 = .memory 0x207C))
  have hPointer : pointer = 0x2010 := by
    obtain ⟨stream, -, hThen⟩ := hReads _ (List.mem_cons_self ..)
    have hCalls : (locate (.indexed 0) .long (indexing [0x0162, 0x0010, 0x0004])).2.callsSince
        (indexing [0x0162, 0x0010, 0x0004]) =
        [.read .stream .word 0x1002 0x0162, .read .stream .word 0x1004 0x10,
          .read .stream .word 0x1006 0x04, .read .pointer .long 0x2010 0x3000] := by decide
    have hLast := congrArg List.getLast? (hThen.symm.trans hCalls)
    rw [List.getLast?_concat] at hLast
    exact (BusCall.read.inj (Option.some.inj hLast)).2.2.1
  obtain ⟨b, hBefore, hAfter⟩ := hSame (by rw [hPointer]; decide)
  obtain rfl : b = 0x3004 :=
    Place.memory.inj (hBefore.place.symm.trans (by decide : (locate _ _ _).1 = .memory 0x3004))
  simp only [List.mem_cons, List.not_mem_nil, or_false, forall_eq_or_imp, forall_eq]
  exact ⟨⟨hBrief, hWord, hLong⟩, hBefore, hAfter⟩

end Exec

end M68kFloat
