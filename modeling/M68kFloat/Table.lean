/-!
# Tables indexed by a fixed number of bits

`Table α n` holds one `α` for every `n`-bit index.  It is a perfect binary tree
of depth `n`, whose left half answers the indices with a clear top bit and whose
right half the others, so reading and replacing an entry take `n` steps and a
table that holds one value everywhere shares all its halves.

Three facts are all that is needed about it: `get_fill` and `get_set` say what an
entry is, and `Table.ext` says that a table is its entries.
-/

namespace M68kFloat

/-- One value for every `n`-bit index. -/
inductive Table (α : Type) : Nat → Type
  | leaf (entry : α) : Table α 0
  | node {n : Nat} (low high : Table α n) : Table α (n + 1)

namespace Table

variable {α : Type}

/-- The table that holds `a` at every index. -/
def fill (a : α) : (n : Nat) → Table α n
  | 0 => .leaf a
  | n + 1 =>
    let half := fill a n
    .node half half

def get : {n : Nat} → Table α n → BitVec n → α
  | _, .leaf a, _ => a
  | n + 1, .node low high, i =>
    if i.msb then high.get (i.setWidth n) else low.get (i.setWidth n)

def set : {n : Nat} → Table α n → BitVec n → α → Table α n
  | _, .leaf _, _, a => .leaf a
  | n + 1, .node low high, i, a =>
    if i.msb then .node low (high.set (i.setWidth n) a)
    else .node (low.set (i.setWidth n) a) high

def toList : {n : Nat} → Table α n → List α
  | _, .leaf a => [a]
  | _, .node low high => low.toList ++ high.toList

/-- An index is its top bit and the rest. -/
theorem index_eq_iff {n : Nat} (i j : BitVec (n + 1)) :
    i = j ↔ i.msb = j.msb ∧ i.setWidth n = j.setWidth n := by
  constructor
  · rintro rfl
    exact ⟨rfl, rfl⟩
  · rintro ⟨hTop, hRest⟩
    apply BitVec.eq_of_getLsbD_eq
    intro k hk
    by_cases h : k < n
    · have := congrArg (fun v => v.getLsbD k) hRest
      simpa [BitVec.getLsbD_setWidth, h] using this
    · have hkn : k = n := by omega
      subst hkn
      simpa [BitVec.msb_eq_getLsbD_last] using hTop

@[simp] theorem get_fill (a : α) : ∀ (n : Nat) (i : BitVec n), (fill a n).get i = a
  | 0, _ => rfl
  | n + 1, i => by
    simp only [fill, get]
    split <;> exact get_fill a n _

/-- Only the entry at the given index is replaced. -/
theorem get_set : ∀ {n : Nat} (t : Table α n) (i j : BitVec n) (a : α),
    (t.set i a).get j = if j = i then a else t.get j
  | _, .leaf _, i, j, a => by
    have : j = i := Subsingleton.elim _ _
    simp [set, get, this]
  | n + 1, .node low high, i, j, a => by
    simp only [index_eq_iff j i]
    cases hi : i.msb <;> cases hj : j.msb <;>
      simp [set, get, hi, hj, get_set low, get_set high]

@[simp] theorem get_set_self {n : Nat} (t : Table α n) (i : BitVec n) (a : α) :
    (t.set i a).get i = a := by
  rw [get_set, if_pos rfl]

theorem get_set_ne {n : Nat} (t : Table α n) {i j : BitVec n} (a : α) (h : j ≠ i) :
    (t.set i a).get j = t.get j := by
  rw [get_set, if_neg h]

/-- A table is its entries. -/
@[ext] theorem ext : ∀ {n : Nat} {s t : Table α n}, (∀ i, s.get i = t.get i) → s = t
  | _, .leaf a, .leaf b, h => by
    have := h 0#0
    simp only [get] at this
    rw [this]
  | n + 1, .node low high, .node low' high', h => by
    have hLow : low = low' := ext fun i => by
      have := h (i.setWidth (n + 1))
      have hTop : (i.setWidth (n + 1)).msb = false := by
        simp [BitVec.msb_eq_getLsbD_last]
      simpa [get, hTop] using this
    have hHigh : high = high' := ext fun i => by
      have hTop : (BitVec.cons true i).msb = true := by simp
      have := h (BitVec.cons true i)
      simp only [get, hTop, if_true] at this
      have hRest : (BitVec.cons true i).setWidth n = i := BitVec.setWidth_cons
      rwa [hRest] at this
    rw [hLow, hHigh]

/-- The last of two replacements of an entry stays. -/
@[simp] theorem set_set {n : Nat} (t : Table α n) (i : BitVec n) (a b : α) :
    (t.set i a).set i b = t.set i b := by
  ext j
  by_cases h : j = i
  · subst h
    rw [get_set_self, get_set_self]
  · rw [get_set_ne _ _ h, get_set_ne _ _ h, get_set_ne _ _ h]

@[simp] theorem set_get_self {n : Nat} (t : Table α n) (i : BitVec n) : t.set i (t.get i) = t := by
  ext j
  by_cases h : j = i
  · subst h
    rw [get_set_self]
  · rw [get_set_ne _ _ h]

end Table

end M68kFloat
