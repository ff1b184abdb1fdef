import Mathlib
import PartialEntity.FieldSet

/-!
# Membership in sets of fields

A set of fields is known by the ordinals it contains.  Every operation is described by its members,
so that no later proof looks at the digits of the number behind a set.
-/

namespace PartialEntity.FieldSet

/-- Sets of fields with the same members are equal. -/
theorem ext_contains {left right : FieldSet}
    (h : ∀ field, left.contains field = right.contains field) : left = right := by
  cases left with
  | mk leftBits =>
    cases right with
    | mk rightBits =>
      congr 1
      exact Nat.eq_of_testBit_eq h

@[simp]
theorem contains_empty (field : Nat) : (∅ : FieldSet).contains field = false :=
  Nat.zero_testBit field

@[simp]
theorem contains_singleton (field other : Nat) :
    (singleton field).contains other = decide (field = other) := by
  simp [contains, singleton, Nat.one_shiftLeft, Nat.testBit_two_pow]

@[simp]
theorem contains_union (left right : FieldSet) (field : Nat) :
    (left.union right).contains field = (left.contains field || right.contains field) :=
  Nat.testBit_or ..

@[simp]
theorem contains_inter (left right : FieldSet) (field : Nat) :
    (left.inter right).contains field = (left.contains field && right.contains field) :=
  Nat.testBit_and ..

@[simp]
theorem contains_diff (left right : FieldSet) (field : Nat) :
    (left.diff right).contains field = (left.contains field && !right.contains field) := by
  simp only [contains, diff, Nat.testBit_xor, Nat.testBit_and]
  cases left.bits.testBit field <;> cases right.bits.testBit field <;> rfl

@[simp]
theorem contains_insert (set : FieldSet) (field other : Nat) :
    (set.insert field).contains other = (set.contains other || decide (field = other)) := by
  simp [insert]

theorem contains_erase (set : FieldSet) (field other : Nat) :
    (set.erase field).contains other = (set.contains other && !decide (field = other)) := by
  simp [erase]

theorem contains_insertAll (set : FieldSet) (fields : List Nat) (field : Nat) :
    (set.insertAll fields).contains field = (set.contains field || decide (field ∈ fields)) := by
  induction fields generalizing set with
  | nil => simp [insertAll]
  | cons first rest ih =>
    have hstep : set.insertAll (first :: rest) = (set.insert first).insertAll rest := rfl
    rw [hstep, ih, contains_insert]
    by_cases hfirst : first = field
    · simp [hfirst]
    · simp [hfirst, Ne.symm hfirst]

@[simp]
theorem contains_ofList (fields : List Nat) (field : Nat) :
    (ofList fields).contains field = decide (field ∈ fields) := by
  have h := contains_insertAll empty fields field
  have hempty : empty.contains field = false := contains_empty field
  rw [hempty, Bool.false_or] at h
  exact h

theorem contains_eraseAll (set : FieldSet) (fields : List Nat) (field : Nat) :
    (fields.foldl erase set).contains field = (set.contains field && !decide (field ∈ fields)) := by
  induction fields generalizing set with
  | nil => simp
  | cons first rest ih =>
    rw [List.foldl_cons, ih, contains_erase]
    by_cases hfirst : first = field
    · simp [hfirst]
    · simp [hfirst, Ne.symm hfirst]

section Kinds

variable {κ : Type} [Catalog κ]

theorem contains_all (kind : κ) (field : Nat) :
    (all kind).contains field = decide (field < Catalog.size kind) := by
  simp [all]

theorem contains_complementOf (kind : κ) (fields : List Nat) (field : Nat) :
    (complementOf kind fields).contains field =
      (decide (field < Catalog.size kind) && !decide (field ∈ fields)) := by
  rw [complementOf, contains_eraseAll, contains_all]

end Kinds

theorem le_log2_of_contains {set : FieldSet} {field : Nat} (h : set.contains field = true) :
    field ≤ set.bits.log2 := by
  have hle : 2 ^ field ≤ set.bits := Nat.ge_two_pow_of_testBit h
  have hne : set.bits ≠ 0 := by
    have := Nat.two_pow_pos field
    omega
  exact (Nat.le_log2 hne).2 hle

@[simp]
theorem mem_toList {set : FieldSet} {field : Nat} :
    field ∈ set.toList ↔ set.contains field = true := by
  simp only [toList, List.mem_filter, List.mem_range]
  constructor
  · exact fun h => h.2
  · intro h
    exact ⟨Nat.lt_succ_of_le (le_log2_of_contains h), h⟩

theorem nodup_toList (set : FieldSet) : set.toList.Nodup :=
  List.Nodup.filter _ List.nodup_range

theorem pairwise_toList (set : FieldSet) : set.toList.Pairwise (· < ·) :=
  List.Pairwise.filter _ List.pairwise_lt_range

def keep (set : FieldSet) (p : Nat → Bool) : FieldSet :=
  ofList (set.toList.filter p)

@[simp]
theorem contains_keep (set : FieldSet) (p : Nat → Bool) (field : Nat) :
    (set.keep p).contains field = (set.contains field && p field) := by
  rw [Bool.eq_iff_iff, keep, contains_ofList, decide_eq_true_iff, List.mem_filter, mem_toList,
    Bool.and_eq_true]

/-- The members below one of them are those that come before it. -/
theorem toList_keep_lt {set : FieldSet} {done rest : List Nat} {field : Nat}
    (h : set.toList = done ++ field :: rest) : (set.keep (· < field)).toList = done := by
  have hsorted := set.pairwise_toList
  rw [h, List.pairwise_append] at hsorted
  obtain ⟨hdone, hrest, hbelow⟩ := hsorted
  refine (pairwise_toList _).eq_of_mem_iff hdone fun other => ?_
  rw [mem_toList, contains_keep, Bool.and_eq_true, ← mem_toList, h, decide_eq_true_iff,
    List.mem_append]
  constructor
  · rintro ⟨hmem | hmem, hlt⟩
    · exact hmem
    · rcases List.mem_cons.1 hmem with rfl | hmem
      · exact absurd hlt (Nat.lt_irrefl other)
      · exact absurd hlt (Nat.lt_asymm (List.rel_of_pairwise_cons hrest hmem))
  · exact fun hmem => ⟨.inl hmem, hbelow other hmem field (List.mem_cons_self ..)⟩

theorem isEmpty_iff {set : FieldSet} :
    set.isEmpty = true ↔ ∀ field, set.contains field = false := by
  constructor
  · intro h field
    have hbits : set.bits = 0 := by simpa [isEmpty] using h
    rw [contains, hbits, Nat.zero_testBit]
  · intro h
    have hset : set = ∅ := ext_contains fun field => by rw [h, contains_empty]
    rw [hset]
    rfl

theorem isEmpty_eq_false_iff {set : FieldSet} :
    set.isEmpty = false ↔ ∃ field, set.contains field = true := by
  rw [← Bool.not_eq_true, isEmpty_iff, not_forall]
  simp only [Bool.not_eq_false]

theorem isSubset_iff {left right : FieldSet} :
    left.isSubset right = true ↔
      ∀ field, left.contains field = true → right.contains field = true := by
  rw [isSubset, isEmpty_iff]
  constructor
  · intro h field hleft
    have := h field
    rw [contains_diff, hleft] at this
    simpa using this
  · intro h field
    rw [contains_diff]
    cases hleft : left.contains field with
    | false => rfl
    | true => rw [h field hleft]; rfl

end PartialEntity.FieldSet
