import PartialEntity.Proofs.FieldSet

/-!
# Sets of fields over any store of bits

A set of fields can be kept in any store that tells members from others and lists its members in
ascending order.  A store may hold the same members in more than one way: the room that a member
once took can stay when the member goes.  Nothing that is asked of a store depends on that, so that
every store answers like the set of fields that it holds.
-/

namespace PartialEntity

/-- A store of numbers, described by what it contains.  Two of its values may contain the same and
yet be different. -/
structure BitStore where
  /-- What is stored. -/
  Bits : Type
  /-- Nothing is stored yet. -/
  new : Bits
  /-- Whether a number is a member. -/
  contains : Bits → Nat → Bool
  /-- Adds a number and tells whether it was new. -/
  insert : Bits → Nat → Bool × Bits
  /-- Takes a number away and tells whether it was there. -/
  remove : Bits → Nat → Bool × Bits
  /-- Takes everything away. -/
  clear : Bits → Bits
  union : Bits → Bits → Bits
  inter : Bits → Bits → Bits
  diff : Bits → Bits → Bits
  /-- The members, in ascending order. -/
  members : Bits → List Nat
  /-- How many members there are. -/
  size : Bits → Nat
  isEmpty : Bits → Bool
  isSubset : Bits → Bits → Bool
  -- What is relied on: membership is stored correctly, and every answer is about membership.
  contains_new : ∀ number, contains new number = false
  contains_insert : ∀ bits number other,
    contains (insert bits number).2 other = (contains bits other || decide (number = other))
  insert_changes : ∀ bits number, (insert bits number).1 = !contains bits number
  contains_remove : ∀ bits number other,
    contains (remove bits number).2 other = (contains bits other && !decide (number = other))
  remove_changes : ∀ bits number, (remove bits number).1 = contains bits number
  contains_clear : ∀ bits number, contains (clear bits) number = false
  contains_union : ∀ left right number,
    contains (union left right) number = (contains left number || contains right number)
  contains_inter : ∀ left right number,
    contains (inter left right) number = (contains left number && contains right number)
  contains_diff : ∀ left right number,
    contains (diff left right) number = (contains left number && !contains right number)
  mem_members : ∀ bits number, number ∈ members bits ↔ contains bits number = true
  members_ascending : ∀ bits, (members bits).Pairwise (· < ·)
  size_eq : ∀ bits, size bits = (members bits).length
  isEmpty_iff : ∀ bits, isEmpty bits = true ↔ members bits = []
  isSubset_iff : ∀ left right, isSubset left right = true ↔
    ∀ number, contains left number = true → contains right number = true

/-- A tag of a kind: the place of one of its fields. -/
abbrev Tag {κ : Type} [Catalog κ] (kind : κ) := Fin (Catalog.size kind)

namespace BitStore

variable {κ : Type} [Catalog κ] (store : BitStore)

/-! ## Sets of fields in a store -/

def insertAll (bits : store.Bits) (numbers : List Nat) : store.Bits :=
  numbers.foldl (fun bits number => (store.insert bits number).2) bits

def removeAll (bits : store.Bits) (numbers : List Nat) : store.Bits :=
  numbers.foldl (fun bits number => (store.remove bits number).2) bits

/-- The tags of a kind among the members; numbers that are no tags are passed over. -/
def tags (kind : κ) (bits : store.Bits) : List (Tag kind) :=
  (store.members bits).filterMap fun number =>
    if h : number < Catalog.size kind then some ⟨number, h⟩ else none

def names (kind : κ) (bits : store.Bits) : List String :=
  (store.tags kind bits).map fun tag : Tag kind => Catalog.fieldName kind tag

/-- Sets of fields are compared by going through the members of both. -/
def same (left right : store.Bits) : Bool :=
  store.members left == store.members right

/-! ## Holding a set of fields -/

def Holds (bits : store.Bits) (set : FieldSet) : Prop :=
  ∀ number, store.contains bits number = set.contains number

namespace Holds

variable {store} {bits others : store.Bits} {set other : FieldSet}

theorem empty (h : ∀ number, store.contains bits number = false) : store.Holds bits ∅ :=
  fun number => (h number).trans (FieldSet.contains_empty number).symm

variable (h : store.Holds bits set)

include h

theorem insert (number : Nat) :
    store.Holds (store.insert bits number).2 (set.insertNew number).2 := by
  intro other
  rw [store.contains_insert, h]
  exact (FieldSet.contains_insert set number other).symm

theorem remove (number : Nat) :
    store.Holds (store.remove bits number).2 (set.eraseHeld number).2 := by
  intro other
  rw [store.contains_remove, h]
  exact (FieldSet.contains_erase set number other).symm

theorem insertAll (numbers : List Nat) :
    store.Holds (store.insertAll bits numbers) (set.insertAll numbers) := by
  induction numbers generalizing bits set with
  | nil => exact h
  | cons number rest ih => exact ih (h.insert number)

theorem removeAll (numbers : List Nat) :
    store.Holds (store.removeAll bits numbers) (numbers.foldl FieldSet.erase set) := by
  induction numbers generalizing bits set with
  | nil => exact h
  | cons number rest ih => exact ih (h.remove number)

/-- What is listed is what the set of fields lists. -/
theorem members_eq : store.members bits = set.toList := by
  refine (store.members_ascending bits).eq_of_mem_iff set.pairwise_toList fun number => ?_
  rw [store.mem_members, h, FieldSet.mem_toList]

theorem size_eq : store.size bits = set.size := by
  rw [store.size_eq, h.members_eq, FieldSet.size]

theorem isEmpty_eq : store.isEmpty bits = set.isEmpty := by
  rw [Bool.eq_iff_iff, store.isEmpty_iff, FieldSet.isEmpty_iff, List.eq_nil_iff_forall_not_mem]
  refine forall_congr' fun number => ?_
  rw [store.mem_members, h, Bool.not_eq_true]

/-- A store tells whether an insertion was new as the set of fields does. -/
theorem insert_changes (number : Nat) :
    (store.insert bits number).1 = (set.insertNew number).1 := by
  rw [store.insert_changes, h, FieldSet.insertNew]

theorem remove_changes (number : Nat) :
    (store.remove bits number).1 = (set.eraseHeld number).1 := by
  rw [store.remove_changes, h, FieldSet.eraseHeld]

variable (hother : store.Holds others other)

include hother

theorem union : store.Holds (store.union bits others) (set.union other) := by
  intro number
  rw [store.contains_union, h, hother, FieldSet.contains_union]

theorem inter : store.Holds (store.inter bits others) (set.inter other) := by
  intro number
  rw [store.contains_inter, h, hother, FieldSet.contains_inter]

theorem diff : store.Holds (store.diff bits others) (set.diff other) := by
  intro number
  rw [store.contains_diff, h, hother, FieldSet.contains_diff]

theorem isSubset_eq : store.isSubset bits others = set.isSubset other := by
  rw [Bool.eq_iff_iff, store.isSubset_iff, FieldSet.isSubset_iff]
  refine forall_congr' fun number => ?_
  rw [h, hother]

/-- Going through the members tells whether the sets of fields are equal, however they are held. -/
theorem same_eq : store.same bits others = (set == other) := by
  rw [Bool.eq_iff_iff, same, beq_iff_eq, beq_iff_eq, h.members_eq, hother.members_eq]
  constructor
  · intro hlists
    refine FieldSet.ext_contains fun number => ?_
    rw [Bool.eq_iff_iff, ← FieldSet.mem_toList, hlists, FieldSet.mem_toList]
  · exact fun hsets => hsets ▸ rfl

end Holds

/-! ## Rows of bits -/

namespace Row

/-- Whether the bit of a number is set; past its end a row has no bits set. -/
def contains (row : List Bool) (number : Nat) : Bool :=
  row.getD number false

def tabulate (length : Nat) (p : Nat → Bool) : List Bool :=
  (List.range length).map p

theorem lt_length_of_contains {row : List Bool} {number : Nat}
    (h : contains row number = true) : number < row.length := by
  by_contra hlength
  rw [contains, List.getD_eq_default _ _ (Nat.le_of_not_lt hlength)] at h
  cases h

theorem contains_tabulate {length : Nat} {p : Nat → Bool}
    (h : ∀ number, p number = true → number < length) (number : Nat) :
    contains (tabulate length p) number = p number := by
  by_cases hnumber : number < length
  · simp [contains, tabulate, hnumber]
  · have hp : p number = false := Bool.eq_false_iff.2 fun hp => hnumber (h number hp)
    simp [contains, tabulate, hnumber, hp]

/-- A row with one more bit set; it becomes longer if it has to. -/
def insert (row : List Bool) (number : Nat) : List Bool :=
  tabulate (max row.length (number + 1)) fun other => contains row other || decide (number = other)

/-- Combines two rows bit by bit, in a row as long as the longer one. -/
def combine (f : Bool → Bool → Bool) (left right : List Bool) : List Bool :=
  tabulate (max left.length right.length) fun number =>
    f (contains left number) (contains right number)

def members (row : List Bool) : List Nat :=
  (List.range row.length).filter (contains row)

theorem contains_insert (row : List Bool) (number other : Nat) :
    contains (insert row number) other = (contains row other || decide (number = other)) := by
  refine contains_tabulate (fun place hplace => ?_) other
  rw [lt_max_iff]
  rcases Bool.or_eq_true_iff.1 hplace with hrow | hnew
  · exact .inl (lt_length_of_contains hrow)
  · exact .inr (of_decide_eq_true hnew ▸ Nat.lt_succ_self number)

/-- Rows are combined bit by bit, also past the end of the shorter one. -/
theorem contains_combine {f : Bool → Bool → Bool} (h : f false false = false)
    (left right : List Bool) (number : Nat) :
    contains (combine f left right) number = f (contains left number) (contains right number) := by
  refine contains_tabulate (fun place hplace => ?_) number
  rw [lt_max_iff]
  by_contra hlength
  rw [not_or] at hlength
  rw [Bool.eq_false_iff.2 fun hleft => hlength.1 (lt_length_of_contains hleft),
    Bool.eq_false_iff.2 fun hright => hlength.2 (lt_length_of_contains hright), h] at hplace
  cases hplace

theorem contains_set (row : List Bool) (number other : Nat) :
    contains (row.set number false) other = (contains row other && !decide (number = other)) := by
  by_cases hnumber : number = other
  · by_cases hlength : number < row.length <;> simp_all [contains]
  · simp [contains, hnumber]

theorem contains_replicate (row : List Bool) (number : Nat) :
    contains (List.replicate row.length false) number = false := by
  rw [contains, List.getD_eq_getElem?_getD, List.getElem?_getD_replicate_default_eq]

theorem mem_members (row : List Bool) (number : Nat) :
    number ∈ members row ↔ contains row number = true := by
  rw [members, List.mem_filter, List.mem_range]
  exact and_iff_right_of_imp lt_length_of_contains

theorem all_not_iff (row : List Bool) : (row.all fun bit => !bit) = true ↔ members row = [] := by
  rw [List.all_eq_true, List.eq_nil_iff_forall_not_mem]
  constructor
  · intro hbits number hmember
    rw [mem_members] at hmember
    have hlength := lt_length_of_contains hmember
    rw [contains, List.getD_eq_getElem _ _ hlength] at hmember
    simpa [hmember] using hbits _ (List.getElem_mem hlength)
  · intro hmembers bit hbit
    obtain ⟨number, hlength, rfl⟩ := List.getElem_of_mem hbit
    have hmember := hmembers number
    rw [mem_members, contains, List.getD_eq_getElem _ _ hlength] at hmember
    simpa using hmember

end Row

/-- Rows of bits as a store.  A row becomes longer when a member needs it, and never shorter. -/
def rows : BitStore where
  Bits := List Bool
  new := []
  contains := Row.contains
  insert row number := (!Row.contains row number, Row.insert row number)
  remove row number := (Row.contains row number, row.set number false)
  clear row := List.replicate row.length false
  union := Row.combine (· || ·)
  inter := Row.combine (· && ·)
  diff := Row.combine fun left right => left && !right
  members := Row.members
  size row := (Row.members row).length
  isEmpty row := row.all fun bit => !bit
  isSubset left right := (Row.members left).all (Row.contains right)
  contains_new _ := rfl
  contains_insert := Row.contains_insert
  insert_changes _ _ := rfl
  contains_remove := Row.contains_set
  remove_changes _ _ := rfl
  contains_clear := Row.contains_replicate
  contains_union := Row.contains_combine rfl
  contains_inter := Row.contains_combine rfl
  contains_diff := Row.contains_combine rfl
  mem_members := Row.mem_members
  members_ascending _ := List.Pairwise.filter _ List.pairwise_lt_range
  size_eq _ := rfl
  isEmpty_iff := Row.all_not_iff
  isSubset_iff left right := by
    rw [List.all_eq_true]
    exact forall_congr' fun number => by rw [Row.mem_members]

end BitStore

end PartialEntity
