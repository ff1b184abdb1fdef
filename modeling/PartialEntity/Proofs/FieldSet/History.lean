import PartialEntity.Harbor.Kinds
import PartialEntity.Proofs.FieldSet.Store

/-!
# Sets of fields are finite sets of tags

Whatever operations a set of fields came from, it stands for the finite set of tags that the same
operations make of finite sets, and everything that can be asked of it is answered from that set.

The same history can be gone through in any store of bits.  What the store is left with holds the
same set of fields, although it may still have the room of members that are gone.
-/

namespace PartialEntity

variable {κ : Type} [Catalog κ] {kind : κ}

namespace FieldSet

/-! ## Standing for a set of tags -/

/-- Whether a set of fields has exactly the given tags as members. -/
def Represents (set : FieldSet) (tags : Finset (Tag kind)) : Prop :=
  ∀ field, set.contains field = true ↔ field ∈ tags.map Fin.valEmbedding

section Representing

variable {set other : FieldSet} {tags others : Finset (Tag kind)}

theorem represents_empty : Represents ∅ (∅ : Finset (Tag kind)) := by
  intro field
  simp

theorem represents_all : Represents (all kind) (Finset.univ : Finset (Tag kind)) := by
  intro field
  rw [contains_all, decide_eq_true_iff, Finset.mem_map]
  exact ⟨fun h => ⟨⟨field, h⟩, Finset.mem_univ _, rfl⟩, fun ⟨tag, _, heq⟩ => heq ▸ tag.isLt⟩

theorem represents_complementOf (listed : List (Tag kind)) :
    Represents (complementOf kind (listed.map Fin.val)) (Finset.univ \ listed.toFinset) := by
  intro field
  rw [contains_complementOf, Finset.mem_map]
  constructor
  · intro h
    rw [Bool.and_eq_true, decide_eq_true_iff, Bool.not_eq_true', decide_eq_false_iff_not] at h
    refine ⟨⟨field, h.1⟩, ?_, rfl⟩
    simpa using fun hlisted => h.2 (List.mem_map_of_mem hlisted)
  · rintro ⟨tag, htag, rfl⟩
    simpa [Fin.val_inj] using htag

section Steps

variable (h : set.Represents tags) (hother : other.Represents others)

include h

theorem Represents.insert (tag : Tag kind) :
    (set.insert tag).Represents (Insert.insert tag tags) := by
  intro field
  rw [contains_insert, Bool.or_eq_true, h field, decide_eq_true_iff, Finset.map_insert,
    Finset.mem_insert, or_comm, eq_comm]
  rfl

theorem Represents.erase (tag : Tag kind) : (set.erase tag).Represents (tags.erase tag) := by
  intro field
  rw [contains_erase, Bool.and_eq_true, h field, Bool.not_eq_true', decide_eq_false_iff_not,
    Finset.map_erase, Finset.mem_erase, and_comm, ne_comm]
  rfl

theorem Represents.insertAll (listed : List (Tag kind)) :
    (set.insertAll (listed.map Fin.val)).Represents (tags ∪ listed.toFinset) := by
  intro field
  rw [contains_insertAll, Bool.or_eq_true, h field, decide_eq_true_iff, Finset.map_union,
    Finset.mem_union]
  simp

include hother

theorem Represents.union : (set.union other).Represents (tags ∪ others) := by
  intro field
  rw [contains_union, Bool.or_eq_true, h field, hother field, Finset.map_union, Finset.mem_union]

theorem Represents.inter : (set.inter other).Represents (tags ∩ others) := by
  intro field
  rw [contains_inter, Bool.and_eq_true, h field, hother field, Finset.map_inter, Finset.mem_inter]

theorem Represents.diff : (set.diff other).Represents (tags \ others) := by
  intro field
  rw [contains_diff, Bool.and_eq_true, h field, Bool.not_eq_true', ← Bool.not_eq_true,
    hother field, Finset.map_sdiff, Finset.mem_sdiff]

end Steps

/-! ## Answers -/

namespace Represents

theorem contains_iff (h : set.Represents tags) (tag : Tag kind) :
    set.contains tag = true ↔ tag ∈ tags := by
  rw [h, Fin.valEmbedding_apply.symm, Finset.mem_map']

/-- The listed members are the tags in ascending order. -/
theorem toList_eq (h : set.Represents tags) :
    set.toList = (tags.sort (· ≤ ·)).map Fin.val := by
  have hsorted : ((tags.sort (· ≤ ·)).map Fin.val).Pairwise (· < ·) :=
    List.pairwise_map.2 tags.sortedLT_sort.pairwise
  refine set.pairwise_toList.eq_of_mem_iff hsorted fun field => ?_
  rw [mem_toList, h, Finset.mem_map, List.mem_map]
  simp

theorem size_eq (h : set.Represents tags) : set.size = tags.card := by
  rw [size, h.toList_eq, List.length_map, Finset.length_sort]

theorem names_eq (h : set.Represents tags) :
    set.names kind = (tags.sort (· ≤ ·)).map fun tag => ((Catalog.fields kind).get tag).name := by
  rw [names, h.toList_eq, List.map_map]
  refine List.map_congr_left fun tag _ => ?_
  have hfield : Catalog.field? kind tag = some ((Catalog.fields kind).get tag) :=
    List.getElem?_eq_getElem tag.isLt
  rw [Function.comp_apply, Catalog.fieldName, hfield]
  rfl

theorem isSubset_iff (h : set.Represents tags) (hother : other.Represents others) :
    set.isSubset other = true ↔ tags ⊆ others := by
  rw [FieldSet.isSubset_iff, ← Finset.map_subset_map (f := Fin.valEmbedding)]
  exact forall_congr' fun field => imp_congr (h field) (hother field)

theorem isEmpty_iff (h : set.Represents tags) : set.isEmpty = true ↔ tags = ∅ := by
  rw [FieldSet.isEmpty_iff, Finset.eq_empty_iff_forall_notMem]
  constructor
  · intro hnone tag htag
    have hheld := (h.contains_iff tag).2 htag
    rw [hnone tag] at hheld
    cases hheld
  · intro hnone field
    rw [Bool.eq_false_iff, Ne, h field, Finset.mem_map]
    exact fun ⟨tag, htag, _⟩ => hnone tag htag

/-- Sets are equal if they stand for the same tags. -/
theorem eq_iff (h : set.Represents tags) (hother : other.Represents others) :
    set = other ↔ tags = others := by
  constructor
  · rintro rfl
    ext tag
    rw [← h.contains_iff, hother.contains_iff]
  · rintro rfl
    refine ext_contains fun field => ?_
    rw [Bool.eq_iff_iff, h field, hother field]

end Represents

end Representing

/-! ## Histories -/

/-- How a set of fields came about; the operands of an operation have histories of their own. -/
inductive History (kind : κ) where
  /-- A new set has no members. -/
  | new
  /-- Every tag of the kind. -/
  | all
  /-- The listed tags. -/
  | of (listed : List (Tag kind))
  /-- Every tag of the kind but the listed ones. -/
  | complementOf (listed : List (Tag kind))
  /-- One more tag. -/
  | insert (before : History kind) (tag : Tag kind)
  /-- Without one tag. -/
  | remove (before : History kind) (tag : Tag kind)
  /-- Without any tag. -/
  | clear (before : History kind)
  /-- The listed tags besides. -/
  | extend (before : History kind) (listed : List (Tag kind))
  /-- The tags of either set. -/
  | union (left right : History kind)
  /-- The tags of both sets. -/
  | intersection (left right : History kind)
  /-- The tags of the left set that the right one lacks. -/
  | difference (left right : History kind)

namespace History

def set : History kind → FieldSet
  | new => ∅
  | all => .all kind
  | of listed => .ofList (listed.map Fin.val)
  | complementOf listed => .complementOf kind (listed.map Fin.val)
  | insert before tag => (before.set.insertNew tag).2
  | remove before tag => (before.set.eraseHeld tag).2
  | clear _ => ∅
  | extend before listed => before.set.insertAll (listed.map Fin.val)
  | union left right => left.set.union right.set
  | intersection left right => left.set.inter right.set
  | difference left right => left.set.diff right.set

def tags : History kind → Finset (Tag kind)
  | new => ∅
  | all => Finset.univ
  | of listed => listed.toFinset
  | complementOf listed => Finset.univ \ listed.toFinset
  | insert before tag => Insert.insert tag before.tags
  | remove before tag => before.tags.erase tag
  | clear _ => ∅
  | extend before listed => before.tags ∪ listed.toFinset
  | union left right => left.tags ∪ right.tags
  | intersection left right => left.tags ∩ right.tags
  | difference left right => left.tags \ right.tags

/-- After any history a set of fields stands for the tags of the history. -/
theorem represents (history : History kind) : history.set.Represents history.tags := by
  induction history with
  | new | clear => exact represents_empty
  | all => exact represents_all
  | of listed =>
    rw [tags, ← Finset.empty_union listed.toFinset]
    exact represents_empty.insertAll listed
  | complementOf listed => exact represents_complementOf listed
  | insert before tag ih => exact ih.insert tag
  | remove before tag ih => exact ih.erase tag
  | extend before listed ih => exact ih.insertAll listed
  | union left right ihleft ihright => exact ihleft.union ihright
  | intersection left right ihleft ihright => exact ihleft.inter ihright
  | difference left right ihleft ihright => exact ihleft.diff ihright

/-- Insertion tells whether the tag was new. -/
theorem insertNew_iff (history : History kind) (tag : Tag kind) :
    (history.set.insertNew tag).1 = true ↔ (history.insert tag).tags ≠ history.tags := by
  rw [insertNew, Bool.not_eq_true', ← Bool.not_eq_true, history.represents.contains_iff, Ne, tags,
    Finset.insert_eq_self]

/-- Removal tells whether the tag was there. -/
theorem eraseHeld_iff (history : History kind) (tag : Tag kind) :
    (history.set.eraseHeld tag).1 = true ↔ (history.remove tag).tags ≠ history.tags := by
  rw [eraseHeld, history.represents.contains_iff, Ne, tags, Finset.erase_eq_self, not_not]

/-! ## Histories in a store -/

section Stores

variable (store : BitStore)

def on : History kind → store.Bits
  | new => store.new
  | all => store.insertAll store.new (List.range (Catalog.size kind))
  | of listed => store.insertAll store.new (listed.map Fin.val)
  | complementOf listed =>
    store.removeAll (store.insertAll store.new (List.range (Catalog.size kind)))
      (listed.map Fin.val)
  | insert before tag => (store.insert before.on tag).2
  | remove before tag => (store.remove before.on tag).2
  | clear before => store.clear before.on
  | extend before listed => store.insertAll before.on (listed.map Fin.val)
  | union left right => store.union left.on right.on
  | intersection left right => store.inter left.on right.on
  | difference left right => store.diff left.on right.on

/-- A store holds the set of fields that the history leads to. -/
theorem on_holds (history : History kind) : store.Holds (history.on store) history.set := by
  have hnew : store.Holds store.new ∅ := .empty store.contains_new
  induction history with
  | new => exact hnew
  | all => exact hnew.insertAll _
  | of listed => exact hnew.insertAll _
  | complementOf listed => exact (hnew.insertAll _).removeAll _
  | insert before tag ih => exact ih.insert tag
  | remove before tag ih => exact ih.remove tag
  | clear before => exact .empty (store.contains_clear _)
  | extend before listed ih => exact ih.insertAll _
  | union left right ihleft ihright => exact ihleft.union ihright
  | intersection left right ihleft ihright => exact ihleft.inter ihright
  | difference left right ihleft ihright => exact ihleft.diff ihright

/-- No member is passed over when the tags are listed. -/
theorem tags_on (history : History kind) :
    store.tags kind (history.on store) = history.tags.sort (· ≤ ·) := by
  rw [BitStore.tags, (history.on_holds store).members_eq, history.represents.toList_eq,
    List.filterMap_map]
  simp

theorem names_on (history : History kind) :
    store.names kind (history.on store) = history.set.names kind := by
  rw [BitStore.names, tags_on, names, history.represents.toList_eq, List.map_map]
  rfl

end Stores

/-! ## Answers -/

/-- A set of fields is a finite set of tags, whatever its history: it is listed in strictly
ascending order, each tag once and under its name; it answers like the finite set; insertion and
removal tell whether they changed it; and it equals another one exactly if both have the same tags.
In every store of bits the same history leads to the same answers. -/
theorem answers_as_tags (history other : History kind) :
    (history.set.toList = (history.tags.sort (· ≤ ·)).map Fin.val ∧
      history.set.toList.Pairwise (· < ·) ∧
      history.set.names kind =
        (history.tags.sort (· ≤ ·)).map (fun tag => ((Catalog.fields kind).get tag).name) ∧
      history.set.size = history.tags.card ∧
      (history.set.isEmpty = true ↔ history.tags = ∅) ∧
      (history.set.isSubset other.set = true ↔ history.tags ⊆ other.tags) ∧
      ((history.set == other.set) = true ↔ history.tags = other.tags) ∧
      ∀ tag : Tag kind, (history.set.contains tag = true ↔ tag ∈ history.tags) ∧
        ((history.set.insertNew tag).1 = true ↔ (history.insert tag).tags ≠ history.tags) ∧
        ((history.set.eraseHeld tag).1 = true ↔ (history.remove tag).tags ≠ history.tags)) ∧
    ∀ store : BitStore,
      store.tags kind (history.on store) = history.tags.sort (· ≤ ·) ∧
      store.names kind (history.on store) = history.set.names kind ∧
      store.size (history.on store) = history.set.size ∧
      store.isEmpty (history.on store) = history.set.isEmpty ∧
      store.isSubset (history.on store) (other.on store) = history.set.isSubset other.set ∧
      store.same (history.on store) (other.on store) = (history.set == other.set) ∧
      ∀ tag : Tag kind, store.contains (history.on store) tag = history.set.contains tag ∧
        (store.insert (history.on store) tag).1 = (history.set.insertNew tag).1 ∧
        (store.remove (history.on store) tag).1 = (history.set.eraseHeld tag).1 := by
  have h := history.represents
  have hother := other.represents
  constructor
  · refine ⟨h.toList_eq, pairwise_toList _, h.names_eq, h.size_eq, h.isEmpty_iff,
      h.isSubset_iff hother, ?_, fun tag => ⟨h.contains_iff tag, ?_, ?_⟩⟩
    · rw [beq_iff_eq]
      exact h.eq_iff hother
    · exact history.insertNew_iff tag
    · exact history.eraseHeld_iff tag
  · intro store
    have hon := history.on_holds store
    have hothers := other.on_holds store
    exact ⟨history.tags_on store, history.names_on store, hon.size_eq, hon.isEmpty_eq,
      hon.isSubset_eq hothers, hon.same_eq hothers,
      fun tag => ⟨hon tag, hon.insert_changes tag, hon.remove_changes tag⟩⟩

/-- Two rows of different length hold the same two tags: the first one once had the last tag of a
kind with seventy of them. -/
theorem answers_as_tags_broad :
    let first : Tag Harbor.Kind.broad := ⟨0, by decide⟩
    let third : Tag Harbor.Kind.broad := ⟨2, by decide⟩
    let last : Tag Harbor.Kind.broad := ⟨69, by decide⟩
    let grown := ((of [first, third]).union (of [last])).remove last
    let listed := of [third, first, third]
    (grown.on .rows).length = 70 ∧ (listed.on .rows).length = 3 ∧
      BitStore.rows.same (grown.on .rows) (listed.on .rows) = true := by
  intro first third last grown listed
  obtain ⟨⟨-, -, -, -, -, -, hequal, -⟩, hstore⟩ := answers_as_tags grown listed
  obtain ⟨-, -, -, -, -, hsame, -⟩ := hstore .rows
  have htags : grown.tags = listed.tags := by decide
  exact ⟨by decide, by decide, hsame.trans (hequal.2 htags)⟩

end History

end FieldSet

end PartialEntity
