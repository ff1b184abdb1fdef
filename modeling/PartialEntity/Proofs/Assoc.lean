import Mathlib
import PartialEntity.Assoc

/-!
# Looking up in association lists

What is found under a key after a change of the list, and which keys the list has.
-/

namespace PartialEntity.Assoc

variable {α β : Type} [BEq α] [LawfulBEq α]

theorem find?_alter_self (key : α) (f : Option β → β) (entries : List (α × β)) :
    find? key (alter key f entries) = some (f (find? key entries)) := by
  induction entries with
  | nil => simp [alter, find?]
  | cons entry rest ih =>
    obtain ⟨k, v⟩ := entry
    by_cases h : k = key
    · simp [alter, find?, h]
    · simpa [alter, find?, h] using ih

theorem find?_alter_of_ne {key other : α} (hne : other ≠ key) (f : Option β → β)
    (entries : List (α × β)) :
    find? other (alter key f entries) = find? other entries := by
  induction entries with
  | nil => simp [alter, find?, Ne.symm hne]
  | cons entry rest ih =>
    obtain ⟨k, v⟩ := entry
    by_cases h : k = key
    · subst h
      simp [alter, find?, Ne.symm hne]
    · by_cases hother : k = other
      · simp [alter, find?, hother, hne]
      · simpa [alter, find?, h, hother] using ih

@[simp]
theorem find?_insert_self (key : α) (value : β) (entries : List (α × β)) :
    find? key (insert key value entries) = some value :=
  find?_alter_self key _ entries

theorem find?_insert_of_ne {key other : α} (hne : other ≠ key) (value : β)
    (entries : List (α × β)) :
    find? other (insert key value entries) = find? other entries :=
  find?_alter_of_ne hne _ entries

theorem find?_filter (key : α) (p : α → Bool) (entries : List (α × β)) :
    find? key (entries.filter fun entry => p entry.1) =
      if p key then find? key entries else none := by
  induction entries with
  | nil => simp [find?]
  | cons entry rest ih =>
    obtain ⟨k, v⟩ := entry
    by_cases hkey : k = key
    · subst hkey
      by_cases hp : p k
      · simp [find?, hp]
      · simpa [find?, hp] using ih
    · by_cases hp : p k
      · simpa [find?, hp, hkey] using ih
      · simpa [find?, hp, hkey] using ih

@[simp]
theorem find?_erase_self (key : α) (entries : List (α × β)) :
    find? key (erase key entries) = none := by
  have h := find?_filter key (fun other => !(other == key)) entries
  simpa [erase] using h

theorem find?_erase_of_ne {key other : α} (hne : other ≠ key) (entries : List (α × β)) :
    find? other (erase key entries) = find? other entries := by
  have h := find?_filter other (fun k => !(k == key)) entries
  simpa [erase, hne] using h

theorem mem_of_find? {key : α} {value : β} {entries : List (α × β)}
    (h : find? key entries = some value) : (key, value) ∈ entries := by
  induction entries with
  | nil => simp [find?] at h
  | cons entry rest ih =>
    obtain ⟨k, v⟩ := entry
    by_cases hkey : k = key
    · subst hkey
      have hv : v = value := by simpa [find?] using h
      simp [hv]
    · have hrest : find? key rest = some value := by simpa [find?, hkey] using h
      exact List.mem_cons_of_mem _ (ih hrest)

theorem find?_eq_none_iff {key : α} {entries : List (α × β)} :
    find? key entries = none ↔ key ∉ entries.map (·.1) := by
  induction entries with
  | nil => simp [find?]
  | cons entry rest ih =>
    obtain ⟨k, v⟩ := entry
    by_cases hkey : k = key
    · simp [find?, hkey]
    · simp [find?, hkey, ih, Ne.symm hkey]

theorem find?_eq_some_of_mem {key : α} {value : β} {entries : List (α × β)}
    (hkeys : (entries.map (·.1)).Nodup) (hmem : (key, value) ∈ entries) :
    find? key entries = some value := by
  induction entries with
  | nil => simp at hmem
  | cons entry rest ih =>
    obtain ⟨k, v⟩ := entry
    rw [List.map_cons, List.nodup_cons] at hkeys
    rcases List.mem_cons.1 hmem with heq | hrest
    · cases heq
      simp [find?]
    · have hne : k ≠ key := by
        rintro rfl
        exact hkeys.1 (List.mem_map.2 ⟨_, hrest, rfl⟩)
      simpa [find?, hne] using ih hkeys.2 hrest

/-- When all keys differ, their order makes no difference. -/
theorem find?_eq_of_perm {left right : List (α × β)} (h : left.Perm right)
    (hkeys : (left.map (·.1)).Nodup) (key : α) : find? key left = find? key right := by
  have hkeys' : (right.map (·.1)).Nodup := (h.map _).nodup_iff.1 hkeys
  apply Option.ext
  intro value
  constructor
  · exact fun hfind => find?_eq_some_of_mem hkeys' (h.mem_iff.1 (mem_of_find? hfind))
  · exact fun hfind => find?_eq_some_of_mem hkeys (h.mem_iff.2 (mem_of_find? hfind))

/-- When all keys differ, entries can be left out without uncovering others. -/
theorem find?_filter_of_nodup {entries : List (α × β)} (hkeys : (entries.map (·.1)).Nodup)
    (p : α × β → Bool) (key : α) :
    find? key (entries.filter p) = (find? key entries).filter fun value => p (key, value) := by
  have hkept : ((entries.filter p).map (·.1)).Nodup := hkeys.sublist (List.filter_sublist.map _)
  apply Option.ext
  intro value
  rw [Option.filter_eq_some_iff]
  constructor
  · intro hfind
    have hmem := List.mem_filter.1 (mem_of_find? hfind)
    exact ⟨find?_eq_some_of_mem hkeys hmem.1, hmem.2⟩
  · rintro ⟨hfind, hp⟩
    exact find?_eq_some_of_mem hkept (List.mem_filter.2 ⟨mem_of_find? hfind, hp⟩)

/-- Lists with the same keys in the same order are equal if they agree on the value of every key. -/
theorem eq_of_find? {left right : List (α × β)} (hkeys : left.map (·.1) = right.map (·.1))
    (hnodup : (left.map (·.1)).Nodup)
    (h : ∀ key old new, find? key left = some old → find? key right = some new → old = new) :
    left = right := by
  induction left generalizing right with
  | nil => exact (List.map_eq_nil_iff.1 hkeys.symm).symm
  | cons entry left ih =>
    obtain ⟨key, old⟩ := entry
    obtain ⟨⟨other, new⟩, right, rfl, hother, hrest⟩ := List.map_eq_cons_iff.1 hkeys.symm
    cases hother
    rw [List.map_cons, List.nodup_cons] at hnodup
    have hvalue : old = new := h key old new (by simp [find?]) (by simp [find?])
    rw [hvalue, ih hrest.symm hnodup.2 fun k old' new' hold hnew => ?_]
    have hne : ¬key = k := by
      rintro rfl
      exact hnodup.1 (List.mem_map.2 ⟨_, mem_of_find? hold, rfl⟩)
    exact h k old' new' (by simpa [find?, hne] using hold) (by simpa [find?, hne] using hnew)

theorem keys_alter (key : α) (f : Option β → β) (entries : List (α × β)) :
    (alter key f entries).map (·.1) =
      if key ∈ entries.map (·.1) then entries.map (·.1) else entries.map (·.1) ++ [key] := by
  induction entries with
  | nil => simp [alter]
  | cons entry rest ih =>
    obtain ⟨k, v⟩ := entry
    by_cases hkey : k = key
    · simp [alter, hkey]
    · have hne : ¬ key = k := Ne.symm hkey
      simp only [alter, beq_iff_eq, hkey, if_false, List.map_cons, ih, List.mem_cons, hne, false_or]
      by_cases hmem : key ∈ rest.map (·.1)
      · simp only [hmem, if_true]
      · simp only [hmem, if_false, List.cons_append]

theorem nodup_keys_alter {key : α} {f : Option β → β} {entries : List (α × β)}
    (h : (entries.map (·.1)).Nodup) : ((alter key f entries).map (·.1)).Nodup := by
  rw [keys_alter]
  split
  · exact h
  · rename_i hmem
    exact List.nodup_append.2 ⟨h, List.nodup_singleton key, by
      intro k hk other hother
      rw [List.mem_singleton.1 hother]
      rintro rfl
      exact hmem hk⟩

omit [LawfulBEq α] in
theorem nodup_keys_erase {key : α} {entries : List (α × β)}
    (h : (entries.map (·.1)).Nodup) : ((erase key entries).map (·.1)).Nodup :=
  h.sublist (List.filter_sublist.map _)

theorem mem_alter {key : α} {f : Option β → β} {entries : List (α × β)} {entry : α × β}
    (h : entry ∈ alter key f entries) :
    entry ∈ entries ∨ entry = (key, f (find? key entries)) := by
  induction entries with
  | nil => exact .inr (by simpa [alter, find?] using h)
  | cons first rest ih =>
    obtain ⟨k, v⟩ := first
    by_cases hkey : k = key
    · subst hkey
      simp only [alter, beq_self_eq_true, if_true, List.mem_cons] at h
      rcases h with h | h
      · exact .inr (by simpa [find?] using h)
      · exact .inl (List.mem_cons_of_mem _ h)
    · simp only [alter, beq_iff_eq, hkey, if_false, List.mem_cons] at h
      rcases h with h | h
      · exact .inl (by simp [h])
      · rcases ih h with h | h
        · exact .inl (List.mem_cons_of_mem _ h)
        · exact .inr (by simpa [find?, hkey] using h)

/-! ## Splitting at a key -/

theorem exists_split_of_find? {key : α} {value : β} {entries : List (α × β)}
    (h : find? key entries = some value) :
    ∃ before after, entries = before ++ (key, value) :: after ∧ key ∉ before.map (·.1) := by
  induction entries with
  | nil => simp [find?] at h
  | cons entry rest ih =>
    obtain ⟨k, v⟩ := entry
    by_cases hkey : k = key
    · subst hkey
      have hv : v = value := by simpa [find?] using h
      exact ⟨[], rest, by simp [hv], by simp⟩
    · obtain ⟨before, after, rfl, hbefore⟩ := ih (by simpa [find?, hkey] using h)
      exact ⟨(k, v) :: before, after, rfl, by simp [Ne.symm hkey, hbefore]⟩

theorem insert_split {key : α} {before : List (α × β)} (hbefore : key ∉ before.map (·.1))
    (new old : β) (after : List (α × β)) :
    insert key new (before ++ (key, old) :: after) = before ++ (key, new) :: after := by
  induction before with
  | nil => simp [insert, alter]
  | cons entry rest ih =>
    rw [List.map_cons, List.mem_cons, not_or] at hbefore
    have hne : ¬ entry.1 = key := fun h => hbefore.1 h.symm
    have hrest := ih hbefore.2
    simp only [insert] at hrest
    simp [insert, alter, hne, hrest]

theorem erase_of_notMem {key : α} {entries : List (α × β)} (h : key ∉ entries.map (·.1)) :
    erase key entries = entries := by
  apply List.filter_eq_self.2
  intro entry hentry
  have hne : entry.1 ≠ key := by
    rintro rfl
    exact h (List.mem_map_of_mem hentry)
  simpa using hne

theorem erase_split {key : α} {value : β} {before after : List (α × β)}
    (h : ((before ++ (key, value) :: after).map (·.1)).Nodup) :
    erase key (before ++ (key, value) :: after) = before ++ after := by
  rw [List.map_append, List.map_cons, List.nodup_middle, List.nodup_cons, List.mem_append,
    not_or] at h
  have hbefore := erase_of_notMem h.1.1
  have hafter := erase_of_notMem h.1.2
  simp only [erase] at hbefore hafter ⊢
  simp [List.filter_append, hbefore, hafter]

theorem insert_of_find?_eq_none {key : α} {value : β} {entries : List (α × β)}
    (h : find? key entries = none) : insert key value entries = entries ++ [(key, value)] := by
  induction entries with
  | nil => rfl
  | cons entry rest ih =>
    obtain ⟨k, v⟩ := entry
    by_cases hkey : k = key
    · simp [find?, hkey] at h
    · have hrest := ih (by simpa [find?, hkey] using h)
      simp only [insert] at hrest
      simp [insert, alter, hkey, hrest]

/-- Only the new entry can count for more than before. -/
theorem countP_insert_le (p : α × β → Bool) (key : α) (value : β) (entries : List (α × β)) :
    (insert key value entries).countP p ≤
      (if p (key, value) then 1 else 0) + entries.countP p := by
  cases hfind : find? key entries with
  | none =>
    rw [insert_of_find?_eq_none hfind, List.countP_append, List.countP_singleton, Nat.add_comm]
  | some old =>
    obtain ⟨before, after, rfl, hbefore⟩ := exists_split_of_find? hfind
    rw [insert_split hbefore]
    simp only [List.countP_append, List.countP_cons]
    omega

end PartialEntity.Assoc
