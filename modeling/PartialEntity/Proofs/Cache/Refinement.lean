import PartialEntity.Proofs.Cache.Contents

/-!
# Writing to a cache writes to its map

Every operation that writes to a cache has an effect on the map that the cache is read as, which
needs no entries and no entities to be stated.  Putting replaces the values of an id, merging
overwrites some of them, and clearing drops values.  What an operation reports is how many ids, or
whether any, have lost something.
-/

namespace PartialEntity.Cache

variable {κ : Type}

/-! ## Operations -/

/-- The operations that write to a cache.  An entity that was modified is merged, and one that was
deleted is cleared. -/
inductive Write (κ : Type) where
  | put (value : Entity κ)
  | merge (value : Entity κ)
  | modified (value : Entity κ)
  | deleted (id : Nat)
  | clear (clearing : Clearing κ)

/-- What an operation tells about its effect: nothing, whether an entry has lost something, or how
many have. -/
inductive Report where
  | done
  | whether (lost : Bool)
  | count (lost : Nat)

section Operations

variable [Catalog κ]

def Clearing.report (cache : Cache κ) : Clearing κ → Report
  | .all => .done
  | .one id => .whether (cache.clear id).1
  | .entity value => .whether (cache.clearEntity value).1
  | .matching p => .count (cache.clearMatching p).1
  | .ids keys => .count (cache.clearIds keys).1
  | .entities values => .count (cache.clearEntities values).1
  | .fields id tags => .whether (cache.clearFields id tags).1
  | .idsFields keys tags => .count (cache.clearIdsFields keys tags).1
  | .entitiesFields values tags => .count (cache.clearEntitiesFields values tags).1
  | .matchingFields p tags => .count (cache.clearMatchingFields p tags).1

variable [DecidableEq κ]

def Write.run (cache : Cache κ) : Write κ → Except Error (Cache κ × Report)
  | .put value => (fun next => (next, .done)) <$> cache.put value
  | .merge value | .modified value => (fun result => (result.1, .done)) <$> cache.refresh value
  | .deleted id => pure ((cache.clear id).2, .whether (cache.clear id).1)
  | .clear clearing => pure (clearing.apply cache, clearing.report cache)

def write (cache : Cache κ) : List (Write κ) → Except Error (Cache κ × List Report)
  | [] => pure (cache, [])
  | first :: rest => do
    let (next, report) ← first.run cache
    let (last, reports) ← next.write rest
    pure (last, report :: reports)

/-- Whether the value that an operation writes, if it writes one, is of a kind and declares the
kinds of members in its cacheable fields. -/
def Write.Over (kind : κ) (cacheable : FieldSet) : Write κ → Prop
  | .put value | .merge value | .modified value => Entity.WellTyped kind value ∧
      ∀ field, value.hasField field = true → cacheable.contains field = true →
        Catalog.Copyable kind field
  | .deleted _ | .clear _ => True

end Operations

/-! ## Effects -/

namespace Contents

def changed (before after : Contents κ) : Set Nat :=
  {id | after id ≠ before id}

def drop (contents : Contents κ) (ids fields : Nat → Bool) : Contents κ := fun id field =>
  if ids id && fields field then none else contents id field

variable [Catalog κ]

/-- Puts the cacheable fields of a value, if it holds any, in place of what there is under its
id. -/
def put (contents : Contents κ) (cacheable : FieldSet) (value : Entity κ) : Contents κ := fun id =>
  if id = value.id ∧ (value.held.inter cacheable).isEmpty = false then flattened cacheable value
  else contents id

/-- Puts the cacheable fields of a value over what there is under its id. -/
def merge (contents : Contents κ) (cacheable : FieldSet) (value : Entity κ) : Contents κ :=
  fun id field =>
    if id = value.id then (flattened cacheable value field).or (contents id field)
    else contents id field

end Contents

section Effects

variable [Catalog κ]

/-- The ids that a clearing is about.  Predicates see what there is under an id as an entity. -/
def Clearing.meets (kind : κ) (contents : Contents κ) : Clearing κ → Nat → Bool
  | .all => fun _ => true
  | .one id | .fields id _ => fun other => other == id
  | .entity value => fun other => other == value.id
  | .ids keys | .idsFields keys _ => keys.contains
  | .entities values | .entitiesFields values _ => (values.map (·.id)).contains
  | .matching p | .matchingFields p _ => fun id => p (contents.portrait kind id)

def Clearing.drops : Clearing κ → Nat → Bool
  | .all | .one _ | .entity _ | .matching _ | .ids _ | .entities _ => fun _ => true
  | .fields _ tags | .idsFields _ tags | .entitiesFields _ tags | .matchingFields _ tags =>
    tags.contains

/-- The map after an operation on a cache of a kind that stores the cacheable fields. -/
def Write.effect (kind : κ) (cacheable : FieldSet) (contents : Contents κ) : Write κ → Contents κ
  | .put value => contents.put cacheable value
  | .merge value | .modified value => contents.merge cacheable value
  | .deleted id => contents.drop (fun other => other == id) fun _ => true
  | .clear clearing => contents.drop (clearing.meets kind contents) clearing.drops

open Classical in
noncomputable def Report.whetherChanged (before after : Contents κ) : Report :=
  .whether (decide (after ≠ before))

noncomputable def Report.howMany (before after : Contents κ) : Report :=
  .count (Contents.changed before after).ncard

/-- What a clearing is to report that leads from one map to another. -/
noncomputable def Clearing.account (before after : Contents κ) : Clearing κ → Report
  | .all => .done
  | .one _ | .entity _ | .fields _ _ => .whetherChanged before after
  | .matching _ | .ids _ | .entities _ | .idsFields _ _ | .entitiesFields _ _
  | .matchingFields _ _ => .howMany before after

noncomputable def Write.account (before after : Contents κ) : Write κ → Report
  | .put _ | .merge _ | .modified _ => .done
  | .deleted _ => .whetherChanged before after
  | .clear clearing => clearing.account before after

noncomputable def Contents.write (kind : κ) (cacheable : FieldSet) (contents : Contents κ) :
    List (Write κ) → Contents κ × List Report
  | [] => (contents, [])
  | first :: rest =>
    let after := first.effect kind cacheable contents
    let (last, reports) := Contents.write kind cacheable after rest
    (last, first.account contents after :: reports)

end Effects

/-! ## Dropping values -/

open Entity

namespace Contents

variable {contents : Contents κ} {ids fields : Nat → Bool}

theorem drop_congr {other : Nat → Bool}
    (h : ∀ id ∈ contents.ids, ids id = other id) :
    contents.drop ids fields = contents.drop other fields := by
  funext id field
  rw [drop, drop]
  by_cases hid : id ∈ contents.ids
  · rw [h id hid]
  · have hnone : contents id field = none := by
      rw [← Option.not_isSome_iff_eq_none]
      exact fun hsome => hid ⟨field, hsome⟩
    rw [hnone, ite_self, ite_self]

/-- Dropping values changes the ids that have some of them. -/
theorem mem_changed_drop_iff {id : Nat} :
    id ∈ changed contents (contents.drop ids fields) ↔
      ids id = true ∧ ∃ field, fields field = true ∧ (contents id field).isSome = true := by
  rw [changed, Set.mem_ofPred_eq, Function.ne_iff]
  have hfield : ∀ field, contents.drop ids fields id field ≠ contents id field ↔
      ids id = true ∧ fields field = true ∧ (contents id field).isSome = true := by
    intro field
    rw [drop]
    cases hvalue : contents id field with
    | none => simp
    | some value => simp
  simp only [hfield, exists_and_left]

/-- Dropping changes a map exactly if there is an id under which something differs. -/
theorem drop_ne_iff : contents.drop ids fields ≠ contents ↔
    (changed contents (contents.drop ids fields)).Nonempty := by
  rw [Function.ne_iff]
  rfl

theorem drop_drop {others : Nat → Bool} :
    (contents.drop ids fields).drop others fields =
      contents.drop (fun id => ids id || others id) fields := by
  funext id field
  rw [drop, drop, drop]
  cases ids id with
  | false => simp
  | true =>
    cases fields field with
    | false => simp
    | true => simp

theorem drop_of_nil : contents.drop ([] : List Nat).contains fields = contents := by
  funext id field
  rw [drop]
  simp

theorem finite_changed_drop (contents : Contents κ) (ids : List Nat) (fields : Nat → Bool) :
    (changed contents (contents.drop ids.contains fields)).Finite := by
  refine (List.finite_toSet ids).subset fun id hid => ?_
  exact List.contains_iff_mem.1 (mem_changed_drop_iff.1 hid).1

/-- Dropping the values of one id first, then those of others, changes that id in addition to
what is changed later. -/
theorem changed_drop_first {first : Nat} (hne : contents.drop (· == first) fields ≠ contents)
    (others : Nat → Bool) :
    first ∉ changed (contents.drop (· == first) fields)
        ((contents.drop (· == first) fields).drop others fields) ∧
      changed contents ((contents.drop (· == first) fields).drop others fields) =
        insert first (changed (contents.drop (· == first) fields)
          ((contents.drop (· == first) fields).drop others fields)) := by
  constructor
  · rw [mem_changed_drop_iff]
    rintro ⟨-, field, hfield, hsome⟩
    rw [drop, beq_self_eq_true, hfield] at hsome
    cases hsome
  · ext id
    rw [Set.mem_insert_iff]
    by_cases hid : id = first
    · subst hid
      obtain ⟨other, hother⟩ := drop_ne_iff.1 hne
      obtain ⟨hsame, hfield⟩ := mem_changed_drop_iff.1 hother
      rw [beq_iff_eq.1 hsame] at hfield
      rw [drop_drop, mem_changed_drop_iff, beq_self_eq_true, Bool.true_or]
      exact iff_of_true ⟨rfl, hfield⟩ (.inl rfl)
    · have hsame : contents.drop (· == first) fields id = contents id := by
        funext field
        rw [drop, beq_eq_false_iff_ne.2 hid, Bool.false_and, if_neg Bool.false_ne_true]
      rw [changed, changed, Set.mem_ofPred_eq, Set.mem_ofPred_eq, hsame, or_iff_right hid]

end Contents

variable [Catalog κ] [DecidableEq κ] {empty cache : Cache κ} {reads : List (Read κ)} {kind : κ}
  {value : Entity κ}

section Step

variable (hempty : empty.entries = []) (hkind : empty.kind = kind)
  (hrun : Run (WellTyped kind) (WellTypedAnswers kind) empty cache reads)

/-! ## Putting and merging -/

section Values

variable (hvalue : WellTyped kind value)
  (hcopyable : ∀ field, value.hasField field = true → cache.cacheable.contains field = true →
    Catalog.Copyable kind field)

include hvalue hcopyable

/-- Putting a value in a cache does to the map what the map operation does. -/
theorem put_refines :
    ∃ next, cache.put value = .ok next ∧
      next.stored = Contents.put cache.stored cache.cacheable value := by
  obtain ⟨rfl, hfits⟩ := hvalue
  rcases project_cases cache hfits.self hcopyable with
    ⟨hnothing, hproject⟩ | ⟨hsome, projection, hproject, hvalues⟩
  · refine ⟨cache, by rw [put, hproject]; rfl, ?_⟩
    funext id
    rw [Contents.put, if_neg (by simp [hnothing])]
  · refine ⟨_, by rw [put, hproject]; rfl, ?_⟩
    funext id field
    rw [Contents.put]
    by_cases hid : id = value.id
    · rw [if_pos ⟨hid, hsome⟩, hvalues, hid, stored_of_find? (Assoc.find?_insert_self ..)]
    · rw [if_neg fun h => hid h.1, stored, stored, Assoc.find?_insert_of_ne hid]

include hempty hkind hrun

/-- Merging a value into a cache does to the map what the map operation does. -/
theorem merge_refines :
    ∃ next events, cache.refresh value = .ok (next, events) ∧
      next.stored = Contents.merge cache.stored cache.cacheable value := by
  have hsame : value.kind = cache.kind :=
    hvalue.kind_eq.trans (hkind.symm.trans hrun.kind_eq.symm)
  rcases project_cases cache hvalue.fits.self (hvalue.kind_eq ▸ hcopyable) with
    ⟨hnothing, hproject⟩ | ⟨-, projection, hproject, hvalues⟩
  · refine ⟨cache, [], by rw [refresh, hproject]; rfl, ?_⟩
    funext id field
    have hnone : flattened cache.cacheable value field = none := by
      rw [flattened, FieldSet.isEmpty_iff.1 hnothing]
      rfl
    rw [Contents.merge, hnone, Option.none_or, ite_self]
  · obtain ⟨next, events, hrefresh⟩ := exists_refresh hproject
    refine ⟨next, events, hrefresh, ?_⟩
    funext id field
    have hwritten := stored_refresh (hrun.stores_storable hempty hkind) hsame
      hvalue.fits.self.plainFields hproject hrefresh
    rw [hwritten, Contents.merge, hvalues]
    by_cases hid : id = value.id
    · cases hheld : projection.hasField field with
      | false => simp [hid]
      | true => simp [hid]
    · rw [if_neg fun h => hid h.1, if_neg hid]

end Values

/-! ## Clearing one id -/

/-- Whether a change of a cache drops values of one id and tells whether there were any. -/
structure Drops (change : Cache κ → Nat → Bool × Cache κ) (fields : Nat → Bool) (cache : Cache κ)
    (id : Nat) : Prop where
  stored : (change cache id).2.stored =
    Contents.drop cache.stored (fun other => other == id) fields
  told : (change cache id).1 = true ↔ (change cache id).2.stored ≠ cache.stored

omit [Catalog κ] [DecidableEq κ] in
theorem drops_of_iff {change : Cache κ → Nat → Bool × Cache κ} {fields : Nat → Bool} {id : Nat}
    (hstored : (change cache id).2.stored =
      Contents.drop cache.stored (fun other => other == id) fields)
    (htold : (change cache id).1 = true ↔
      ∃ field, fields field = true ∧ (cache.stored id field).isSome = true) :
    Drops change fields cache id := by
  refine ⟨hstored, htold.trans ?_⟩
  rw [hstored, Contents.drop_ne_iff]
  constructor
  · rintro hfield
    exact ⟨id, Contents.mem_changed_drop_iff.2 ⟨beq_self_eq_true id, hfield⟩⟩
  · rintro ⟨other, hother⟩
    obtain ⟨hid, hfield⟩ := Contents.mem_changed_drop_iff.1 hother
    rwa [beq_iff_eq.1 hid] at hfield

omit [DecidableEq κ] [Catalog κ] in
theorem Drops.report {change : Cache κ → Nat → Bool × Cache κ} {fields : Nat → Bool} {id : Nat}
    (h : Drops change fields cache id) :
    Report.whether (change cache id).1 =
      Report.whetherChanged cache.stored (change cache id).2.stored := by
  classical
  rw [Report.whetherChanged, Report.whether.injEq, Bool.eq_iff_iff, decide_eq_true_iff]
  exact h.told

include hempty hkind hrun

theorem drops_clear (id : Nat) : Drops clear (fun _ => true) cache id := by
  apply drops_of_iff
  · funext other field
    rw [Contents.drop]
    by_cases hother : other = id
    · subst hother
      rw [stored_of_find?_eq_none (Assoc.find?_erase_self ..)]
      simp
    · rw [stored, clear, Assoc.find?_erase_of_ne hother]
      simp [hother, stored]
  · refine ((hrun.shows hempty hkind).contains id).trans ?_
    simp [Contents.ids]

theorem drops_clearFields (id : Nat) (fields : FieldSet) :
    Drops (fun cache id => cache.clearFields id fields) fields.contains cache id := by
  cases hfind : Assoc.find? id cache.entries with
  | none =>
    have hnone := stored_of_find?_eq_none hfind
    have hsame : cache.clearFields id fields = (false, cache) := by
      rw [clearFields, hfind]
    apply drops_of_iff
    · rw [hsame]
      funext other field
      rw [Contents.drop]
      by_cases hother : other = id
      · rw [hother, hnone, ite_self]
      · simp [hother]
    · rw [hsame]
      simp [hnone]
  | some entry =>
    obtain ⟨hstorable, -⟩ := hrun.of_find? hempty hkind hfind
    have hheld := hasField_clearFields entry fields
    have hslot := slot_clearFields hstorable.flat.length_slots fields
    apply drops_of_iff
    · funext other field
      rw [Contents.drop, clearFields, hfind]
      by_cases hother : other = id
      · subst hother
        rw [stored_of_find? hfind]
        simp only
        split
        · rename_i hnothing
          rw [stored_of_find?_eq_none (Assoc.find?_erase_self ..)]
          have hdropped := (hheld field).symm.trans (FieldSet.isEmpty_iff.1 hnothing field)
          cases hloaded : entry.hasField field with
          | false => simp
          | true =>
            rw [hloaded, Bool.true_and, Bool.not_eq_false'] at hdropped
            simp [hdropped]
        · rw [stored_of_find? (Assoc.find?_insert_self ..), hheld, hslot]
          cases hdropped : fields.contains field with
          | false => simp
          | true => simp
      · simp only [beq_eq_false_iff_ne.2 hother, Bool.false_and, Bool.false_eq_true, if_false]
        split
        · rw [stored, stored, Assoc.find?_erase_of_ne hother]
        · rw [stored, stored, Assoc.find?_insert_of_ne hother]
    · rw [clearFields, hfind]
      simp only [holdsAny, Bool.not_eq_true', FieldSet.isEmpty_eq_false_iff,
        FieldSet.contains_inter, Bool.and_eq_true, stored_isSome_of_find? hfind]
      exact exists_congr fun field => and_comm

/-! ## Clearing several ids -/

omit [DecidableEq κ] [Catalog κ] hempty hkind hrun in
/-- Steps that count what they change do not look at the count. -/
theorem foldl_count {change : Cache κ → Nat → Bool × Cache κ}
    {step : Nat × Cache κ → Nat → Nat × Cache κ}
    (hstep : ∀ state id, step state id =
      (if (change state.2 id).1 then state.1 + 1 else state.1, (change state.2 id).2))
    (ids : List Nat) (count : Nat) (cache : Cache κ) :
    ids.foldl step (count, cache) =
      (count + (ids.foldl step (0, cache)).1, (ids.foldl step (0, cache)).2) := by
  induction ids generalizing count cache with
  | nil => rfl
  | cons id rest ih =>
    rw [List.foldl_cons, List.foldl_cons, hstep, hstep, ih]
    simp only
    rw [ih (if (change cache id).1 = true then 0 + 1 else 0), ← Nat.add_assoc]
    split
    · rw [Nat.zero_add]
    · rfl

omit [DecidableEq κ] [Catalog κ] hempty hkind hrun in
theorem countEach_cons (change : Cache κ → Nat → Bool × Cache κ) (cache : Cache κ) (first : Nat)
    (rest : List Nat) :
    countEach change cache (first :: rest) =
      ((if (change cache first).1 then 1 else 0) + (countEach change (change cache first).2 rest).1,
        (countEach change (change cache first).2 rest).2) := by
  rw [countEach, List.foldl_cons]
  exact foldl_count (fun _ _ => rfl) rest _ _

omit hempty hkind in
/-- Changes of one id after the other drop values of all of them, and every id that has lost
something is counted once. -/
theorem countEach_drops {change : Cache κ → Nat → Bool × Cache κ} {fields : Nat → Bool}
    (hchange : ∀ cache, Run (WellTyped kind) (WellTypedAnswers kind) empty cache reads → ∀ id,
      Run (WellTyped kind) (WellTypedAnswers kind) empty (change cache id).2 reads ∧
        Drops change fields cache id) (ids : List Nat) :
    (countEach change cache ids).2.stored = Contents.drop cache.stored ids.contains fields ∧
      (countEach change cache ids).1 =
        (Contents.changed cache.stored (countEach change cache ids).2.stored).ncard := by
  induction ids generalizing cache with
  | nil =>
    have hsame : Contents.changed cache.stored cache.stored = ∅ := by
      simp [Contents.changed]
    refine ⟨Contents.drop_of_nil.symm, ?_⟩
    exact (Set.ncard_empty Nat).symm.trans (congrArg Set.ncard hsame.symm)
  | cons first rest ih =>
    obtain ⟨hnext, hdrops⟩ := hchange cache hrun first
    obtain ⟨hstored, hcount⟩ := ih hnext
    rw [countEach_cons]
    rw [hdrops.stored] at hstored hcount
    simp only [hstored, hcount]
    constructor
    · rw [Contents.drop_drop]
      congr 1
    · by_cases htold : (change cache first).1 = true
      · have hne := hdrops.told.1 htold
        rw [hdrops.stored] at hne
        obtain ⟨hfirst, hchanged⟩ := Contents.changed_drop_first hne rest.contains
        rw [hchanged, Set.ncard_insert_of_notMem hfirst
          (Contents.finite_changed_drop _ rest fields), if_pos htold, Nat.add_comm]
      · have hsame := not_not.1 fun hne => htold (hdrops.told.2 hne)
        rw [hdrops.stored] at hsame
        rw [hsame, if_neg htold, Nat.zero_add]

theorem clearIds_refines (ids : List Nat) :
    (cache.clearIds ids).2.stored = Contents.drop cache.stored ids.contains (fun _ => true) ∧
      (cache.clearIds ids).1 =
        (Contents.changed cache.stored (cache.clearIds ids).2.stored).ncard :=
  countEach_drops hrun (fun _ hnext id =>
    ⟨hnext.clear (.one id), drops_clear hempty hkind hnext id⟩) ids

theorem clearIdsFields_refines (ids : List Nat) (fields : FieldSet) :
    (cache.clearIdsFields ids fields).2.stored =
        Contents.drop cache.stored ids.contains fields.contains ∧
      (cache.clearIdsFields ids fields).1 =
        (Contents.changed cache.stored (cache.clearIdsFields ids fields).2.stored).ncard :=
  countEach_drops hrun (fun _ hnext id =>
    ⟨hnext.clear (.fields id fields), drops_clearFields hempty hkind hnext id fields⟩) ids

/-! ## Clearing what matches -/

/-- The ids whose entries match are the ids that match as the map shows them. -/
theorem mem_keys_filter_iff (matching : Entity κ → Bool) (id : Nat) :
    id ∈ (cache.entries.filter fun entry => matching entry.2).map (·.1) ↔
      id ∈ Contents.ids cache.stored ∧
        matching (Contents.portrait cache.stored cache.kind id) = true := by
  have hnodup := hrun.nodup_keys hempty
  rw [hrun.mem_ids_iff hempty hkind]
  constructor
  · intro hmem
    obtain ⟨⟨_, entry⟩, hentry, rfl⟩ := List.mem_map.1 hmem
    obtain ⟨hentry, hmatches⟩ := List.mem_filter.1 hentry
    have hfind := Assoc.find?_eq_some_of_mem hnodup hentry
    rw [hrun.portrait_eq hempty hkind hfind]
    exact ⟨List.mem_map_of_mem hentry, hmatches⟩
  · rintro ⟨hmem, hmatches⟩
    obtain ⟨⟨_, entry⟩, hentry, rfl⟩ := List.mem_map.1 hmem
    have hfind := Assoc.find?_eq_some_of_mem hnodup hentry
    rw [hrun.portrait_eq hempty hkind hfind] at hmatches
    exact List.mem_map_of_mem (List.mem_filter.2 ⟨hentry, hmatches⟩)

/-- Dropping the entries that match drops their values from the map, and counts them. -/
theorem clearMatching_refines (matching : Entity κ → Bool) :
    (cache.clearMatching matching).2.stored = Contents.drop cache.stored
        (fun id => matching (Contents.portrait cache.stored cache.kind id)) (fun _ => true) ∧
      (cache.clearMatching matching).1 =
        (Contents.changed cache.stored (cache.clearMatching matching).2.stored).ncard := by
  have hnodup := hrun.nodup_keys hempty
  have hstored : (cache.clearMatching matching).2.stored = Contents.drop cache.stored
      (fun id => matching (Contents.portrait cache.stored cache.kind id)) (fun _ => true) := by
    funext id field
    have hkept := Assoc.find?_filter_of_nodup hnodup (fun entry => !matching entry.2) id
    rw [Contents.drop, Bool.and_true]
    cases hfind : Assoc.find? id cache.entries with
    | none =>
      rw [hfind, Option.filter_none] at hkept
      rw [stored_of_find?_eq_none hkept, stored_of_find?_eq_none hfind, ite_self]
    | some entry =>
      rw [hfind, Option.filter_some] at hkept
      rw [hrun.portrait_eq hempty hkind hfind]
      cases hmatches : matching entry with
      | true =>
        rw [hmatches] at hkept
        rw [stored_of_find?_eq_none hkept]
        rfl
      | false =>
        rw [hmatches] at hkept
        rw [stored_of_find? hkept, stored_of_find? hfind]
        rfl
  refine ⟨hstored, ?_⟩
  have hchanged : Contents.changed cache.stored (cache.clearMatching matching).2.stored =
      ((cache.entries.filter fun entry => matching entry.2).map (·.1)).toFinset := by
    ext id
    rw [hstored, Contents.mem_changed_drop_iff, List.coe_toFinset, Set.mem_ofPred_eq,
      mem_keys_filter_iff hempty hkind hrun, and_comm]
    simp [Contents.ids]
  have hdistinct : ((cache.entries.filter fun entry => matching entry.2).map (·.1)).Nodup :=
    hnodup.sublist (List.filter_sublist.map _)
  have hsplit := List.length_eq_length_filter_add (l := cache.entries) fun entry => matching entry.2
  rw [hchanged, Set.ncard_coe_finset, List.toFinset_card_of_nodup hdistinct, List.length_map]
  exact Nat.sub_eq_of_eq_add hsplit

theorem clearMatchingFields_refines (matching : Entity κ → Bool) (fields : FieldSet) :
    (cache.clearMatchingFields matching fields).2.stored = Contents.drop cache.stored
        (fun id => matching (Contents.portrait cache.stored cache.kind id)) fields.contains ∧
      (cache.clearMatchingFields matching fields).1 =
        (Contents.changed cache.stored
          (cache.clearMatchingFields matching fields).2.stored).ncard := by
  obtain ⟨hstored, hcount⟩ := clearIdsFields_refines hempty hkind hrun
    ((cache.entries.filter fun entry => matching entry.2).map (·.1)) fields
  refine ⟨hstored.trans (Contents.drop_congr fun id hid => ?_), hcount⟩
  rw [Bool.eq_iff_iff, List.contains_iff_mem, mem_keys_filter_iff hempty hkind hrun]
  exact and_iff_right hid

/-! ## Refinement -/

/-- A clearing drops the values that it is about, and reports what has lost some. -/
theorem Clearing.refines (clearing : Clearing κ) :
    (clearing.apply cache).stored =
        Contents.drop cache.stored (clearing.meets cache.kind cache.stored) clearing.drops ∧
      clearing.report cache = clearing.account cache.stored (clearing.apply cache).stored := by
  cases clearing with
  | all =>
    refine ⟨?_, rfl⟩
    funext id field
    rfl
  | one id =>
    have hdrops := drops_clear hempty hkind hrun id
    exact ⟨hdrops.stored, hdrops.report⟩
  | entity value =>
    have hdrops := drops_clear hempty hkind hrun value.id
    exact ⟨hdrops.stored, hdrops.report⟩
  | fields id fields =>
    have hdrops := drops_clearFields hempty hkind hrun id fields
    exact ⟨hdrops.stored, hdrops.report⟩
  | matching p => exact (clearMatching_refines hempty hkind hrun p).imp_right (congrArg _)
  | ids ids => exact (clearIds_refines hempty hkind hrun ids).imp_right (congrArg _)
  | entities values => exact (clearIds_refines hempty hkind hrun _).imp_right (congrArg _)
  | idsFields ids fields =>
    exact (clearIdsFields_refines hempty hkind hrun ids fields).imp_right (congrArg _)
  | entitiesFields values fields =>
    exact (clearIdsFields_refines hempty hkind hrun _ fields).imp_right (congrArg _)
  | matchingFields p fields =>
    exact (clearMatchingFields_refines hempty hkind hrun p fields).imp_right (congrArg _)

/-- An operation succeeds, has its effect on the map and reports it. -/
theorem Write.refines {write : Write κ} (hwrite : write.Over kind cache.cacheable) :
    ∃ next, write.run cache = .ok (next, write.account cache.stored next.stored) ∧
      next.stored = write.effect cache.kind cache.cacheable cache.stored ∧
        Run (WellTyped kind) (WellTypedAnswers kind) empty next reads := by
  have hmerge : ∀ value, (Write.merge value).Over kind cache.cacheable →
      ∃ next, (Write.merge value).run cache = .ok (next, .done) ∧
        next.stored = (Write.merge value).effect cache.kind cache.cacheable cache.stored ∧
          Run (WellTyped kind) (WellTypedAnswers kind) empty next reads := by
    rintro value ⟨hvalue, hcopyable⟩
    obtain ⟨next, events, hrefresh, hstored⟩ :=
      merge_refines hempty hkind hrun hvalue hcopyable
    refine ⟨next, ?_, hstored, hrun.merge hvalue hrefresh⟩
    rw [Write.run, hrefresh]
    rfl
  cases write with
  | put value =>
    obtain ⟨next, hput, hstored⟩ := put_refines hwrite.1 hwrite.2
    refine ⟨next, ?_, hstored, hrun.put hwrite.1 hput⟩
    rw [Write.run, hput]
    rfl
  | merge value => exact hmerge value hwrite
  | modified value => exact hmerge value hwrite
  | deleted id =>
    obtain ⟨hstored, hreport⟩ := Clearing.refines hempty hkind hrun (.one id)
    exact ⟨_, congrArg (fun report => Except.ok (_, report)) hreport, hstored, hrun.clear (.one id)⟩
  | clear clearing =>
    obtain ⟨hstored, hreport⟩ := Clearing.refines hempty hkind hrun clearing
    exact ⟨_, congrArg (fun report => Except.ok (_, report)) hreport, hstored, hrun.clear clearing⟩

end Step

/-- Whatever is written to a cache of a run, each operation succeeds, has its effect on the map and
reports what it has to, and queries are answered from the map that comes out. -/
theorem write_refines {cacheable precached : FieldSet}
    (hbuild : build kind cacheable precached = .ok empty)
    (hrun : Run (WellTyped kind) (WellTypedAnswers kind) empty cache reads)
    {writes : List (Write κ)} (hwrites : ∀ write ∈ writes, write.Over kind cacheable) :
    ∃ next reports, cache.write writes = .ok (next, reports) ∧
      (next.stored, reports) = Contents.write kind cacheable cache.stored writes ∧
        Shows next.stored next := by
  have hempty := build_eq_ok hbuild
  have hentries : empty.entries = [] := congrArg entries hempty
  have hkind : empty.kind = kind := congrArg Cache.kind hempty
  induction writes generalizing cache with
  | nil => exact ⟨cache, [], rfl, rfl, hrun.shows hentries hkind⟩
  | cons first rest ih =>
    rw [List.forall_mem_cons] at hwrites
    have hsame : cache.kind = kind := hrun.kind_eq.trans hkind
    have hcacheable : cache.cacheable = cacheable :=
      hrun.cacheable_eq.trans (congrArg Cache.cacheable hempty)
    obtain ⟨next, hfirst, hstored, hnext⟩ :=
      Write.refines hentries hkind hrun (hcacheable ▸ hwrites.1)
    obtain ⟨last, reports, hrest, hmap, hshows⟩ := ih hnext hwrites.2
    rw [hsame, hcacheable] at hstored
    refine ⟨last, first.account cache.stored next.stored :: reports, ?_, ?_, hshows⟩
    · rw [write, hfirst]
      exact congrArg (· >>= fun result => pure (result.1, _ :: result.2)) hrest
    · rw [Contents.write, ← hstored, ← hmap]

open Harbor

def harborWrites : List (Write Kind) :=
  [.put Samples.ann, .merge Samples.bob, .clear (.idsFields [1, 2, 2] (.ofList [1])), .deleted 2,
    .clear (.matching fun entity => entity.hasField 3)]

theorem write_refines_harborWrites :
    ∃ next, write ⟨.person, .ofList [1, 3], ∅, []⟩ harborWrites =
        .ok (next, [.done, .done, .count 2, .whether true, .count 1]) ∧
      (next.stored, [.done, .done, .count 2, .whether true, .count 1]) =
        Contents.write .person (.ofList [1, 3]) (fun _ _ => none) harborWrites ∧
      Shows next.stored next := by
  have hbuild : build Kind.person (.ofList [1, 3]) ∅ = .ok ⟨.person, .ofList [1, 3], ∅, []⟩ := rfl
  have hashore : Kind.person.Ashore := trivial
  have hperson : ∀ person : Entity Kind, person.kind = .person → person.IsRecord →
      WellTyped Kind.person person ∧ ∀ field, person.hasField field = true →
        (FieldSet.ofList [1, 3]).contains field = true → Catalog.Copyable Kind.person field := by
    intro person hkind hrecord
    exact ⟨wellTyped_of_sound hkind hrecord.lawful.sound, fun field _ _ =>
      (regular_of_ashore hashore field).1.copyable⟩
  have hwrites : ∀ write ∈ harborWrites, write.Over Kind.person (.ofList [1, 3]) := by
    rw [harborWrites]
    simp only [List.forall_mem_cons]
    exact ⟨hperson _ rfl Samples.isRecord_ann, hperson _ rfl Samples.isRecord_bob, trivial, trivial,
      trivial, nofun⟩
  obtain ⟨next, reports, hwrite, hmap, hshows⟩ := write_refines hbuild .empty hwrites
  have hreports : (write ⟨.person, .ofList [1, 3], ∅, []⟩ harborWrites).map (·.2) =
      .ok [.done, .done, .count 2, .whether true, .count 1] := rfl
  rw [hwrite] at hreports
  obtain rfl := Except.ok.inj hreports
  exact ⟨next, hwrite, hmap, hshows⟩

end PartialEntity.Cache
