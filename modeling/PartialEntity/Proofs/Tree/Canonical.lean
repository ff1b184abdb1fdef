import PartialEntity.Proofs.Tree.Order

/-!
# Canonical trees

A container is in order when no two of its members are equal and a sorted one has them ascending.
A tree is canonical when all its containers are.  Rebuilding makes a tree canonical and leaves a
canonical one alone, so a change of members that keeps their order needs no rebuilding at all.
-/

namespace PartialEntity.Tree

open Std

variable {α β : Type}

/-! ## Insertion -/

section Insert

variable {arrangement : Arrangement} {order : β → β → Ordering} {join : β → β → β}

def Follows (arrangement : Arrangement) (order : β → β → Ordering) (old new : β) : Prop :=
  order new old ≠ .eq ∧ (arrangement = .sorted → order new old = .gt)

/-- Whether the members of a container are in order. -/
def Distinct (arrangement : Arrangement) (order : β → β → Ordering) (members : List β) : Prop :=
  members.Pairwise (Follows arrangement order)

theorem insertBy_eq_append {new : β} {present : List β}
    (hfollows : ∀ old ∈ present, Follows arrangement order old new) :
    insertBy arrangement order join new present = present ++ [new] := by
  induction present with
  | nil => rfl
  | cons old rest ih =>
    rw [List.forall_mem_cons] at hfollows
    have hrest := ih hfollows.2
    obtain ⟨hne, hsorted⟩ := hfollows.1
    cases horder : order new old with
    | eq => exact absurd horder hne
    | gt => simp only [insertBy, horder, hrest, List.cons_append]
    | lt =>
      cases arrangement with
      | sorted =>
        rw [hsorted rfl] at horder
        cases horder
      | hashed | indexed => simp only [insertBy, horder, hrest, List.cons_append]

/-- Members that are in order are inserted as they are. -/
theorem insertAllBy_eq_self {members : List β} (h : Distinct arrangement order members) :
    insertAllBy arrangement order join members = members := by
  suffices hfold : ∀ present : List β, Distinct arrangement order (present ++ members) →
      members.foldl (fun present new => insertBy arrangement order join new present) present =
        present ++ members from hfold [] h
  clear h
  induction members with
  | nil => intro present _; exact (List.append_nil present).symm
  | cons new rest ih =>
    intro present h
    have hfollows : ∀ old ∈ present, Follows arrangement order old new := fun old hold =>
      (List.pairwise_append.1 h).2.2 old hold new (List.mem_cons_self ..)
    rw [List.foldl_cons, insertBy_eq_append hfollows, ih]
    · rw [List.append_assoc, List.singleton_append]
    · rw [List.append_assoc, List.singleton_append]
      exact h

theorem mem_insertBy {new member : β} {present : List β}
    (h : member ∈ insertBy arrangement order join new present) :
    member ∈ present ∨ member = new ∨
      ∃ old ∈ present, order new old = .eq ∧ member = join old new := by
  induction present with
  | nil => exact .inr (.inl (List.mem_singleton.1 h))
  | cons old rest ih =>
    have hlater : member ∈ old :: insertBy arrangement order join new rest →
        member ∈ old :: rest ∨ member = new ∨
          ∃ other ∈ old :: rest, order new other = .eq ∧ member = join other new := by
      intro hmember
      rcases List.mem_cons.1 hmember with rfl | hmember
      · exact .inl (List.mem_cons_self ..)
      · rcases ih hmember with hmember | hmember | ⟨other, hother, heq, hmember⟩
        · exact .inl (List.mem_cons_of_mem _ hmember)
        · exact .inr (.inl hmember)
        · exact .inr (.inr ⟨other, List.mem_cons_of_mem _ hother, heq, hmember⟩)
    cases horder : order new old with
    | eq =>
      simp only [insertBy, horder] at h
      rcases List.mem_cons.1 h with hmember | hmember
      · exact .inr (.inr ⟨old, List.mem_cons_self .., horder, hmember⟩)
      · exact .inl (List.mem_cons_of_mem _ hmember)
    | gt =>
      simp only [insertBy, horder] at h
      exact hlater h
    | lt =>
      cases arrangement with
      | sorted =>
        simp only [insertBy, horder] at h
        rcases List.mem_cons.1 h with hmember | hmember
        · exact .inr (.inl hmember)
        · exact .inl hmember
      | hashed | indexed =>
        simp only [insertBy, horder] at h
        exact hlater h

/-- Insertion keeps a container in order if what remains of two equal members is equal to them. -/
theorem distinct_insertBy [TransCmp order] {new : β} {present : List β}
    (hjoin : ∀ old new, order new old = .eq → order (join old new) old = .eq)
    (h : Distinct arrangement order present) :
    Distinct arrangement order (insertBy arrangement order join new present) := by
  induction present with
  | nil => exact List.pairwise_singleton ..
  | cons old rest ih =>
    obtain ⟨hold, hrest⟩ := List.pairwise_cons.1 h
    have hlater (hnew : Follows arrangement order old new) :
        Distinct arrangement order (old :: insertBy arrangement order join new rest) := by
      refine List.pairwise_cons.2 ⟨fun member hmember => ?_, ih hrest⟩
      rcases mem_insertBy hmember with hmember | rfl | ⟨other, hother, heq, rfl⟩
      · exact hold member hmember
      · exact hnew
      · have hsame : order (join other new) old = order other old :=
          TransCmp.congr_left (hjoin other new heq)
        rw [Follows, hsame]
        exact hold other hother
    cases horder : order new old with
    | eq =>
      simp only [insertBy, horder]
      refine List.pairwise_cons.2 ⟨fun member hmember => ?_, hrest⟩
      have hsame : order member (join old new) = order member old :=
        TransCmp.congr_right (hjoin old new horder)
      rw [Follows, hsame]
      exact hold member hmember
    | gt =>
      simp only [insertBy, horder]
      exact hlater ⟨by rw [horder]; decide, fun _ => horder⟩
    | lt =>
      cases arrangement with
      | sorted =>
        simp only [insertBy, horder]
        refine List.pairwise_cons.2 ⟨fun member hmember => ?_, h⟩
        suffices hgt : order member new = .gt from ⟨by rw [hgt]; decide, fun _ => hgt⟩
        have hnew : order old new = .gt := OrientedCmp.gt_of_lt horder
        rcases List.mem_cons.1 hmember with rfl | hmember
        · exact hnew
        · exact TransCmp.gt_trans ((hold member hmember).2 rfl) hnew
      | hashed | indexed =>
        simp only [insertBy, horder]
        exact hlater ⟨by rw [horder]; decide, nofun⟩

/-- Members that are inserted one after the other are in order, if joining two equal ones gives one
that is equal to them. -/
theorem distinct_insertAllBy [TransCmp order] (members : List β)
    (hjoin : ∀ old new, order new old = .eq → order (join old new) old = .eq) :
    Distinct arrangement order (insertAllBy arrangement order join members) := by
  suffices hfold : ∀ present : List β, Distinct arrangement order present →
      Distinct arrangement order
        (members.foldl (fun present new => insertBy arrangement order join new present) present)
    from hfold [] List.Pairwise.nil
  induction members with
  | nil => exact fun _ hpresent => hpresent
  | cons new rest ih => exact fun present hpresent => ih _ (distinct_insertBy hjoin hpresent)

theorem mem_insertAllBy {member : β} {members : List β} {P : β → Prop}
    (hjoin : ∀ old new, P old → P new → P (join old new)) (hmembers : ∀ member ∈ members, P member)
    (h : member ∈ insertAllBy arrangement order join members) : P member := by
  suffices hfold : ∀ present : List β, (∀ member ∈ present, P member) → ∀ member ∈
      members.foldl (fun present new => insertBy arrangement order join new present) present,
      P member from hfold [] (fun _ hmember => absurd hmember List.not_mem_nil) member h
  clear h
  induction members with
  | nil => exact fun _ hpresent => hpresent
  | cons new rest ih =>
    rw [List.forall_mem_cons] at hmembers
    refine fun present hpresent => ih hmembers.2 _ fun member hmember => ?_
    rcases mem_insertBy hmember with hmember | rfl | ⟨old, hold, -, rfl⟩
    · exact hpresent member hmember
    · exact hmembers.1
    · exact hjoin old new (hpresent old hold) hmembers.1

end Insert

/-! ## Canonical trees -/

inductive Canonical [Ord α] : Tree α → Prop
  | leaf (member : α) : Canonical (.leaf member)
  | scalar (value : Scalar) : Canonical (.scalar value)
  | none : Canonical (.option none)
  | some {inner : Tree α} (hinner : Canonical inner) : Canonical (.option (some inner))
  | sequence {items : List (Tree α)} (hitems : ∀ item ∈ items, Canonical item) :
      Canonical (.sequence items)
  | set {arrangement : Arrangement} {items : List (Tree α)}
      (hitems : ∀ item ∈ items, Canonical item)
      (hdistinct : Distinct arrangement Ord.compare items) : Canonical (.set arrangement items)
  | table {arrangement : Arrangement} {entries : List (Tree α × Tree α)}
      (hkeys : ∀ entry ∈ entries, Canonical entry.1)
      (hvalues : ∀ entry ∈ entries, Canonical entry.2)
      (hdistinct : Distinct arrangement (fun left right => Ord.compare left.1 right.1) entries) :
      Canonical (.table arrangement entries)

variable [Ord α] [Ord β]

theorem canonical_sequence_iff {items : List (Tree α)} :
    (sequence items).Canonical ↔ ∀ item ∈ items, item.Canonical :=
  ⟨fun | .sequence hitems => hitems, .sequence⟩

theorem canonical_set_iff {arrangement : Arrangement} {items : List (Tree α)} :
    (set arrangement items).Canonical ↔
      (∀ item ∈ items, item.Canonical) ∧ Distinct arrangement Ord.compare items :=
  ⟨fun | .set hitems hdistinct => ⟨hitems, hdistinct⟩, fun h => .set h.1 h.2⟩

theorem canonical_table_iff {arrangement : Arrangement} {entries : List (Tree α × Tree α)} :
    (table arrangement entries).Canonical ↔
      (∀ entry ∈ entries, entry.1.Canonical ∧ entry.2.Canonical) ∧
        Distinct arrangement (fun left right => Ord.compare left.1 right.1) entries :=
  ⟨fun | .table hkeys hvalues hdistinct => ⟨fun entry hentry =>
    ⟨hkeys entry hentry, hvalues entry hentry⟩, hdistinct⟩,
    fun h => .table (fun entry hentry => (h.1 entry hentry).1)
      (fun entry hentry => (h.1 entry hentry).2) h.2⟩

theorem rebuildAll_eq (how : Rebuild) (items : List (Tree α)) :
    rebuildAll how items = items.map (rebuild how) := by
  induction items with
  | nil => rfl
  | cons item rest ih => rw [rebuildAll, ih, List.map_cons]

theorem rebuildEntries_eq (how : Rebuild) (entries : List (Tree α × Tree α)) :
    rebuildEntries how entries =
      entries.map fun entry => (entry.1.rebuild how, entry.2.rebuild how) := by
  induction entries with
  | nil => rfl
  | cons entry rest ih =>
    obtain ⟨key, value⟩ := entry
    rw [rebuildEntries, ih, List.map_cons]

/-- Rebuilding leaves a tree as it is whose containers are in order. -/
theorem rebuild_eq_self (how : Rebuild) {tree : Tree α} (h : tree.Canonical) :
    tree.rebuild how = tree := by
  induction h with
  | leaf | scalar | none => rfl
  | some _ ih => rw [rebuild, ih]
  | sequence _ ih =>
    rw [rebuild, rebuildAll_eq, List.map_congr_left ih, List.map_id']
  | set _ hdistinct ih =>
    rw [rebuild, rebuildAll_eq, List.map_congr_left ih, List.map_id',
      insertAllBy_eq_self hdistinct]
  | @table _ entries _ _ hdistinct ihkey ihvalue =>
    have hself : ∀ entry ∈ entries, (entry.1.rebuild how, entry.2.rebuild how) = entry :=
      fun entry hentry => by rw [ihkey entry hentry, ihvalue entry hentry]
    rw [rebuild, rebuildEntries_eq, List.map_congr_left hself, List.map_id',
      insertAllBy_eq_self hdistinct]

/-- After rebuilding, all containers are in order. -/
theorem canonical_rebuild [TransOrd α] (how : Rebuild) (tree : Tree α) :
    (tree.rebuild how).Canonical := by
  induction tree with
  | leaf member => exact .leaf member
  | scalar value => exact .scalar value
  | none => exact .none
  | some inner ih => exact .some ih
  | sequence items ih =>
    rw [rebuild, rebuildAll_eq]
    exact .sequence (List.forall_mem_map.2 ih)
  | set arrangement items ih =>
    have : TransCmp (Ord.compare : Tree α → Tree α → Ordering) := inferInstance
    have hjoin : ∀ old new : Tree α,
        how.joinMembers arrangement old new = old ∨ how.joinMembers arrangement old new = new := by
      intro old new
      unfold Rebuild.joinMembers
      split <;> simp
    rw [rebuild, rebuildAll_eq]
    refine .set (fun item hitem => ?_) (distinct_insertAllBy _ fun old new heq => ?_)
    · refine mem_insertAllBy (P := Canonical) (fun old new hold hnew => ?_)
        (List.forall_mem_map.2 ih) hitem
      rcases hjoin old new with hjoin | hjoin <;> rw [hjoin] <;> assumption
    · rcases hjoin old new with hjoin | hjoin <;> rw [hjoin]
      · exact ReflCmp.compare_self
      · exact heq
  | table arrangement entries ih =>
    have : TransCmp fun left right : Tree α × Tree α => Ord.compare left.1 right.1 :=
      inferInstanceAs (TransCmp (compareOn Prod.fst))
    have hjoin : ∀ old new : Tree α × Tree α,
        how.joinEntries arrangement old new = (old.1, new.2) ∨
          how.joinEntries arrangement old new = new := by
      intro old new
      unfold Rebuild.joinEntries
      split <;> simp
    rw [rebuild, rebuildEntries_eq]
    have hentries : ∀ entry ∈ insertAllBy arrangement
        (fun left right : Tree α × Tree α => Ord.compare left.1 right.1)
        (how.joinEntries arrangement)
        (entries.map fun entry => (entry.1.rebuild how, entry.2.rebuild how)),
        entry.1.Canonical ∧ entry.2.Canonical := by
      refine fun entry hentry => mem_insertAllBy
        (P := fun entry => entry.1.Canonical ∧ entry.2.Canonical)
        (fun old new hold hnew => ?_) (List.forall_mem_map.2 ih) hentry
      rcases hjoin old new with hjoin | hjoin <;> rw [hjoin]
      · exact ⟨hold.1, hnew.2⟩
      · exact hnew
    refine .table (fun entry hentry => (hentries entry hentry).1)
      (fun entry hentry => (hentries entry hentry).2) (distinct_insertAllBy _ fun old new heq => ?_)
    · rcases hjoin old new with hjoin | hjoin <;> rw [hjoin]
      · exact ReflCmp.compare_self
      · exact heq

/-- Rebuilding brings no new members in. -/
theorem forall_mem_leaves_rebuild {P : α → Prop} (how : Rebuild) {tree : Tree α}
    (h : ∀ member ∈ tree.leaves, P member) : ∀ member ∈ (tree.rebuild how).leaves, P member := by
  induction tree with
  | leaf | scalar | none => exact h
  | some inner ih => exact ih h
  | sequence items ih =>
    rw [rebuild, rebuildAll_eq]
    intro member hmember
    obtain ⟨_, hrebuilt, hmember⟩ := mem_leavesAll.1 hmember
    obtain ⟨item, hitem, rfl⟩ := List.mem_map.1 hrebuilt
    exact ih item hitem (fun other hother => h other (mem_leavesAll.2 ⟨item, hitem, hother⟩))
      member hmember
  | set arrangement items ih =>
    rw [rebuild, rebuildAll_eq]
    intro member hmember
    obtain ⟨item, hitem, hmember⟩ := mem_leavesAll.1 hmember
    refine mem_insertAllBy (P := fun item => ∀ member ∈ item.leaves, P member)
      (fun old new hold hnew => ?_) (List.forall_mem_map.2 fun item hitem => ?_)
      hitem member hmember
    · unfold Rebuild.joinMembers
      split <;> assumption
    · exact ih item hitem fun other hother => h other (mem_leavesAll.2 ⟨item, hitem, hother⟩)
  | table arrangement entries ih =>
    rw [rebuild, rebuildEntries_eq]
    intro member hmember
    obtain ⟨entry, hentry, hmember⟩ := mem_leavesEntries.1 hmember
    have hboth : (∀ member ∈ entry.1.leaves, P member) ∧ ∀ member ∈ entry.2.leaves, P member := by
      refine mem_insertAllBy (P := fun entry : Tree α × Tree α =>
          (∀ member ∈ entry.1.leaves, P member) ∧ ∀ member ∈ entry.2.leaves, P member)
        (fun old new hold hnew => ?_) (List.forall_mem_map.2 fun entry hentry => ?_) hentry
      · unfold Rebuild.joinEntries
        split
        · exact hnew
        · exact ⟨hold.1, hnew.2⟩
      · constructor
        · exact (ih entry hentry).1 fun other hother =>
            h other (mem_leavesEntries.2 ⟨entry, hentry, .inl hother⟩)
        · exact (ih entry hentry).2 fun other hother =>
            h other (mem_leavesEntries.2 ⟨entry, hentry, .inr hother⟩)
    rcases hmember with hmember | hmember
    · exact hboth.1 member hmember
    · exact hboth.2 member hmember

omit [Ord β] in
/-- The members of a rebuilt tree of results are results. -/
theorem exists_of_mem_leaves_rebuild_map {f : β → α} {how : Rebuild} {tree : Tree β} {result : α}
    (h : result ∈ ((tree.map f).rebuild how).leaves) :
    ∃ member ∈ tree.leaves, f member = result := by
  refine forall_mem_leaves_rebuild (P := fun result => ∃ member ∈ tree.leaves, f member = result)
    how (fun result hresult => ?_) result h
  rwa [leaves_map, List.mem_map] at hresult

section Collect

variable {ε : Type} {f : α → Except ε α} {tree tree' : Tree α}

/-- The members of a collected tree are results of the action. -/
theorem exists_of_mem_leaves_mapM (hok : tree.mapM f = .ok tree') {result : α}
    (hresult : result ∈ tree'.leaves) : ∃ member ∈ tree.leaves, f member = .ok result := by
  obtain ⟨mapped, htraverse, hrebuild⟩ := Result.bind_eq_ok_iff.1 hok
  cases hrebuild
  let g : α → α := fun member => match f member with
    | .ok member' => member'
    | .error _ => member
  have hmembers : ∀ member ∈ tree.leaves, f member = .ok (g member) := by
    intro member hmember
    obtain ⟨member', hmember'⟩ := exists_ok_of_traverse htraverse member hmember
    simp only [g, hmember']
  rw [traverse_eq_ok hmembers] at htraverse
  cases htraverse
  obtain ⟨member, hmember, rfl⟩ := exists_of_mem_leaves_rebuild_map hresult
  exact ⟨member, hmember, hmembers member hmember⟩

theorem canonical_of_mapM [TransOrd α] (hok : tree.mapM f = .ok tree') : tree'.Canonical := by
  obtain ⟨mapped, -, hrebuild⟩ := Result.bind_eq_ok_iff.1 hok
  cases hrebuild
  exact canonical_rebuild .collected mapped

end Collect

/-! ## Members that keep their order -/

section Map

variable {f : α → β}

private theorem compareAll_map {left right : List (Tree α)}
    (h : ∀ item ∈ left, ∀ other : Tree α,
      (item.map f).compare (other.map f) = item.compare other) :
    compareAll (left.map (map f)) (right.map (map f)) = compareAll left right := by
  induction left generalizing right with
  | nil => cases right <;> rfl
  | cons item rest ih =>
    cases right with
    | nil => rfl
    | cons other others =>
      rw [List.forall_mem_cons] at h
      rw [List.map_cons, List.map_cons, compareAll, compareAll, h.1, ih h.2]

theorem distinct_map_iff {γ δ : Type} {arrangement : Arrangement}
    {order : γ → γ → Ordering} {order' : δ → δ → Ordering} {g : γ → δ} {members : List γ}
    (hg : ∀ left right, order' (g left) (g right) = order left right) :
    Distinct arrangement order' (members.map g) ↔ Distinct arrangement order members := by
  rw [Distinct, Distinct, List.pairwise_map]
  refine iff_of_eq (congrArg (fun follows => members.Pairwise follows) ?_)
  funext left right
  rw [Follows, Follows, hg]

variable (hf : ∀ left right, Ord.compare (f left) (f right) = Ord.compare left right)

include hf

/-- Replacing members by others that compare alike does not affect the order of trees. -/
theorem compare_map (left right : Tree α) :
    Ord.compare (left.map f) (right.map f) = Ord.compare left right := by
  change (left.map f).compare (right.map f) = left.compare right
  induction left using induction_children generalizing right with
  | h left ih =>
    have hhead : compareHead (left.map f) (right.map f) = compareHead left right :=
      compareHead_map hf left right
    rw [compare_eq, compare_eq left, hhead, children_map, children_map, compareAll_map ih]

/-- A change of members that keeps their order keeps containers in order, and conversely. -/
theorem canonical_map_iff (tree : Tree α) : (tree.map f).Canonical ↔ tree.Canonical := by
  induction tree with
  | leaf member => exact ⟨fun _ => .leaf _, fun _ => .leaf _⟩
  | scalar value => exact ⟨fun _ => .scalar _, fun _ => .scalar _⟩
  | none => exact ⟨fun _ => .none, fun _ => .none⟩
  | some inner ih =>
    constructor
    · rintro (_ | _ | _ | h)
      exact .some (ih.1 h)
    · rintro (_ | _ | _ | h)
      exact .some (ih.2 h)
  | sequence items ih =>
    rw [map, mapAll_eq, canonical_sequence_iff, canonical_sequence_iff, List.forall_mem_map]
    exact forall₂_congr ih
  | set arrangement items ih =>
    rw [map, mapAll_eq, canonical_set_iff, canonical_set_iff, List.forall_mem_map,
      distinct_map_iff (compare_map hf)]
    exact and_congr_left' (forall₂_congr ih)
  | table arrangement entries ih =>
    rw [map, mapEntries_eq, canonical_table_iff, canonical_table_iff, List.forall_mem_map,
      distinct_map_iff (fun left right => compare_map hf left.1 right.1)]
    exact and_congr_left' (forall₂_congr fun entry hentry =>
      and_congr (ih entry hentry).1 (ih entry hentry).2)

end Map

end PartialEntity.Tree
