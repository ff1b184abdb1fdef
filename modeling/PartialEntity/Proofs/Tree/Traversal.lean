import PartialEntity.Proofs.Result
import PartialEntity.Tree.Rebuild

/-!
# Traversals of trees

Every traversal is described by what it does to the members: a traversal that succeeds at each
member is `Tree.map`.  Trees are nested through lists and pairs; `Tree.induction` hides this, and
the companions of a traversal for lists are the maps of the traversal.
-/

namespace PartialEntity.Tree

variable {α β γ : Type}

/-! ## Induction -/

/-- What holds of a tree if it holds of the trees directly under it holds of every tree. -/
@[elab_as_elim, induction_eliminator]
theorem induction {P : Tree α → Prop}
    (leaf : ∀ member, P (.leaf member))
    (scalar : ∀ value, P (.scalar value))
    (none : P (.option none))
    (some : ∀ inner, P inner → P (.option (some inner)))
    (sequence : ∀ items, (∀ item ∈ items, P item) → P (.sequence items))
    (set : ∀ arrangement items, (∀ item ∈ items, P item) → P (.set arrangement items))
    (table : ∀ arrangement entries, (∀ entry ∈ entries, P entry.1 ∧ P entry.2) →
      P (.table arrangement entries)) :
    ∀ tree, P tree
  | .leaf member => leaf member
  | .scalar value => scalar value
  | .option .none => none
  | .option (.some inner) =>
    some inner (induction leaf scalar none some sequence set table inner)
  | .sequence items =>
    sequence items fun item _ => induction leaf scalar none some sequence set table item
  | .set arrangement items =>
    set arrangement items fun item _ => induction leaf scalar none some sequence set table item
  | .table arrangement entries =>
    table arrangement entries fun (key, value) hentry =>
      have _hsize := List.sizeOf_lt_of_mem hentry
      ⟨induction leaf scalar none some sequence set table key,
        induction leaf scalar none some sequence set table value⟩
termination_by tree => sizeOf tree
decreasing_by all_goals first | decreasing_tactic | (simp at *; omega)

/-! ## Members -/

theorem leavesAll_eq (items : List (Tree α)) : leavesAll items = items.flatMap leaves := by
  induction items with
  | nil => rfl
  | cons item rest ih => rw [leavesAll, ih, List.flatMap_cons]

theorem leavesEntries_eq (entries : List (Tree α × Tree α)) :
    leavesEntries entries = entries.flatMap fun entry => entry.1.leaves ++ entry.2.leaves := by
  induction entries with
  | nil => rfl
  | cons entry rest ih =>
    obtain ⟨key, value⟩ := entry
    rw [leavesEntries, ih, List.flatMap_cons]

theorem mem_leavesAll {member : α} {items : List (Tree α)} :
    member ∈ leavesAll items ↔ ∃ item ∈ items, member ∈ item.leaves := by
  rw [leavesAll_eq, List.mem_flatMap]

theorem mem_leavesEntries {member : α} {entries : List (Tree α × Tree α)} :
    member ∈ leavesEntries entries ↔
      ∃ entry ∈ entries, member ∈ entry.1.leaves ∨ member ∈ entry.2.leaves := by
  simp only [leavesEntries_eq, List.mem_flatMap, List.mem_append]

/-! ## Replacing members -/

theorem mapAll_eq (f : α → β) (items : List (Tree α)) : mapAll f items = items.map (map f) := by
  induction items with
  | nil => rfl
  | cons item rest ih => rw [mapAll, ih, List.map_cons]

theorem mapEntries_eq (f : α → β) (entries : List (Tree α × Tree α)) :
    mapEntries f entries = entries.map fun entry => (entry.1.map f, entry.2.map f) := by
  induction entries with
  | nil => rfl
  | cons entry rest ih =>
    obtain ⟨key, value⟩ := entry
    rw [mapEntries, ih, List.map_cons]

/-- Replacing members replaces each in its place. -/
@[simp]
theorem leaves_map (f : α → β) (tree : Tree α) : (tree.map f).leaves = tree.leaves.map f := by
  induction tree with
  | leaf member => rfl
  | scalar value => rfl
  | none => rfl
  | some inner ih => exact ih
  | sequence items ih | set _ items ih =>
    simp only [map, leaves, leavesAll_eq, mapAll_eq, List.flatMap_map, List.map_flatMap]
    exact List.flatMap_congr ih
  | table _ entries ih =>
    simp only [map, leaves, leavesEntries_eq, mapEntries_eq, List.flatMap_map, List.map_flatMap,
      List.map_append]
    exact List.flatMap_congr fun entry hentry => by rw [(ih entry hentry).1, (ih entry hentry).2]

/-- How a tree is changed depends on what becomes of its own members only. -/
theorem map_congr {f g : α → β} {tree : Tree α} (h : ∀ member ∈ tree.leaves, f member = g member) :
    tree.map f = tree.map g := by
  induction tree with
  | leaf member => exact congrArg Tree.leaf (h member (List.mem_singleton_self _))
  | scalar value => rfl
  | none => rfl
  | some inner ih => exact congrArg (fun inner => Tree.option (some inner)) (ih h)
  | sequence items ih | set _ items ih =>
    simp only [map, mapAll_eq]
    congr 1
    refine List.map_congr_left fun item hitem => ih item hitem fun member hmember => ?_
    exact h member (mem_leavesAll.2 ⟨item, hitem, hmember⟩)
  | table _ entries ih =>
    simp only [map, mapEntries_eq]
    congr 1
    refine List.map_congr_left fun entry hentry => ?_
    have hkey := (ih entry hentry).1 fun member hmember =>
      h member (mem_leavesEntries.2 ⟨entry, hentry, .inl hmember⟩)
    have hvalue := (ih entry hentry).2 fun member hmember =>
      h member (mem_leavesEntries.2 ⟨entry, hentry, .inr hmember⟩)
    rw [hkey, hvalue]

@[simp]
theorem map_map (f : α → β) (g : β → γ) (tree : Tree α) :
    (tree.map f).map g = tree.map fun member => g (f member) := by
  induction tree with
  | leaf member => rfl
  | scalar value => rfl
  | none => rfl
  | some inner ih => exact congrArg (fun inner => Tree.option (some inner)) ih
  | sequence items ih | set _ items ih =>
    simp only [map, mapAll_eq, List.map_map]
    exact congrArg _ (List.map_congr_left ih)
  | table _ entries ih =>
    simp only [map, mapEntries_eq, List.map_map]
    refine congrArg _ (List.map_congr_left fun entry hentry => ?_)
    simp only [Function.comp, (ih entry hentry).1, (ih entry hentry).2]

theorem map_id (tree : Tree α) : tree.map (fun member => member) = tree := by
  induction tree with
  | leaf member => rfl
  | scalar value => rfl
  | none => rfl
  | some inner ih => exact congrArg (fun inner => Tree.option (some inner)) ih
  | sequence items ih | set _ items ih =>
    simp only [map, mapAll_eq]
    exact congrArg _ ((List.map_congr_left ih).trans (List.map_id items))
  | table _ entries ih =>
    simp only [map, mapEntries_eq]
    refine congrArg _ (Eq.trans (List.map_congr_left fun entry hentry => ?_) (List.map_id entries))
    rw [(ih entry hentry).1, (ih entry hentry).2]
    rfl

theorem map_eq_self {f : α → α} {tree : Tree α} (h : ∀ member ∈ tree.leaves, f member = member) :
    tree.map f = tree :=
  (map_congr h).trans (map_id tree)

/-- A tree without members is known by its form. -/
theorem eq_of_map_eq {f : α → β} (g : β → α) {left right : Tree α} (h : left.map f = right.map f)
    (hright : right.leaves = []) : left = right := by
  have hleft : left.leaves = [] := by
    have hleaves := congrArg leaves h
    rw [leaves_map, leaves_map, hright] at hleaves
    exact List.map_eq_nil_iff.1 hleaves
  have hself : ∀ {tree : Tree α}, tree.leaves = [] → (tree.map f).map g = tree := by
    intro tree hnone
    rw [map_map]
    refine map_eq_self fun member hmember => ?_
    rw [hnone] at hmember
    exact absurd hmember List.not_mem_nil
  calc
    left = (left.map f).map g := (hself hleft).symm
    _ = (right.map f).map g := by rw [h]
    _ = right := hself hright

/-! ## Actions that may fail -/

section Traverse

variable {ε : Type} {f : α → Except ε β} {g : α → β}

private theorem traverseAll_eq_ok {items : List (Tree α)}
    (h : ∀ item ∈ items, item.traverse f = .ok (item.map g)) :
    traverseAll f items = .ok (mapAll g items) := by
  induction items with
  | nil => rfl
  | cons item rest ih =>
    rw [List.forall_mem_cons] at h
    rw [traverseAll, h.1, ih h.2]
    rfl

private theorem traverseEntries_eq_ok {entries : List (Tree α × Tree α)}
    (h : ∀ entry ∈ entries, entry.1.traverse f = .ok (entry.1.map g) ∧
      entry.2.traverse f = .ok (entry.2.map g)) :
    traverseEntries f entries = .ok (mapEntries g entries) := by
  induction entries with
  | nil => rfl
  | cons entry rest ih =>
    obtain ⟨key, value⟩ := entry
    rw [List.forall_mem_cons] at h
    rw [traverseEntries, h.1.1, h.1.2, ih h.2]
    rfl

/-- A traversal whose action succeeds at every member replaces every member. -/
theorem traverse_eq_ok {tree : Tree α} (h : ∀ member ∈ tree.leaves, f member = .ok (g member)) :
    tree.traverse f = .ok (tree.map g) := by
  induction tree with
  | leaf member =>
    rw [traverse, h member (List.mem_singleton_self _)]
    rfl
  | scalar value => rfl
  | none => rfl
  | some inner ih =>
    rw [traverse, ih h]
    rfl
  | sequence items ih | set _ items ih =>
    have hall : ∀ item ∈ items, item.traverse f = .ok (item.map g) := fun item hitem =>
      ih item hitem fun member hmember => h member (mem_leavesAll.2 ⟨item, hitem, hmember⟩)
    rw [traverse, traverseAll_eq_ok hall]
    rfl
  | table _ entries ih =>
    have hall : ∀ entry ∈ entries, entry.1.traverse f = .ok (entry.1.map g) ∧
        entry.2.traverse f = .ok (entry.2.map g) := fun entry hentry =>
      ⟨(ih entry hentry).1 fun member hmember =>
          h member (mem_leavesEntries.2 ⟨entry, hentry, .inl hmember⟩),
        (ih entry hentry).2 fun member hmember =>
          h member (mem_leavesEntries.2 ⟨entry, hentry, .inr hmember⟩)⟩
    rw [traverse, traverseEntries_eq_ok hall]
    rfl

private theorem exists_ok_of_traverseAll {items : List (Tree α)}
    (h : ∀ item ∈ items, ∀ tree', item.traverse f = .ok tree' →
      ∀ member ∈ item.leaves, ∃ member', f member = .ok member')
    {items' : List (Tree β)} (hok : traverseAll f items = .ok items') :
    ∀ member ∈ leavesAll items, ∃ member', f member = .ok member' := by
  induction items generalizing items' with
  | nil => intro member hmember; exact absurd hmember List.not_mem_nil
  | cons item rest ih =>
    rw [List.forall_mem_cons] at h
    cases hitem : item.traverse f with
    | error stop =>
      rw [traverseAll, hitem] at hok
      cases hok
    | ok item' =>
      cases hrest : traverseAll f rest with
      | error stop =>
        rw [traverseAll, hitem, hrest] at hok
        cases hok
      | ok rest' =>
        intro member hmember
        rcases List.mem_append.1 hmember with hmember | hmember
        · exact h.1 item' hitem member hmember
        · exact ih h.2 hrest member hmember

private theorem exists_ok_of_traverseEntries {entries : List (Tree α × Tree α)}
    (h : ∀ entry ∈ entries,
      (∀ tree', entry.1.traverse f = .ok tree' →
        ∀ member ∈ entry.1.leaves, ∃ member', f member = .ok member') ∧
      (∀ tree', entry.2.traverse f = .ok tree' →
        ∀ member ∈ entry.2.leaves, ∃ member', f member = .ok member'))
    {entries' : List (Tree β × Tree β)} (hok : traverseEntries f entries = .ok entries') :
    ∀ member ∈ leavesEntries entries, ∃ member', f member = .ok member' := by
  induction entries generalizing entries' with
  | nil => intro member hmember; exact absurd hmember List.not_mem_nil
  | cons entry rest ih =>
    obtain ⟨key, value⟩ := entry
    rw [List.forall_mem_cons] at h
    cases hkey : key.traverse f with
    | error stop =>
      rw [traverseEntries, hkey] at hok
      cases hok
    | ok key' =>
      cases hvalue : value.traverse f with
      | error stop =>
        rw [traverseEntries, hkey, hvalue] at hok
        cases hok
      | ok value' =>
        cases hrest : traverseEntries f rest with
        | error stop =>
          rw [traverseEntries, hkey, hvalue, hrest] at hok
          cases hok
        | ok rest' =>
          intro member hmember
          rw [leavesEntries, List.mem_append, List.mem_append] at hmember
          rcases hmember with (hmember | hmember) | hmember
          · exact h.1.1 key' hkey member hmember
          · exact h.1.2 value' hvalue member hmember
          · exact ih h.2 hrest member hmember

theorem exists_ok_of_traverse {tree : Tree α} {tree' : Tree β} (hok : tree.traverse f = .ok tree') :
    ∀ member ∈ tree.leaves, ∃ member', f member = .ok member' := by
  induction tree generalizing tree' with
  | leaf member =>
    intro other hother
    rw [List.mem_singleton.1 hother]
    cases hmember : f member with
    | error stop =>
      rw [traverse, hmember] at hok
      cases hok
    | ok member' => exact ⟨member', rfl⟩
  | scalar value | none => intro member hmember; exact absurd hmember List.not_mem_nil
  | some inner ih =>
    cases hinner : inner.traverse f with
    | error stop =>
      rw [traverse, hinner] at hok
      cases hok
    | ok inner' => exact ih hinner
  | sequence items ih | set _ items ih =>
    cases hitems : traverseAll f items with
    | error stop =>
      rw [traverse, hitems] at hok
      cases hok
    | ok items' =>
      exact exists_ok_of_traverseAll (fun item hitem tree' htree => ih item hitem htree) hitems
  | table _ entries ih =>
    cases hentries : traverseEntries f entries with
    | error stop =>
      rw [traverse, hentries] at hok
      cases hok
    | ok entries' =>
      exact exists_ok_of_traverseEntries
        (fun entry hentry => ⟨fun tree' htree => (ih entry hentry).1 htree,
          fun tree' htree => (ih entry hentry).2 htree⟩) hentries

private theorem exists_error_of_traverseAll {items : List (Tree α)} {stop : ε}
    (h : ∀ item ∈ items, item.traverse f = .error stop →
      ∃ member ∈ item.leaves, f member = .error stop)
    (hstop : traverseAll f items = .error stop) :
    ∃ member ∈ leavesAll items, f member = .error stop := by
  induction items with
  | nil => cases hstop
  | cons item rest ih =>
    rw [List.forall_mem_cons] at h
    rw [traverseAll, Result.bind_eq_error_iff] at hstop
    simp only [leavesAll, List.mem_append]
    rcases hstop with hitem | ⟨_, -, hrest⟩
    · obtain ⟨member, hmember, herror⟩ := h.1 hitem
      exact ⟨member, .inl hmember, herror⟩
    · obtain ⟨member, hmember, herror⟩ :=
        ih h.2 ((Result.bind_eq_error_iff.1 hrest).resolve_right nofun)
      exact ⟨member, .inr hmember, herror⟩

private theorem exists_error_of_traverseEntries {entries : List (Tree α × Tree α)} {stop : ε}
    (h : ∀ entry ∈ entries,
      (entry.1.traverse f = .error stop → ∃ member ∈ entry.1.leaves, f member = .error stop) ∧
      (entry.2.traverse f = .error stop → ∃ member ∈ entry.2.leaves, f member = .error stop))
    (hstop : traverseEntries f entries = .error stop) :
    ∃ member ∈ leavesEntries entries, f member = .error stop := by
  induction entries with
  | nil => cases hstop
  | cons entry rest ih =>
    obtain ⟨key, value⟩ := entry
    rw [List.forall_mem_cons] at h
    rw [traverseEntries, Result.bind_eq_error_iff] at hstop
    simp only [leavesEntries, List.mem_append]
    rcases hstop with hkey | ⟨_, -, hstop⟩
    · obtain ⟨member, hmember, herror⟩ := h.1.1 hkey
      exact ⟨member, .inl (.inl hmember), herror⟩
    · rcases Result.bind_eq_error_iff.1 hstop with hvalue | ⟨_, -, hstop⟩
      · obtain ⟨member, hmember, herror⟩ := h.1.2 hvalue
        exact ⟨member, .inl (.inr hmember), herror⟩
      · obtain ⟨member, hmember, herror⟩ :=
          ih h.2 ((Result.bind_eq_error_iff.1 hstop).resolve_right nofun)
        exact ⟨member, .inr hmember, herror⟩

/-- A traversal stops with the error of some member. -/
theorem exists_error_of_traverse {tree : Tree α} {stop : ε}
    (hstop : tree.traverse f = .error stop) : ∃ member ∈ tree.leaves, f member = .error stop := by
  induction tree with
  | leaf member =>
    have herror := (Result.bind_eq_error_iff.1 hstop).resolve_right nofun
    exact ⟨member, List.mem_singleton_self _, herror⟩
  | scalar value | none => cases hstop
  | some inner ih => exact ih ((Result.bind_eq_error_iff.1 hstop).resolve_right nofun)
  | sequence items ih | set _ items ih =>
    exact exists_error_of_traverseAll ih ((Result.bind_eq_error_iff.1 hstop).resolve_right nofun)
  | table _ entries ih =>
    exact exists_error_of_traverseEntries ih
      ((Result.bind_eq_error_iff.1 hstop).resolve_right nofun)

end Traverse

/-! ## Changes in place -/

section Visit

variable {σ ε : Type} {f : σ → α → α × Except ε σ} {g : α → α} {state : σ}

private theorem visitAll_eq_ok {items : List (Tree α)}
    (h : ∀ item ∈ items, item.visit f state = (item.map g, .ok state)) :
    visitAll f state items = (mapAll g items, .ok state) := by
  induction items with
  | nil => rfl
  | cons item rest ih =>
    rw [List.forall_mem_cons] at h
    rw [visitAll, h.1]
    simp only [ih h.2, mapAll]

private theorem visitEntries_eq_ok {entries : List (Tree α × Tree α)}
    (h : ∀ entry ∈ entries, entry.1.visit f state = (entry.1.map g, .ok state) ∧
      entry.2.visit f state = (entry.2.map g, .ok state)) :
    visitEntries f state entries = (mapEntries g entries, .ok state) := by
  induction entries with
  | nil => rfl
  | cons entry rest ih =>
    obtain ⟨key, value⟩ := entry
    rw [List.forall_mem_cons] at h
    rw [visitEntries, h.1.1]
    simp only [h.1.2, ih h.2, mapEntries]

/-- A visitor that succeeds at every member and keeps its state replaces every member. -/
theorem visit_eq_ok {tree : Tree α}
    (h : ∀ member ∈ tree.leaves, f state member = (g member, .ok state)) :
    tree.visit f state = (tree.map g, .ok state) := by
  induction tree with
  | leaf member =>
    rw [visit, h member (List.mem_singleton_self _)]
    rfl
  | scalar value => rfl
  | none => rfl
  | some inner ih =>
    rw [visit, ih h]
    rfl
  | sequence items ih | set _ items ih =>
    have hall : ∀ item ∈ items, item.visit f state = (item.map g, .ok state) := fun item hitem =>
      ih item hitem fun member hmember => h member (mem_leavesAll.2 ⟨item, hitem, hmember⟩)
    rw [visit, visitAll_eq_ok hall]
    rfl
  | table _ entries ih =>
    have hall : ∀ entry ∈ entries, entry.1.visit f state = (entry.1.map g, .ok state) ∧
        entry.2.visit f state = (entry.2.map g, .ok state) := fun entry hentry =>
      ⟨(ih entry hentry).1 fun member hmember =>
          h member (mem_leavesEntries.2 ⟨entry, hentry, .inl hmember⟩),
        (ih entry hentry).2 fun member hmember =>
          h member (mem_leavesEntries.2 ⟨entry, hentry, .inr hmember⟩)⟩
    rw [visit, visitEntries_eq_ok hall]
    rfl

end Visit

section VisitUnit

variable {ε : Type} {f : Unit → α → α × Except ε Unit}

private theorem visitAll_cons_eq_ok_iff (item : Tree α) (rest : List (Tree α)) :
    (visitAll f () (item :: rest)).2 = .ok () ↔
      (item.visit f ()).2 = .ok () ∧ (visitAll f () rest).2 = .ok () := by
  rw [visitAll]
  split
  · rename_i item' stop heq
    rw [heq]
    exact iff_of_false nofun fun h => nomatch h.1
  · rename_i item' next heq
    rw [heq]
    exact (and_iff_right rfl).symm

private theorem visitEntries_cons_eq_ok_iff (key value : Tree α) (rest : List (Tree α × Tree α)) :
    (visitEntries f () ((key, value) :: rest)).2 = .ok () ↔
      ((key.visit f ()).2 = .ok () ∧ (value.visit f ()).2 = .ok ()) ∧
        (visitEntries f () rest).2 = .ok () := by
  rw [visitEntries]
  split
  · rename_i key' stop heq
    rw [heq]
    exact iff_of_false nofun fun h => nomatch h.1.1
  · rename_i key' next heq
    rw [heq]
    split
    · rename_i value' stop heq
      rw [heq]
      exact iff_of_false nofun fun h => nomatch h.1.2
    · rename_i value' next heq
      rw [heq]
      exact (and_iff_right ⟨rfl, rfl⟩).symm

/-- A visitor without a state gets through a tree exactly when it succeeds at every member. -/
theorem visit_eq_ok_iff (tree : Tree α) :
    (tree.visit f ()).2 = .ok () ↔ ∀ member ∈ tree.leaves, (f () member).2 = .ok () := by
  induction tree with
  | leaf member =>
    rw [leaves, List.forall_mem_singleton]
    rfl
  | scalar value | none => exact iff_of_true rfl fun _ hmember => absurd hmember List.not_mem_nil
  | some inner ih => exact ih
  | sequence items ih | set _ items ih =>
    change (visitAll f () items).2 = .ok () ↔ ∀ member ∈ leavesAll items, (f () member).2 = .ok ()
    induction items with
    | nil => exact iff_of_true rfl fun _ hmember => absurd hmember List.not_mem_nil
    | cons item rest ihrest =>
      rw [List.forall_mem_cons] at ih
      rw [visitAll_cons_eq_ok_iff, ih.1, ihrest ih.2, leavesAll, List.forall_mem_append]
  | table _ entries ih =>
    change (visitEntries f () entries).2 = .ok () ↔
      ∀ member ∈ leavesEntries entries, (f () member).2 = .ok ()
    induction entries with
    | nil => exact iff_of_true rfl fun _ hmember => absurd hmember List.not_mem_nil
    | cons entry rest ihrest =>
      obtain ⟨key, value⟩ := entry
      rw [List.forall_mem_cons] at ih
      rw [visitEntries_cons_eq_ok_iff, ih.1.1, ih.1.2, ihrest ih.2, leavesEntries,
        List.forall_mem_append, List.forall_mem_append]

end VisitUnit

end PartialEntity.Tree
