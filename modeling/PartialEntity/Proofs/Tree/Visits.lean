import Mathlib.Data.List.Forall2
import PartialEntity.Proofs.Tree.Canonical

/-!
# Visits that may stop early

A visitor that stops leaves a tree of the same form behind, in which the members it has met are
changed and the others are not.  Member by member the tree is therefore related to the one before
by every relation that relates a member to itself and to what the visitor makes of it.  What the
visitor does to a tree is what it does to the list of its members.
-/

namespace PartialEntity.Tree

variable {α β σ ε : Type} {f : σ → α → α × Except ε σ}

/-! ## Member by member -/

section Members

variable {R : α → α → Prop}

private theorem forall₂_visitAll {items : List (Tree α)}
    (hself : ∀ member ∈ leavesAll items, R member member)
    (hvisit : ∀ item ∈ items, ∀ state,
      List.Forall₂ R item.leaves (item.visit f state).1.leaves) (state : σ) :
    List.Forall₂ R (leavesAll items) (leavesAll (visitAll f state items).1) := by
  induction items generalizing state with
  | nil => exact .nil
  | cons item rest ih =>
    rw [List.forall_mem_cons] at hvisit
    have hrest : ∀ member ∈ leavesAll rest, R member member :=
      fun member hmember => hself member (List.mem_append_right _ hmember)
    have hitem := hvisit.1 state
    rw [visitAll]
    split
    · rename_i item' stop heq
      rw [heq] at hitem
      exact List.rel_append hitem (List.forall₂_same.2 hrest)
    · rename_i item' next heq
      rw [heq] at hitem
      exact List.rel_append hitem (ih hrest hvisit.2 next)

private theorem forall₂_visitEntries {entries : List (Tree α × Tree α)}
    (hself : ∀ member ∈ leavesEntries entries, R member member)
    (hvisit : ∀ entry ∈ entries,
      (∀ state, List.Forall₂ R entry.1.leaves (entry.1.visit f state).1.leaves) ∧
        ∀ state, List.Forall₂ R entry.2.leaves (entry.2.visit f state).1.leaves) (state : σ) :
    List.Forall₂ R (leavesEntries entries) (leavesEntries (visitEntries f state entries).1) := by
  induction entries generalizing state with
  | nil => exact .nil
  | cons entry rest ih =>
    obtain ⟨key, value⟩ := entry
    rw [List.forall_mem_cons] at hvisit
    rw [leavesEntries] at hself ⊢
    have hvalueSelf : List.Forall₂ R value.leaves value.leaves := by
      apply List.forall₂_same.2
      intro member hmember
      exact hself member (List.mem_append_left _ (List.mem_append_right _ hmember))
    have hrest : ∀ member ∈ leavesEntries rest, R member member :=
      fun member hmember => hself member (List.mem_append_right _ hmember)
    have hkey := hvisit.1.1 state
    rw [visitEntries]
    split
    · rename_i key' stop heq
      rw [heq] at hkey
      exact List.rel_append (List.rel_append hkey hvalueSelf) (List.forall₂_same.2 hrest)
    · rename_i key' next heq
      rw [heq] at hkey
      have hvalue := hvisit.1.2 next
      split
      · rename_i value' stop heq
        rw [heq] at hvalue
        exact List.rel_append (List.rel_append hkey hvalue) (List.forall₂_same.2 hrest)
      · rename_i value' next' heq
        rw [heq] at hvalue
        exact List.rel_append (List.rel_append hkey hvalue) (ih hrest hvisit.2 next')

/-- Wherever a visitor stops, each member is related to the one in its place afterwards. -/
theorem forall₂_leaves_visit {tree : Tree α} (hself : ∀ member ∈ tree.leaves, R member member)
    (hstep : ∀ member ∈ tree.leaves, ∀ state, R member (f state member).1) (state : σ) :
    List.Forall₂ R tree.leaves (tree.visit f state).1.leaves := by
  induction tree generalizing state with
  | leaf member =>
    exact .cons (hstep member (List.mem_singleton_self _) state) .nil
  | scalar value => exact .nil
  | none => exact .nil
  | some inner ih => exact ih hself hstep state
  | sequence items ih | set _ items ih =>
    refine forall₂_visitAll hself (fun item hitem => ?_) state
    have hmem : ∀ member ∈ item.leaves, member ∈ leavesAll items :=
      fun member hmember => mem_leavesAll.2 ⟨item, hitem, hmember⟩
    exact ih item hitem (fun member hmember => hself member (hmem member hmember))
      fun member hmember => hstep member (hmem member hmember)
  | table _ entries ih =>
    refine forall₂_visitEntries hself (fun entry hentry => ?_) state
    have hmem : ∀ member, member ∈ entry.1.leaves ∨ member ∈ entry.2.leaves →
        member ∈ leavesEntries entries :=
      fun member hmember => mem_leavesEntries.2 ⟨entry, hentry, hmember⟩
    exact ⟨(ih entry hentry).1 (fun member hmember => hself member (hmem member (.inl hmember)))
        fun member hmember => hstep member (hmem member (.inl hmember)),
      (ih entry hentry).2 (fun member hmember => hself member (hmem member (.inr hmember)))
        fun member hmember => hstep member (hmem member (.inr hmember))⟩

/-- What holds of every member and is kept by the visitor holds of every member afterwards. -/
theorem forall_mem_leaves_visit {P : α → Prop} {tree : Tree α}
    (h : ∀ member ∈ tree.leaves, P member)
    (hstep : ∀ member ∈ tree.leaves, ∀ state, P (f state member).1) (state : σ) :
    ∀ member ∈ (tree.visit f state).1.leaves, P member := by
  have hrelated := forall₂_leaves_visit (R := fun _ after => P after) h hstep state
  intro member hmember
  obtain ⟨position, hposition, rfl⟩ := List.getElem_of_mem hmember
  exact (List.forall₂_iff_get.1 hrelated).2 position (hrelated.length_eq ▸ hposition) hposition

end Members

/-! ## Form -/

section Form

variable {g : α → β}

private theorem mapAll_visitAll {items : List (Tree α)}
    (hvisit : ∀ item ∈ items, ∀ state, (item.visit f state).1.map g = item.map g) (state : σ) :
    mapAll g (visitAll f state items).1 = mapAll g items := by
  induction items generalizing state with
  | nil => rfl
  | cons item rest ih =>
    rw [List.forall_mem_cons] at hvisit
    have hitem := hvisit.1 state
    rw [visitAll]
    split
    · rename_i item' stop heq
      rw [heq] at hitem
      rw [mapAll, mapAll, hitem]
    · rename_i item' next heq
      rw [heq] at hitem
      rw [mapAll, mapAll, hitem, ih hvisit.2 next]

private theorem mapEntries_visitEntries {entries : List (Tree α × Tree α)}
    (hvisit : ∀ entry ∈ entries, (∀ state, (entry.1.visit f state).1.map g = entry.1.map g) ∧
      ∀ state, (entry.2.visit f state).1.map g = entry.2.map g) (state : σ) :
    mapEntries g (visitEntries f state entries).1 = mapEntries g entries := by
  induction entries generalizing state with
  | nil => rfl
  | cons entry rest ih =>
    obtain ⟨key, value⟩ := entry
    rw [List.forall_mem_cons] at hvisit
    have hkey := hvisit.1.1 state
    rw [visitEntries]
    split
    · rename_i key' stop heq
      rw [heq] at hkey
      rw [mapEntries, mapEntries, hkey]
    · rename_i key' next heq
      rw [heq] at hkey
      have hvalue := hvisit.1.2 next
      split
      · rename_i value' stop heq
        rw [heq] at hvalue
        rw [mapEntries, mapEntries, hkey, hvalue]
      · rename_i value' next' heq
        rw [heq] at hvalue
        rw [mapEntries, mapEntries, hkey, hvalue, ih hvisit.2 next']

/-- A visitor that keeps a feature of every member keeps the tree of the features, wherever it
stops. -/
theorem map_visit {tree : Tree α}
    (h : ∀ member ∈ tree.leaves, ∀ state, g (f state member).1 = g member) (state : σ) :
    (tree.visit f state).1.map g = tree.map g := by
  induction tree generalizing state with
  | leaf member => exact congrArg Tree.leaf (h member (List.mem_singleton_self _) state)
  | scalar value => rfl
  | none => rfl
  | some inner ih => exact congrArg (fun inner => Tree.option (some inner)) (ih h state)
  | sequence items ih =>
    refine congrArg Tree.sequence (mapAll_visitAll (fun item hitem => ?_) state)
    exact ih item hitem fun member hmember => h member (mem_leavesAll.2 ⟨item, hitem, hmember⟩)
  | set arrangement items ih =>
    refine congrArg (Tree.set arrangement) (mapAll_visitAll (fun item hitem => ?_) state)
    exact ih item hitem fun member hmember => h member (mem_leavesAll.2 ⟨item, hitem, hmember⟩)
  | table arrangement entries ih =>
    refine congrArg (Tree.table arrangement)
      (mapEntries_visitEntries (fun entry hentry => ?_) state)
    exact ⟨(ih entry hentry).1 fun member hmember =>
        h member (mem_leavesEntries.2 ⟨entry, hentry, .inl hmember⟩),
      (ih entry hentry).2 fun member hmember =>
        h member (mem_leavesEntries.2 ⟨entry, hentry, .inr hmember⟩)⟩

end Form

/-! ## In a row -/

def visitRow (f : σ → α → α × Except ε σ) (state : σ) : List α → List α × Except ε σ
  | [] => ([], .ok state)
  | member :: rest =>
    match f state member with
    | (member', .error stop) => (member' :: rest, .error stop)
    | (member', .ok next) =>
      let (rest', last) := visitRow f next rest
      (member' :: rest', last)

theorem visitRow_append (state : σ) (left right : List α) :
    visitRow f state (left ++ right) =
      match visitRow f state left with
      | (left', .error stop) => (left' ++ right, .error stop)
      | (left', .ok next) => (left' ++ (visitRow f next right).1, (visitRow f next right).2) := by
  induction left generalizing state with
  | nil => rfl
  | cons member rest ih =>
    rw [List.cons_append, visitRow, visitRow]
    rcases f state member with ⟨member', stop | next⟩
    · rfl
    · simp only [ih next]
      rcases visitRow f next rest with ⟨rest', stop | last⟩ <;> rfl

private theorem visitRow_leavesAll {items : List (Tree α)}
    (hvisit : ∀ item ∈ items, ∀ state,
      visitRow f state item.leaves = ((item.visit f state).1.leaves, (item.visit f state).2))
    (state : σ) :
    visitRow f state (leavesAll items) =
      (leavesAll (visitAll f state items).1, (visitAll f state items).2) := by
  induction items generalizing state with
  | nil => rfl
  | cons item rest ih =>
    rw [List.forall_mem_cons] at hvisit
    rw [leavesAll, visitRow_append, hvisit.1, visitAll]
    rcases item.visit f state with ⟨item', stop | next⟩
    · rfl
    · simp only [ih hvisit.2 next]
      rfl

private theorem visitRow_leavesEntries {entries : List (Tree α × Tree α)}
    (hvisit : ∀ entry ∈ entries,
      (∀ state, visitRow f state entry.1.leaves =
        ((entry.1.visit f state).1.leaves, (entry.1.visit f state).2)) ∧
      ∀ state, visitRow f state entry.2.leaves =
        ((entry.2.visit f state).1.leaves, (entry.2.visit f state).2))
    (state : σ) :
    visitRow f state (leavesEntries entries) =
      (leavesEntries (visitEntries f state entries).1, (visitEntries f state entries).2) := by
  induction entries generalizing state with
  | nil => rfl
  | cons entry rest ih =>
    obtain ⟨key, value⟩ := entry
    rw [List.forall_mem_cons] at hvisit
    rw [leavesEntries, visitRow_append, visitRow_append, hvisit.1.1, visitEntries]
    rcases key.visit f state with ⟨key', stop | next⟩
    · rfl
    · simp only [hvisit.1.2 next]
      rcases value.visit f next with ⟨value', stop | next'⟩
      · rfl
      · simp only [ih hvisit.2 next']
        rfl

/-- Visiting a tree visits its members in a row. -/
theorem visitRow_leaves (tree : Tree α) (state : σ) :
    visitRow f state tree.leaves = ((tree.visit f state).1.leaves, (tree.visit f state).2) := by
  induction tree generalizing state with
  | leaf member =>
    rw [leaves, visitRow, visit]
    rcases f state member with ⟨member', stop | next⟩ <;> rfl
  | scalar value => rfl
  | none => rfl
  | some inner ih => exact ih state
  | sequence items ih | set _ items ih => exact visitRow_leavesAll ih state
  | table _ entries ih => exact visitRow_leavesEntries ih state

/-- A row of visits that stops has changed the members before the one where it stops, and that one
as far as the visitor went. -/
theorem visitRow_eq_error {change : α → α × Except ε Unit} {members result : List α} {stop : ε}
    (h : visitRow (fun _ member => change member) () members = (result, .error stop)) :
    ∃ done member rest, members = done ++ member :: rest ∧
      (∀ earlier ∈ done, (change earlier).2 = .ok ()) ∧ (change member).2 = .error stop ∧
        result = done.map (fun earlier => (change earlier).1) ++ (change member).1 :: rest := by
  induction members generalizing result with
  | nil => cases h
  | cons member rest ih =>
    rw [visitRow] at h
    rcases hchange : change member with ⟨member', stop' | next⟩
    · rw [hchange] at h
      cases h
      refine ⟨[], member, rest, rfl, nofun, ?_, ?_⟩
      · rw [hchange]
      · rw [hchange]
        rfl
    · simp only [hchange] at h
      obtain ⟨hresult, hstop⟩ := Prod.mk.inj h
      obtain ⟨done, stopped, after, rfl, hdone, hstopped, hrest⟩ := ih (Prod.ext rfl hstop)
      refine ⟨member :: done, stopped, after, rfl, ?_, hstopped, ?_⟩
      · exact List.forall_mem_cons.2 ⟨by rw [hchange], hdone⟩
      · rw [← hresult, List.map_cons, hchange]
        exact congrArg (member' :: ·) hrest

/-! ## Containers -/

variable [Ord α]

/-- What holds of every member and is kept by the visitor holds of every member once the
containers are put back in order. -/
theorem forall_mem_leaves_forEach {P : α → Prop} {tree : Tree α}
    (h : ∀ member ∈ tree.leaves, P member)
    (hstep : ∀ member ∈ tree.leaves, ∀ state, P (f state member).1) (state : σ) :
    ∀ member ∈ (tree.forEach f state).1.leaves, P member :=
  forall_mem_leaves_rebuild .inserted (forall_mem_leaves_visit h hstep state)

end PartialEntity.Tree
