import PartialEntity.Harbor.Samples
import PartialEntity.Proofs.Entity.Recursion
import PartialEntity.Proofs.Tree.Visits

/-!
# Laws of traversals

Trees of all shapes are traversed alike: members are visited in the order in which they are listed,
until the first failure, and a visitor that leaves identities alone leaves everything else in its
place.  Visiting in place and replacing member by member are then the same.

A traversal that follows the shape container by container, passes over what is opaque, and puts the
members of a container back right behind visiting them does nothing else: where a shape is opaque
there is no member, and a container that was not visited is in order.  A scalar here is any value
without members; no traversal looks into it.
-/

namespace PartialEntity

variable {κ α β σ ε : Type}

namespace Tree

/-! ## Values of a shape -/

/-- Whether a tree is a value of a shape: containers nested as the shape says and in order, with
members of the kinds it says. -/
inductive OfShape [Ord α] (kindOf : α → κ) : Shape κ → Tree α → Prop
  | member {kind : κ} {member : α} (hkind : kindOf member = kind) :
      OfShape kindOf (.member kind) (.leaf member)
  | scalar (type : ScalarType) (value : Scalar) : OfShape kindOf (.scalar type) (.scalar value)
  | none (inner : Shape κ) : OfShape kindOf (.option inner) (.option none)
  | some {inner : Shape κ} {tree : Tree α} (htree : OfShape kindOf inner tree) :
      OfShape kindOf (.option inner) (.option (some tree))
  | boxed {inner : Shape κ} {tree : Tree α} (htree : OfShape kindOf inner tree) :
      OfShape kindOf (.boxed inner) tree
  | vector {inner : Shape κ} {items : List (Tree α)}
      (hitems : ∀ item ∈ items, OfShape kindOf inner item) :
      OfShape kindOf (.vector inner) (.sequence items)
  | deque {inner : Shape κ} {items : List (Tree α)}
      (hitems : ∀ item ∈ items, OfShape kindOf inner item) :
      OfShape kindOf (.deque inner) (.sequence items)
  | set {arrangement : Arrangement} {inner : Shape κ} {items : List (Tree α)}
      (hitems : ∀ item ∈ items, OfShape kindOf inner item)
      (hdistinct : Distinct arrangement Ord.compare items) :
      OfShape kindOf (.set arrangement inner) (.set arrangement items)
  | table {arrangement : Arrangement} {key value : Shape κ} {entries : List (Tree α × Tree α)}
      (hkeys : ∀ entry ∈ entries, OfShape kindOf key entry.1)
      (hvalues : ∀ entry ∈ entries, OfShape kindOf value entry.2)
      (hdistinct : Distinct arrangement (fun left right => Ord.compare left.1 right.1) entries) :
      OfShape kindOf (.table arrangement key value) (.table arrangement entries)

namespace OfShape

variable [Ord α] {kindOf : α → κ} {shape : Shape κ} {tree : Tree α}

theorem canonical (h : OfShape kindOf shape tree) : tree.Canonical := by
  induction h with
  | member => exact .leaf _
  | scalar _ value => exact .scalar value
  | none => exact .none
  | some _ ih => exact .some ih
  | boxed _ ih => exact ih
  | vector _ ih | deque _ ih => exact .sequence ih
  | set _ hdistinct ih => exact .set ih hdistinct
  | table _ _ hdistinct ihkey ihvalue => exact .table ihkey ihvalue hdistinct

/-- Where a shape is opaque there is no member. -/
theorem leaves_eq_nil (h : OfShape kindOf shape tree) (hplain : shape.isOpaque = true) :
    tree.leaves = [] := by
  induction h with
  | member => cases hplain
  | scalar | none => rfl
  | some _ ih | boxed _ ih => exact ih hplain
  | vector _ ih | deque _ ih | set _ _ ih =>
    rw [leaves, leavesAll_eq, List.flatMap_eq_nil_iff]
    exact fun item hitem => ih item hitem hplain
  | table _ _ _ ihkey ihvalue =>
    rw [Shape.isOpaque, Bool.and_eq_true] at hplain
    rw [leaves, leavesEntries_eq, List.flatMap_eq_nil_iff]
    intro entry hentry
    rw [ihkey entry hentry hplain.1, ihvalue entry hentry hplain.2, List.append_nil]

end OfShape

/-! ## Container by container -/

section Containers

/-- Leaves what has no members to the next visit as it is. -/
def passBy (state : σ) (tree : Tree α) : Tree α × Except ε σ :=
  (tree, .ok state)

def visitEntry (key value : σ → Tree α → Tree α × Except ε σ) (state : σ)
    (entry : Tree α × Tree α) : (Tree α × Tree α) × Except ε σ :=
  match key state entry.1 with
  | (key', .error stop) => ((key', entry.2), .error stop)
  | (key', .ok next) =>
    let (value', last) := value next entry.2
    ((key', value'), last)

variable [Ord α]

/-- Visits the members of a value of some shape, container by container.  Sets of opaque values are
passed by.  Tables under opaque keys are visited in place.  Other sets and tables are emptied, and
their contents are put back, visited or not. -/
def visitShaped (f : σ → α → α × Except ε σ) : Shape κ → σ → Tree α → Tree α × Except ε σ
  | .member _, state, leaf member =>
    let (member', next) := f state member
    (leaf member', next)
  | .option inner, state, option (some tree) =>
    let (tree', next) := visitShaped f inner state tree
    (option (some tree'), next)
  | .boxed inner, state, tree => visitShaped f inner state tree
  | .vector inner, state, sequence items =>
    let (items', next) := visitRow (visitShaped f inner) state items
    (sequence items', next)
  | .deque inner, state, sequence items =>
    let (items', next) := visitRow (visitShaped f inner) state items
    (sequence items', next)
  | .set _ inner, state, set arrangement items =>
    if inner.isOpaque then passBy state (set arrangement items)
    else
      let (items', next) := visitRow (visitShaped f inner) state items
      (set arrangement
        (insertAllBy arrangement Ord.compare (Rebuild.inserted.joinMembers arrangement) items'),
        next)
  | .table _ key value, state, table arrangement entries =>
    if key.isOpaque then
      let (entries', next) := visitRow (visitEntry passBy (visitShaped f value)) state entries
      (table arrangement entries', next)
    else
      let visitValue := if value.isOpaque then passBy else visitShaped f value
      let (entries', next) := visitRow (visitEntry (visitShaped f key) visitValue) state entries
      (table arrangement
        (insertAllBy arrangement (fun left right => Ord.compare left.1 right.1)
          (Rebuild.inserted.joinEntries arrangement) entries'),
        next)
  | _, state, tree => passBy state tree

variable {f : σ → α → α × Except ε σ}

omit [Ord α] in
theorem visitRow_congr {f g : σ → α → α × Except ε σ} {members : List α}
    (h : ∀ member ∈ members, ∀ state, f state member = g state member) (state : σ) :
    visitRow f state members = visitRow g state members := by
  induction members generalizing state with
  | nil => rfl
  | cons member rest ih =>
    rw [List.forall_mem_cons] at h
    rw [visitRow, visitRow, h.1]
    rcases g state member with ⟨member', stop | next⟩
    · rfl
    · simp only [ih h.2 next]

omit [Ord α] in
theorem map_visitRow {g : α → β} (h : ∀ state member, g (f state member).1 = g member) (state : σ)
    (members : List α) : (visitRow f state members).1.map g = members.map g := by
  induction members generalizing state with
  | nil => rfl
  | cons member rest ih =>
    have hmember := h state member
    rw [visitRow]
    split
    · rename_i member' stop heq
      rw [heq] at hmember
      rw [List.map_cons, List.map_cons, hmember]
    · rename_i member' next heq
      rw [heq] at hmember
      rw [List.map_cons, List.map_cons, hmember, ih]

/-- Visiting a tree without members does nothing. -/
theorem forEach_of_leaves_eq_nil {tree : Tree α} (hcanonical : tree.Canonical)
    (hleaves : tree.leaves = []) (state : σ) : tree.forEach f state = passBy state tree := by
  have hnone : ∀ member ∈ tree.leaves, ∀ state, (f state member).1 = member := by
    rw [hleaves]
    exact fun _ hmember => absurd hmember List.not_mem_nil
  have hsame : (tree.visit f state).1 = tree := by
    have hform := map_visit (g := fun member => member) hnone state
    rwa [map_id, map_id] at hform
  have hrow := visitRow_leaves (f := f) tree state
  rw [hleaves, visitRow] at hrow
  have hvisit : tree.visit f state = (tree, .ok state) :=
    Prod.ext hsame (Prod.mk.inj hrow).2.symm
  simp only [forEach, hvisit, rebuild_eq_self .inserted hcanonical, passBy]

private theorem visitRow_forEach {items : List (Tree α)}
    (hcanonical : ∀ item ∈ items, item.Canonical) (state : σ) :
    visitRow (forEach f) state items =
      (rebuildAll .inserted (visitAll f state items).1, (visitAll f state items).2) := by
  induction items generalizing state with
  | nil => rfl
  | cons item rest ih =>
    rw [List.forall_mem_cons] at hcanonical
    -- The items behind a failure are in order without being rebuilt.
    have hrest : rebuildAll .inserted rest = rest := by
      rw [rebuildAll_eq, List.map_congr_left fun other hother =>
        rebuild_eq_self .inserted (hcanonical.2 other hother), List.map_id']
    rw [visitRow, forEach, visitAll]
    rcases item.visit f state with ⟨item', stop | next⟩
    · simp only [rebuildAll, hrest]
    · simp only [ih hcanonical.2 next, rebuildAll]

private theorem visitRow_visitEntry {entries : List (Tree α × Tree α)}
    (hcanonical : ∀ entry ∈ entries, entry.1.Canonical ∧ entry.2.Canonical) (state : σ) :
    visitRow (visitEntry (forEach f) (forEach f)) state entries =
      (rebuildEntries .inserted (visitEntries f state entries).1,
        (visitEntries f state entries).2) := by
  induction entries generalizing state with
  | nil => rfl
  | cons entry rest ih =>
    obtain ⟨key, value⟩ := entry
    rw [List.forall_mem_cons] at hcanonical
    have hvalue : value.rebuild .inserted = value := rebuild_eq_self .inserted hcanonical.1.2
    have hrest : rebuildEntries .inserted rest = rest := by
      have hself : ∀ entry ∈ rest,
          (entry.1.rebuild .inserted, entry.2.rebuild .inserted) = entry := fun entry hentry => by
        rw [rebuild_eq_self .inserted (hcanonical.2 entry hentry).1,
          rebuild_eq_self .inserted (hcanonical.2 entry hentry).2]
      rw [rebuildEntries_eq, List.map_congr_left hself, List.map_id']
    rw [visitRow, visitEntry, visitEntries, forEach]
    rcases key.visit f state with ⟨key', stop | next⟩
    · simp only [rebuildEntries, hvalue, hrest]
    · simp only [forEach]
      rcases value.visit f next with ⟨value', stop | next'⟩
      · simp only [rebuildEntries, hrest]
      · simp only [ih hcanonical.2 next', rebuildEntries]

private theorem visitRow_shaped {inner : Shape κ} {items : List (Tree α)}
    (hcanonical : ∀ item ∈ items, item.Canonical)
    (hshaped : ∀ item ∈ items, ∀ state, visitShaped f inner state item = item.forEach f state)
    (state : σ) :
    visitRow (visitShaped f inner) state items =
      (rebuildAll .inserted (visitAll f state items).1, (visitAll f state items).2) :=
  (visitRow_congr hshaped state).trans (visitRow_forEach hcanonical state)

private theorem visitRow_shapedEntries {entries : List (Tree α × Tree α)}
    {key value : σ → Tree α → Tree α × Except ε σ}
    (hcanonical : ∀ entry ∈ entries, entry.1.Canonical ∧ entry.2.Canonical)
    (hkey : ∀ entry ∈ entries, ∀ state, key state entry.1 = entry.1.forEach f state)
    (hvalue : ∀ entry ∈ entries, ∀ state, value state entry.2 = entry.2.forEach f state)
    (state : σ) :
    visitRow (visitEntry key value) state entries =
      (rebuildEntries .inserted (visitEntries f state entries).1,
        (visitEntries f state entries).2) := by
  refine (visitRow_congr (fun entry hentry state => ?_) state).trans
    (visitRow_visitEntry hcanonical state)
  simp only [visitEntry, hkey entry hentry, hvalue entry hentry]

/-- Where keys are passed by, the entries of a table stay in order. -/
private theorem distinct_visitRow_passBy {arrangement : Arrangement}
    {entries : List (Tree α × Tree α)} (value : σ → Tree α → Tree α × Except ε σ)
    (h : Distinct arrangement (fun left right => Ord.compare left.1 right.1) entries) (state : σ) :
    Distinct arrangement (fun left right => Ord.compare left.1 right.1)
      (visitRow (visitEntry passBy value) state entries).1 := by
  have hkeys : ∀ entries : List (Tree α × Tree α),
      Distinct arrangement (fun left right => Ord.compare left.1 right.1) entries ↔
        Distinct arrangement Ord.compare (entries.map Prod.fst) :=
    fun _ => (distinct_map_iff fun _ _ => rfl).symm
  have hsame := map_visitRow (f := visitEntry passBy value) (g := Prod.fst) (fun _ _ => rfl) state
    entries
  rw [hkeys, hsame, ← hkeys]
  exact h

/-- Visiting container by container, with its omissions, is visiting all members in place and
putting all containers in order. -/
theorem visitShaped_eq_forEach {kindOf : α → κ} {shape : Shape κ} {tree : Tree α}
    (h : OfShape kindOf shape tree) (state : σ) :
    visitShaped f shape state tree = tree.forEach f state := by
  induction h generalizing state with
  | member => rfl
  | scalar | none => rfl
  | some _ ih =>
    rw [visitShaped, ih]
    rfl
  | boxed _ ih => exact ih state
  | vector hitems ih | deque hitems ih =>
    rw [visitShaped, visitRow_shaped (fun item hitem => (hitems item hitem).canonical) ih]
    rfl
  | @set arrangement inner items hitems hdistinct ih =>
    have hset : OfShape kindOf (.set arrangement inner) (.set arrangement items) :=
      .set hitems hdistinct
    rw [visitShaped]
    cases hplain : inner.isOpaque with
    | true => exact (forEach_of_leaves_eq_nil hset.canonical (hset.leaves_eq_nil hplain) state).symm
    | false =>
      rw [visitRow_shaped (fun item hitem => (hitems item hitem).canonical) ih]
      rfl
  | @table arrangement key value entries hkeys hvalues hdistinct ihkey ihvalue =>
    have hcanonical : ∀ entry ∈ entries, entry.1.Canonical ∧ entry.2.Canonical :=
      fun entry hentry => ⟨(hkeys entry hentry).canonical, (hvalues entry hentry).canonical⟩
    rw [visitShaped]
    cases hplain : key.isOpaque with
    | true =>
      have hpass : ∀ entry ∈ entries, ∀ state, passBy state entry.1 = entry.1.forEach f state :=
        fun entry hentry state => (forEach_of_leaves_eq_nil (hcanonical entry hentry).1
          ((hkeys entry hentry).leaves_eq_nil hplain) state).symm
      have hrow := visitRow_shapedEntries hcanonical hpass ihvalue state
      -- The entries are still in order, so putting them back changes nothing.
      have hsame := distinct_visitRow_passBy (visitShaped f value) hdistinct state
      rw [hrow] at hsame
      simp only [if_true, hrow, forEach, visit, rebuild, insertAllBy_eq_self hsame]
    | false =>
      have hvalue : ∀ entry ∈ entries, ∀ state,
          (if value.isOpaque then passBy else visitShaped f value) state entry.2 =
            entry.2.forEach f state := by
        intro entry hentry state
        cases hplain : value.isOpaque with
        | true => exact (forEach_of_leaves_eq_nil (hcanonical entry hentry).2
            ((hvalues entry hentry).leaves_eq_nil hplain) state).symm
        | false => exact ihvalue entry hentry state
      simp only [Bool.false_eq_true, if_false,
        visitRow_shapedEntries hcanonical ihkey hvalue state, forEach, visit, rebuild]

end Containers

/-! ## Values after a visit -/

section Visited

variable {f : σ → α → α × Except ε σ}

private theorem mem_visitAll {item : Tree α} {items : List (Tree α)} {state : σ}
    (h : item ∈ (visitAll f state items).1) :
    ∃ old ∈ items, item = old ∨ ∃ state, item = (old.visit f state).1 := by
  induction items generalizing state with
  | nil => exact absurd h List.not_mem_nil
  | cons first rest ih =>
    simp only [List.exists_mem_cons_iff]
    rw [visitAll] at h
    split at h
    · rename_i first' stop heq
      rcases List.mem_cons.1 h with rfl | hrest
      · exact .inl (.inr ⟨state, by rw [heq]⟩)
      · exact .inr ⟨item, hrest, .inl rfl⟩
    · rename_i first' next heq
      rcases List.mem_cons.1 h with rfl | hrest
      · exact .inl (.inr ⟨state, by rw [heq]⟩)
      · exact .inr (ih hrest)

private theorem mem_visitEntries {entry : Tree α × Tree α} {entries : List (Tree α × Tree α)}
    {state : σ} (h : entry ∈ (visitEntries f state entries).1) :
    ∃ old ∈ entries, (entry.1 = old.1 ∨ ∃ state, entry.1 = (old.1.visit f state).1) ∧
      (entry.2 = old.2 ∨ ∃ state, entry.2 = (old.2.visit f state).1) := by
  induction entries generalizing state with
  | nil => exact absurd h List.not_mem_nil
  | cons first rest ih =>
    obtain ⟨key, value⟩ := first
    simp only [List.exists_mem_cons_iff]
    rw [visitEntries] at h
    split at h
    · rename_i key' stop hkey
      rcases List.mem_cons.1 h with rfl | hrest
      · exact .inl ⟨.inr ⟨state, by rw [hkey]⟩, .inl rfl⟩
      · exact .inr ⟨entry, hrest, .inl rfl, .inl rfl⟩
    · rename_i key' next hkey
      split at h
      · rename_i value' stop hvalue
        rcases List.mem_cons.1 h with rfl | hrest
        · exact .inl ⟨.inr ⟨state, by rw [hkey]⟩, .inr ⟨next, by rw [hvalue]⟩⟩
        · exact .inr ⟨entry, hrest, .inl rfl, .inl rfl⟩
      · rename_i value' next' hvalue
        rcases List.mem_cons.1 h with rfl | hrest
        · exact .inl ⟨.inr ⟨state, by rw [hkey]⟩, .inr ⟨next, by rw [hvalue]⟩⟩
        · exact .inr (ih hrest)

variable [Ord α] {kindOf : α → κ} {shape : Shape κ} {tree : Tree α}

private theorem ofShape_visitAll {items : List (Tree α)}
    (hitems : ∀ item ∈ items, OfShape kindOf shape item)
    (hvisit : ∀ item ∈ items, ∀ state, (item.visit f state).1.Canonical →
      OfShape kindOf shape (item.visit f state).1)
    {state : σ} (hcanonical : ∀ item ∈ (visitAll f state items).1, item.Canonical) :
    ∀ item ∈ (visitAll f state items).1, OfShape kindOf shape item := by
  intro item hitem
  have hcanonical := hcanonical item hitem
  obtain ⟨old, hold, rfl | ⟨next, rfl⟩⟩ := mem_visitAll hitem
  · exact hitems _ hold
  · exact hvisit old hold next hcanonical

private theorem ofShape_visitEntries {key value : Shape κ} {entries : List (Tree α × Tree α)}
    (hkeys : ∀ entry ∈ entries, OfShape kindOf key entry.1)
    (hvalues : ∀ entry ∈ entries, OfShape kindOf value entry.2)
    (hkey : ∀ entry ∈ entries, ∀ state, (entry.1.visit f state).1.Canonical →
      OfShape kindOf key (entry.1.visit f state).1)
    (hvalue : ∀ entry ∈ entries, ∀ state, (entry.2.visit f state).1.Canonical →
      OfShape kindOf value (entry.2.visit f state).1)
    {state : σ}
    (hcanonical : ∀ entry ∈ (visitEntries f state entries).1,
      entry.1.Canonical ∧ entry.2.Canonical) :
    ∀ entry ∈ (visitEntries f state entries).1,
      OfShape kindOf key entry.1 ∧ OfShape kindOf value entry.2 := by
  rintro ⟨key', value'⟩ hentry
  have hcanonical := hcanonical _ hentry
  obtain ⟨old, hold, hkey', hvalue'⟩ := mem_visitEntries hentry
  constructor
  · rcases hkey' with rfl | ⟨next, rfl⟩
    · exact hkeys old hold
    · exact hkey old hold next hcanonical.1
  · rcases hvalue' with rfl | ⟨next, rfl⟩
    · exact hvalues old hold
    · exact hvalue old hold next hcanonical.2

/-- A visitor that keeps the kinds of members keeps the shape of a tree, as long as the containers
stay in order. -/
theorem OfShape.visit (h : OfShape kindOf shape tree)
    (hkind : ∀ member ∈ tree.leaves, ∀ state, kindOf (f state member).1 = kindOf member)
    {state : σ} (hcanonical : (tree.visit f state).1.Canonical) :
    OfShape kindOf shape (tree.visit f state).1 := by
  induction h generalizing state with
  | @member _ member hmember =>
    exact .member ((hkind member (List.mem_singleton_self _) state).trans hmember)
  | scalar type value => exact .scalar type value
  | none inner => exact .none inner
  | some _ ih =>
    rw [Tree.visit] at hcanonical ⊢
    cases hcanonical with
    | some hinner => exact .some (ih hkind hinner)
  | boxed _ ih => exact .boxed (ih hkind hcanonical)
  | vector hitems ih =>
    exact .vector (ofShape_visitAll hitems (fun item hitem _ => ih item hitem fun member hmember =>
      hkind member (mem_leavesAll.2 ⟨item, hitem, hmember⟩)) (canonical_sequence_iff.1 hcanonical))
  | deque hitems ih =>
    exact .deque (ofShape_visitAll hitems (fun item hitem _ => ih item hitem fun member hmember =>
      hkind member (mem_leavesAll.2 ⟨item, hitem, hmember⟩)) (canonical_sequence_iff.1 hcanonical))
  | set hitems _ ih =>
    obtain ⟨hcanonical, hdistinct⟩ := canonical_set_iff.1 hcanonical
    exact .set (ofShape_visitAll hitems (fun item hitem _ => ih item hitem fun member hmember =>
      hkind member (mem_leavesAll.2 ⟨item, hitem, hmember⟩)) hcanonical) hdistinct
  | table hkeys hvalues _ ihkey ihvalue =>
    obtain ⟨hcanonical, hdistinct⟩ := canonical_table_iff.1 hcanonical
    have hentries := ofShape_visitEntries hkeys hvalues
      (fun entry hentry _ => ihkey entry hentry fun member hmember =>
        hkind member (mem_leavesEntries.2 ⟨entry, hentry, .inl hmember⟩))
      (fun entry hentry _ => ihvalue entry hentry fun member hmember =>
        hkind member (mem_leavesEntries.2 ⟨entry, hentry, .inr hmember⟩)) hcanonical
    exact .table (fun entry hentry => (hentries entry hentry).1)
      (fun entry hentry => (hentries entry hentry).2) hdistinct

end Visited

/-! ## Replacing members -/

section Actions

variable {γ : Type} {m : Type → Type} [Monad m] {f : β → m γ} {g : α → β}

private theorem traverseAll_map {items : List (Tree α)}
    (h : ∀ item ∈ items, (item.map g).traverse f = item.traverse fun member => f (g member)) :
    traverseAll f (mapAll g items) = traverseAll (fun member => f (g member)) items := by
  induction items with
  | nil => rfl
  | cons item rest ih =>
    rw [List.forall_mem_cons] at h
    rw [mapAll, traverseAll, h.1, ih h.2, traverseAll]

private theorem traverseEntries_map {entries : List (Tree α × Tree α)}
    (h : ∀ entry ∈ entries,
      (entry.1.map g).traverse f = entry.1.traverse (fun member => f (g member)) ∧
        (entry.2.map g).traverse f = entry.2.traverse fun member => f (g member)) :
    traverseEntries f (mapEntries g entries) =
      traverseEntries (fun member => f (g member)) entries := by
  induction entries with
  | nil => rfl
  | cons entry rest ih =>
    obtain ⟨key, value⟩ := entry
    rw [List.forall_mem_cons] at h
    rw [mapEntries, traverseEntries, h.1.1, h.1.2, ih h.2, traverseEntries]

/-- Members that were replaced before are replaced by what the action makes of the new ones. -/
theorem traverse_map (f : β → m γ) (g : α → β) (tree : Tree α) :
    (tree.map g).traverse f = tree.traverse fun member => f (g member) := by
  induction tree with
  | leaf member => rfl
  | scalar value => rfl
  | none => rfl
  | some inner ih => rw [map, traverse, ih, traverse]
  | sequence items ih | set _ items ih => rw [map, traverse, traverseAll_map ih, traverse]
  | table _ entries ih => rw [map, traverse, traverseEntries_map ih, traverse]

end Actions

/-- What a visit comes to where a failure leaves nothing behind. -/
def settled (outcome : α × Except ε σ) : Except ε (α × σ) :=
  outcome.2.map fun state => (outcome.1, state)

def attempt (f : σ → α → α × Except ε σ) (member : α) : StateT σ (Except ε) α :=
  fun state => settled (f state member)

section Replace

variable {f : σ → α → α × Except ε σ}

/-- An action goes on with what a visit that succeeds has made. -/
theorem run_bind_of_settled {action : StateT σ (Except ε) α} {next : α → StateT σ (Except ε) β}
    {state : σ} {outcome : α × Except ε σ} :
    action.run state = settled outcome → (action >>= next).run state =
      match outcome with
      | (_, .error stop) => .error stop
      | (result, .ok state) => (next result).run state := by
  intro h
  rw [StateT.run_bind, h]
  rcases outcome with ⟨result, stop | state⟩ <;> rfl

private theorem traverseAll_attempt {items : List (Tree α)}
    (h : ∀ item ∈ items, ∀ state,
      (item.traverse (attempt f)).run state = settled (item.visit f state)) (state : σ) :
    (traverseAll (attempt f) items).run state = settled (visitAll f state items) := by
  induction items generalizing state with
  | nil => rfl
  | cons item rest ih =>
    rw [List.forall_mem_cons] at h
    rw [traverseAll, run_bind_of_settled (h.1 state), visitAll]
    rcases item.visit f state with ⟨item', stop | next⟩
    · rfl
    · simp only [run_bind_of_settled (ih h.2 next)]
      rcases visitAll f next rest with ⟨rest', stop | last⟩ <;> rfl

private theorem traverseEntries_attempt {entries : List (Tree α × Tree α)}
    (h : ∀ entry ∈ entries,
      (∀ state, (entry.1.traverse (attempt f)).run state = settled (entry.1.visit f state)) ∧
      ∀ state, (entry.2.traverse (attempt f)).run state = settled (entry.2.visit f state))
    (state : σ) :
    (traverseEntries (attempt f) entries).run state = settled (visitEntries f state entries) := by
  induction entries generalizing state with
  | nil => rfl
  | cons entry rest ih =>
    obtain ⟨key, value⟩ := entry
    rw [List.forall_mem_cons] at h
    rw [traverseEntries, run_bind_of_settled (h.1.1 state), visitEntries]
    rcases key.visit f state with ⟨key', stop | next⟩
    · rfl
    · simp only [run_bind_of_settled (h.1.2 next)]
      rcases value.visit f next with ⟨value', stop | next'⟩
      · rfl
      · simp only [run_bind_of_settled (ih h.2 next')]
        rcases visitEntries f next' rest with ⟨rest', stop | last⟩ <;> rfl

/-- Replacing members one by one comes to what visiting them in place comes to. -/
theorem traverse_attempt (tree : Tree α) (state : σ) :
    (tree.traverse (attempt f)).run state = settled (tree.visit f state) := by
  induction tree generalizing state with
  | leaf member =>
    have hmember : (attempt f member).run state = settled (f state member) := rfl
    rw [traverse, run_bind_of_settled hmember, visit]
    rcases f state member with ⟨member', stop | next⟩ <;> rfl
  | scalar value => rfl
  | none => rfl
  | some inner ih =>
    rw [traverse, run_bind_of_settled (ih state), visit]
    rcases inner.visit f state with ⟨inner', stop | next⟩ <;> rfl
  | sequence items ih | set _ items ih =>
    rw [traverse, run_bind_of_settled (traverseAll_attempt ih state), visit]
    rcases visitAll f state items with ⟨items', stop | next⟩ <;> rfl
  | table _ entries ih =>
    rw [traverse, run_bind_of_settled (traverseEntries_attempt ih state), visit]
    rcases visitEntries f state entries with ⟨entries', stop | next⟩ <;> rfl

variable [Ord α] {tree : Tree α} {state : σ}

theorem forEach_eq_visit (hcanonical : (tree.visit f state).1.Canonical) :
    tree.forEach f state = tree.visit f state := by
  exact Prod.ext (rebuild_eq_self .inserted hcanonical) rfl

theorem mapM_attempt (hcanonical : (tree.visit f state).1.Canonical) :
    (tree.mapM (attempt f)).run state = settled (tree.visit f state) := by
  rw [mapM, run_bind_of_settled (traverse_attempt tree state)]
  revert hcanonical
  rcases tree.visit f state with ⟨tree', stop | last⟩
  · exact fun _ => rfl
  · intro hcanonical
    have hrebuild : tree'.rebuild .collected = tree' := rebuild_eq_self .collected hcanonical
    exact congrArg (fun tree => Except.ok (tree, last)) hrebuild

omit [Ord α] in
/-- A row of visits that never fail replaces every member by what the visitor makes of it. -/
theorem visitRow_of_ok {g : α → α} {members : List α}
    (hg : ∀ member ∈ members, ∀ state, ∃ next, f state member = (g member, .ok next))
    (state : σ) : ∃ last, visitRow f state members = (members.map g, .ok last) := by
  induction members generalizing state with
  | nil => exact ⟨state, rfl⟩
  | cons member rest ih =>
    rw [List.forall_mem_cons] at hg
    obtain ⟨next, hnext⟩ := hg.1 state
    obtain ⟨last, hlast⟩ := ih hg.2 next
    exact ⟨last, by simp only [visitRow, hnext, hlast, List.map_cons]⟩

end Replace

/-! ## The laws -/

section Laws

variable [Catalog κ]

/-- Visiting members whose identities stay leaves the containers in order, wherever it stops. -/
theorem canonical_visit {f : σ → Entity κ → Entity κ × Except ε σ} {tree : Tree (Entity κ)}
    (hcanonical : tree.Canonical)
    (hkey : ∀ member ∈ tree.leaves, ∀ state, (f state member).1.key = member.key) (state : σ) :
    (tree.visit f state).1.Canonical := by
  rw [← Entity.canonical_map_key, map_visit hkey, Entity.canonical_map_key]
  exact hcanonical

/-- The laws of traversals, for trees of every shape and visitors that may fail but keep the kind
and the identity of every member.  Following the shape with all omissions, the members are visited
as a row is, in the order of listing and up to the first failure.  The tree keeps its shape and, at
every place, all but the contents of members.  Replacing members by what the visitor makes of them
gives the same tree, or the same failure, and a visitor that never fails has all members replaced.
In an opaque shape there is no member.  A hashed container is visited in whatever order it is
listed, and the places of its members mean nothing afterwards. -/
theorem traversal_laws {shape : Shape κ} {tree : Tree (Entity κ)}
    (hshape : OfShape Entity.kind shape tree) {f : σ → Entity κ → Entity κ × Except ε σ}
    (hkind : ∀ member ∈ tree.leaves, ∀ state, (f state member).1.kind = member.kind)
    (hkey : ∀ member ∈ tree.leaves, ∀ state, (f state member).1.key = member.key) (state : σ) :
    visitShaped f shape state tree = tree.forEach f state ∧
    visitRow f state tree.leaves = ((tree.forEach f state).1.leaves, (tree.forEach f state).2) ∧
    OfShape Entity.kind shape (tree.forEach f state).1 ∧
    ((tree.forEach f state).1.map fun member => (member.kind, member.key)) =
      (tree.map fun member => (member.kind, member.key)) ∧
    (tree.mapM (attempt f)).run state = settled (tree.forEach f state) ∧
    (∀ g, (∀ member ∈ tree.leaves, ∀ state, ∃ next, f state member = (g member, .ok next)) →
      ∃ tree' last, tree.forEach f state = (tree', .ok last) ∧
        (tree.mapM (attempt f)).run state = .ok (tree', last) ∧
          tree'.leaves = tree.leaves.map g) ∧
    (shape.isOpaque = true → tree.leaves = []) := by
  have hcanonical := canonical_visit hshape.canonical hkey state
  have hvisit := forEach_eq_visit hcanonical
  have hrow := visitRow_leaves (f := f) tree state
  have hmapM := mapM_attempt hcanonical
  refine ⟨visitShaped_eq_forEach hshape state, ?_⟩
  rw [hvisit]
  refine ⟨hrow, hshape.visit hkind hcanonical, map_visit (fun member hmember state => ?_) state,
    hmapM, fun g hg => ?_, hshape.leaves_eq_nil⟩
  · rw [hkind member hmember state, hkey member hmember state]
  · obtain ⟨last, hlast⟩ := visitRow_of_ok hg state
    obtain ⟨hleaves, hresult⟩ := Prod.mk.inj (hrow.symm.trans hlast)
    refine ⟨(tree.visit f state).1, last, Prod.ext rfl hresult, ?_, hleaves⟩
    rw [hmapM, settled, hresult]
    rfl

end Laws

open Harbor

def stacked : Tree (Entity Kind) :=
  .table .sorted [
    (.leaf (.ofId .item 1), .table .indexed [
      (text "a", .sequence [.leaf (.ofId .item 3), .leaf (.ofId .item 2)])]),
    (.leaf (.ofId .item 4), .table .indexed [])]

/-- Marks the label of an item, and fails when the countdown is over. -/
def countdown : Nat → Entity Kind → Entity Kind × Except String Nat
  | 0, item => (item.mark 1, .error "over")
  | left + 1, item => (item.mark 1, .ok left)

def count (seen : Nat) (item : Entity Kind) : Entity Kind × Except String Nat :=
  (item.mark 1, .ok (seen + 1))

theorem ofShape_stacked : OfShape Entity.kind
    (.table .sorted (.member Kind.item) (.table .indexed (.scalar .text) (.deque (.member .item))))
    stacked := by
  refine .table ?_ ?_ ?_
  · simp only [List.forall_mem_cons]
    exact ⟨.member rfl, .member rfl, nofun⟩
  · simp only [List.forall_mem_cons]
    refine ⟨.table ?_ ?_ (List.pairwise_singleton ..), .table nofun nofun .nil, nofun⟩
    · simp only [List.forall_mem_cons]
      exact ⟨.scalar .text _, nofun⟩
    · simp only [List.forall_mem_cons]
      refine ⟨.deque ?_, nofun⟩
      simp only [List.forall_mem_cons]
      exact ⟨.member rfl, .member rfl, nofun⟩
  · refine .cons (fun entry hentry => ?_) (List.pairwise_singleton ..)
    rw [List.mem_singleton.1 hentry]
    exact ⟨by decide, fun _ => rfl⟩

/-- The countdown is over at the third of four items; counting reaches all of them. -/
theorem traversal_laws_stacked :
    (stacked.forEach countdown 2).2 = .error "over" ∧
      (stacked.forEach countdown 2).1.leaves.map (·.hasField 1) = [true, true, true, false] ∧
      ((stacked.forEach countdown 2).1.map fun member => (member.kind, member.key)) =
        (stacked.map fun member => (member.kind, member.key)) ∧
      (stacked.mapM (attempt countdown)).run 2 = .error "over" ∧
      ∃ tree' last, stacked.forEach count 0 = (tree', .ok last) ∧
        (stacked.mapM (attempt count)).run 0 = .ok (tree', last) ∧
          tree'.leaves = stacked.leaves.map (·.mark 1) := by
  have hkind : ∀ member ∈ stacked.leaves, ∀ left, (countdown left member).1.kind = member.kind := by
    rintro member - (_ | left) <;> rfl
  have hkey : ∀ member ∈ stacked.leaves, ∀ left, (countdown left member).1.key = member.key := by
    rintro member - (_ | left) <;> rfl
  obtain ⟨-, hrow, -, hform, hmapM, -, -⟩ := traversal_laws ofShape_stacked hkind hkey 2
  obtain ⟨hleaves, hresult⟩ := Prod.mk.inj hrow
  obtain ⟨-, -, -, -, -, hcount, -⟩ := traversal_laws ofShape_stacked (f := count)
    (fun _ _ _ => rfl) (fun _ _ _ => rfl) 0
  have hover : (stacked.forEach countdown 2).2 = .error "over" := hresult.symm.trans rfl
  refine ⟨hover, ?_, hform, ?_, hcount (·.mark 1) fun _ _ seen => ⟨seen + 1, rfl⟩⟩
  · rw [← hleaves]
    rfl
  · rw [hmapM, settled, hover]
    rfl

end Tree

end PartialEntity
