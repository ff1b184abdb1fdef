import PartialEntity.Proofs.Entity.Answer
import PartialEntity.Proofs.Entity.Flat

/-!
# What extending leaves alone

Extending an entity changes no field that the extension does not hold, whether it succeeds or not.
-/

namespace PartialEntity.Entity

variable {κ : Type} [Catalog κ]

/-- Whether an entity came out of another one by a change of the given fields only, which keeps
the fields that store no members as their kind says. -/
structure ChangedAt (fields : Nat → Prop) (entity changed : Entity κ) : Prop where
  kind : changed.kind = entity.kind
  hasField : ∀ field, ¬fields field → changed.hasField field = entity.hasField field
  slot : ∀ field, ¬fields field → changed.slot field = entity.slot field
  plain : entity.Plain → changed.Plain

namespace ChangedAt

variable {fields : Nat → Prop} {entity changed : Entity κ} {field : Nat}

theorem refl (fields : Nat → Prop) (entity : Entity κ) : ChangedAt fields entity entity :=
  ⟨rfl, fun _ _ => rfl, fun _ _ => rfl, fun h => h⟩

/-- Two changes of the same fields are one. -/
theorem trans {further : Entity κ} (h : ChangedAt fields entity changed)
    (hfurther : ChangedAt fields changed further) : ChangedAt fields entity further where
  kind := hfurther.kind.trans h.kind
  hasField field hfield := (hfurther.hasField field hfield).trans (h.hasField field hfield)
  slot field hfield := (hfurther.slot field hfield).trans (h.slot field hfield)
  plain hplain := hfurther.plain (h.plain hplain)

theorem mono {more : Nat → Prop} (h : ChangedAt fields entity changed)
    (himp : ∀ field, fields field → more field) : ChangedAt more entity changed where
  kind := h.kind
  hasField field hfield := h.hasField field fun hin => hfield (himp field hin)
  slot field hfield := h.slot field fun hin => hfield (himp field hin)
  plain := h.plain

omit [Catalog κ] in
theorem slot_store_of_ne {other : Nat} (hne : field ≠ other) (value : Tree (Entity κ)) :
    (entity.store field value).slot other = entity.slot other := by
  simp only [Entity.store, Entity.slot, List.getD_eq_getElem?_getD, List.getElem?_set, hne,
    if_false]

/-- A value that a nested field stores may be replaced by any other. -/
theorem store (hfield : fields field) {member : κ} {shape : Shape κ}
    (hcontent : Catalog.content? entity.kind field = some (.nested member shape))
    (value : Tree (Entity κ)) : ChangedAt fields entity (entity.store field value) := by
  have hne : ∀ other, ¬fields other → field ≠ other := by
    rintro other hother rfl
    exact hother hfield
  constructor
  · rfl
  · exact fun _ _ => rfl
  · exact fun other hother => slot_store_of_ne (hne other hother) value
  · intro hplain
    have hother : ∀ other content, Catalog.content? entity.kind other = some content →
        (∀ member shape, content ≠ .nested member shape) → field ≠ other := by
      rintro other content hother hnested rfl
      rw [hcontent] at hother
      exact hnested member shape (Option.some.inj hother).symm
    constructor
    · intro other hidentity
      rw [slot_store_of_ne (hother other _ hidentity nofun)]
      exact hplain.identity other hidentity
    · intro other type hscalar
      rw [slot_store_of_ne (hother other _ hscalar nofun)]
      exact hplain.plain other type hscalar

theorem mark (hfield : fields field) : ChangedAt fields entity (entity.mark field) := by
  constructor
  · rfl
  · intro other hother
    rw [Entity.hasField, Entity.mark, FieldSet.contains_insert]
    have hne : field ≠ other := by
      rintro rfl
      exact hother hfield
    rw [decide_eq_false hne, Bool.or_false]
    rfl
  · exact fun _ _ => rfl
  · exact fun hplain => ⟨hplain.identity, hplain.plain⟩

/-- A plain field may take over the value that another entity of the kind stores there. -/
theorem assign_plain (hfield : fields field) {other : Entity κ} (hother : other.Plain)
    (hkind : entity.kind = other.kind)
    (hcontent : Catalog.content? entity.kind field ≠ some .identity) :
    ChangedAt fields entity (entity.assign field (other.slot field)) := by
  constructor
  · rfl
  · intro next hnext
    rw [hasField_assign]
    have hne : field ≠ next := by
      rintro rfl
      exact hnext hfield
    rw [decide_eq_false hne, Bool.or_false]
  · intro next hnext
    rw [slot_assign, if_neg]
    rintro ⟨rfl, -⟩
    exact hnext hfield
  · intro hplain
    constructor
    · intro next hidentity
      rw [slot_assign, if_neg]
      · exact hplain.identity next hidentity
      · rintro ⟨rfl, -⟩
        exact hcontent hidentity
    · intro next type hscalar
      rw [slot_assign]
      split
      · rename_i hsame
        obtain ⟨rfl, -⟩ := hsame
        exact hother.plain field type (hkind ▸ hscalar)
      · exact hplain.plain next type hscalar

end ChangedAt

/-! ## Extending -/

variable [DecidableEq κ] {graph : Graph κ} {entity extension : Entity κ} {field : Nat}

omit [DecidableEq κ] in
/-- Steps that keep an invariant and change given fields only do so one after the other. -/
theorem changedAt_forFields {fields : Nat → Prop} {invariant : Entity κ → Prop}
    {change : Nat → Entity κ → Entity κ × Except Error Unit} {listed : List Nat}
    (hchange : ∀ field ∈ listed, ∀ next, invariant next →
      invariant (change field next).1 ∧ ChangedAt fields next (change field next).1)
    (hstart : invariant entity) : ChangedAt fields entity (forFields change listed entity).1 := by
  induction listed generalizing entity with
  | nil => exact .refl fields entity
  | cons field rest ih =>
    obtain ⟨hkept, hfirst⟩ := hchange field (List.mem_cons_self ..) entity hstart
    rw [forFields]
    split
    · rename_i heq
      rw [heq] at hfirst
      exact hfirst
    · rename_i heq
      rw [heq] at hfirst hkept
      exact hfirst.trans
        (ih (fun other hother => hchange other (List.mem_cons_of_mem _ hother)) hkept)

/-- Changing members under a field changes nothing but this field, even if it fails. -/
theorem changedAt_forMembers {fields : Nat → Prop} (hfield : fields field)
    (change : Entity κ → Entity κ × Except Error Unit) (entity : Entity κ) :
    ChangedAt fields entity (forMembers change field entity).1 := by
  rw [forMembers]
  cases hdescend : descend entity.kind field with
  | error stop => exact .refl fields entity
  | ok member =>
    obtain ⟨-, shape, hcontent, -⟩ := descend_eq_ok_iff.1 hdescend
    exact .store hfield hcontent _

/-- Pulling a field changes nothing but this field. -/
theorem changedAt_pull {fields : Nat → Prop} (hfield : fields field)
    (hextension : extension.Plain) (hkind : entity.kind = extension.kind)
    {subgraph : Option (Graph κ)} {pulled : Entity κ}
    (hpull : entity.pull field extension subgraph = .ok pulled) :
    ChangedAt fields entity pulled := by
  rcases pull_cases hpull with ⟨-, rfl⟩ | ⟨_, _, value, hcontent, -, rfl⟩ |
    ⟨hidentity, -, rfl⟩
  · have hmark : ChangedAt fields entity (entity.mark field) := .mark hfield
    exact ⟨hmark.kind, hmark.hasField, hmark.slot, fun hplain =>
      ⟨(hmark.plain hplain).identity, (hmark.plain hplain).plain⟩⟩
  · exact (ChangedAt.store hfield hcontent value).trans (.mark hfield)
  · exact .assign_plain hfield hextension hkind hidentity

/-- Merging one field changes that field only. -/
theorem changedAt_extendField (graph : Graph κ) (hextension : extension.Plain)
    (hkind : entity.kind = extension.kind) (field : Nat) :
    ChangedAt (· = field) entity (extendField graph extension field entity).1 := by
  rw [extendField]
  split
  · split
    · exact changedAt_forMembers (by rfl) _ entity
    · exact .refl _ entity
  · split
    · exact .refl _ entity
    · rename_i pulled hpull
      exact changedAt_pull (by rfl) hextension hkind hpull

/-- Extending changes only fields that the extension holds. -/
theorem changedAt_extendWith (graph : Graph κ) (hextension : extension.Plain)
    (hkind : entity.kind = extension.kind) :
    ChangedAt (fun field => extension.hasField field = true) entity
      (extendWith graph extension entity).1 := by
  rw [extendWith_eq]
  let invariant : Entity κ → Prop := fun next => next.kind = extension.kind
  have hstart : invariant entity := hkind
  refine changedAt_forFields (fun field hfield next hnext => ?_) hstart
  have hheld : extension.hasField field = true := FieldSet.mem_toList.1 hfield
  have hfirst := changedAt_extendField graph hextension hnext field
  refine ⟨hfirst.kind.trans hnext, hfirst.mono ?_⟩
  rintro _ rfl
  exact hheld

/-- An attempt to extend that succeeds has either found nothing missing and changed nothing, or
changed only fields that the answer holds. -/
theorem changedAt_extend {resolve : Graph κ → Except Error (Option (Entity κ))}
    (hresolve : ∀ asked extension, resolve asked = .ok (some extension) →
      extension.Plain ∧ entity.kind = extension.kind) {done : Bool}
    (hok : (entity.extend graph resolve).result = .ok done) :
    ((entity.extend graph resolve).asked = none ∧ (entity.extend graph resolve).entity = entity) ∨
      ∃ missing extension, (entity.extend graph resolve).asked = some missing ∧
        resolve missing = .ok (some extension) ∧
          ChangedAt (fun field => extension.hasField field = true) entity
            (entity.extend graph resolve).entity := by
  rw [extend] at hok ⊢
  cases hmissing : missingGraph graph entity with
  | error stop =>
    rw [hmissing] at hok
    cases hok
  | ok missing =>
    rw [hmissing] at hok
    by_cases hempty : missing.isEmpty = true
    · left
      simp only [hempty, if_true, and_self]
    · simp only [hempty, Bool.false_eq_true, if_false] at hok ⊢
      obtain ⟨extension, hanswer, -, habsorb⟩ := absorb_of_ok hok
      obtain ⟨hplain, hkind⟩ := hresolve missing extension hanswer
      refine .inr ⟨missing, extension, rfl, hanswer, ?_⟩
      rw [habsorb]
      exact changedAt_extendWith missing hplain hkind

end PartialEntity.Entity
