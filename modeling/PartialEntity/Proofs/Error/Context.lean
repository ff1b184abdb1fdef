import Mathlib
import PartialEntity.Error

/-!
# What context keeps

Adding context puts one layer in front of the faults of an error and leaves these as they are.  So
nothing of the error is lost, whatever the context is and however much of it is added: the innermost
fault stays the same, the wording ends with that of the error, and what is looked for in the whole
chain is still found.

Of the context itself only the outermost fault can become a layer.  A context with causes of its
own gives way to an unknown fault, and one that someone else still holds to its mere wording.
-/

namespace PartialEntity.Error

variable {error remark : Error} {held : Bool} {category : Category}

/-! ## One layer -/

def layer (remark : Error) (held : Bool) : Fault :=
  match remark.causes with
  | [] => if held then .adhoc remark.outer.message else remark.outer
  | _ :: _ => .unknown

theorem layer_of_causes (h : remark.causes ≠ []) : remark.layer held = .unknown := by
  obtain ⟨outer, _ | ⟨cause, causes⟩⟩ := remark
  · exact absurd rfl h
  · rfl

theorem layer_free (h : remark.causes = []) : remark.layer false = remark.outer := by
  rw [layer, h]
  rfl

theorem layer_held (h : remark.causes = []) :
    remark.layer true = .adhoc remark.outer.message := by
  rw [layer, h]
  rfl

theorem context_eq (error remark : Error) (held : Bool) :
    error.context remark held = ⟨remark.layer held, error.chain⟩ := by
  obtain ⟨outer, _ | ⟨cause, causes⟩⟩ := remark <;> rfl

@[simp]
theorem chain_context (error remark : Error) (held : Bool) :
    (error.context remark held).chain = remark.layer held :: error.chain := by
  rw [context_eq]
  rfl

/-! ## Wording -/

theorem message_of_causes_eq_nil (h : remark.causes = []) :
    remark.message = remark.outer.message := by
  rw [message, chain, h]
  exact String.intercalate_singleton

theorem message_context (error remark : Error) (held : Bool) :
    (error.context remark held).message =
      (remark.layer held).message ++ ": " ++ error.message := by
  rw [message, chain_context, message, chain]
  exact String.intercalate_cons_cons

/-- A layer shows the remark, unless the remark has causes. -/
theorem message_layer (remark : Error) (held : Bool) :
    (remark.layer held).message =
      if remark.causes = [] then remark.message else Fault.unknown.message := by
  by_cases hcauses : remark.causes = []
  · rw [if_pos hcauses, message_of_causes_eq_nil hcauses]
    cases held with
    | false => rw [layer_free hcauses]
    | true => rw [layer_held hcauses]; rfl
  · rw [if_neg hcauses, layer_of_causes hcauses]

/-- No error with causes reads like an unknown fault: its wording has a colon in it. -/
theorem message_ne_unknown (h : remark.causes ≠ []) : remark.message ≠ Fault.unknown.message := by
  obtain ⟨outer, _ | ⟨cause, causes⟩⟩ := remark
  · exact absurd rfl h
  · have hcolon : ':' ∈ (message ⟨outer, cause :: causes⟩).toList := by
      rw [message, chain, List.map_cons, List.map_cons, String.intercalate_cons_cons]
      simp
    intro heq
    rw [heq] at hcolon
    exact absurd hcolon (by decide)

/-! ## Categories -/

/-- Without causes there is only the outermost fault to look at. -/
theorem is_of_causes_eq_nil (h : remark.causes = []) :
    remark.is category = (remark.outer.category? == some category) := by
  rw [is, chain, h]
  cases category.seesThroughContext with
  | false => rfl
  | true => exact Bool.or_false _

/-- A layer is of the category of the remark if it is the remark itself; otherwise it is of none
but, at most, that of free messages. -/
theorem category_layer (remark : Error) (held : Bool) (h : category ≠ .adhoc) :
    ((remark.layer held).category? == some category) =
      (decide (remark.causes = []) && !held && remark.is category) := by
  by_cases hcauses : remark.causes = []
  · rw [decide_eq_true hcauses, is_of_causes_eq_nil hcauses]
    cases held with
    | false => rw [layer_free hcauses]; rfl
    | true =>
      rw [layer_held hcauses]
      exact beq_eq_false_iff_ne.2 fun heq => h (Option.some.inj heq).symm
  · rw [decide_eq_false hcauses, layer_of_causes hcauses]
    rfl

theorem is_eq_any (h : category.seesThroughContext = true) :
    error.is category = error.chain.any fun fault => fault.category? == some category :=
  if_pos h

theorem is_context (error remark : Error) (held : Bool)
    (h : category.seesThroughContext = true) :
    (error.context remark held).is category =
      (error.is category || (decide (remark.causes = []) && !held && remark.is category)) := by
  have hadhoc : category ≠ .adhoc := by
    rintro rfl
    cases h
  rw [is_eq_any h, chain_context, List.any_cons, category_layer remark held hadhoc, ← is_eq_any h,
    Bool.or_comm]

/-- Whether settings are at fault is asked of the outermost layer alone. -/
theorem is_invalidConfiguration_context (error remark : Error) (held : Bool) :
    (error.context remark held).is .invalidConfiguration =
      (decide (remark.causes = []) && !held && remark.is .invalidConfiguration) := by
  rw [context_eq]
  exact category_layer remark held nofun

/-! ## What becomes of the context -/

/-- Context keeps its wording exactly if it has no causes of its own; otherwise an unknown fault is
shown in its place.  It keeps a category exactly if besides nobody else holds it, or if the error
is of that category anyway.  So its wording does not depend on who holds it, but its category
does. -/
theorem context_kept_iff (error remark : Error) (held : Bool) :
    ((error.context remark held).message = remark.message ++ ": " ++ error.message ↔
        remark.causes = []) ∧
      (remark.causes ≠ [] →
        (error.context remark held).message = "unknown fieldwise error: " ++ error.message) ∧
      (error.context remark true).message = (error.context remark false).message ∧
      ∀ category, category.seesThroughContext = true →
        ((error.context remark held).is category = (error.is category || remark.is category) ↔
          (remark.is category = true →
            error.is category = true ∨ remark.causes = [] ∧ held = false)) ∧
        ((error.context remark true).is category = (error.context remark false).is category ↔
          (remark.is category = true → error.is category = true ∨ remark.causes ≠ [])) := by
  refine ⟨?_, fun hcauses => ?_, ?_, fun category hsees => ⟨?_, ?_⟩⟩
  · rw [message_context, message_layer]
    by_cases hcauses : remark.causes = []
    · simp only [hcauses, if_true]
    · rw [if_neg hcauses, String.append_left_inj, String.append_left_inj]
      exact iff_of_false (message_ne_unknown hcauses).symm hcauses
  · rw [message_context, message_layer, if_neg hcauses]
    rfl
  · rw [message_context, message_context, message_layer, message_layer]
  · rw [is_context error remark held hsees]
    cases error.is category <;> cases remark.is category <;> cases held <;>
      by_cases hcauses : remark.causes = [] <;> simp [hcauses]
  · rw [is_context error remark true hsees, is_context error remark false hsees]
    cases error.is category <;> cases remark.is category <;>
      by_cases hcauses : remark.causes = [] <;> simp [hcauses]

def openingHarbor : Error :=
  (of (.entityUnavailable "Boat(1)")).context (of (.adhoc "opening the harbor")) false

/-- The remark about the harbor and the boat is lost in front of another error. -/
theorem context_lost_openingHarbor :
    openingHarbor.message = "opening the harbor: entity unavailable: Boat(1)" ∧
      openingHarbor.is .entityUnavailable = true ∧
      ((of (.adhoc "no berth")).context openingHarbor false).message =
        "unknown fieldwise error: no berth" ∧
      ((of (.adhoc "no berth")).context openingHarbor false).is .entityUnavailable ≠
        ((of (.adhoc "no berth")).is .entityUnavailable ||
          openingHarbor.is .entityUnavailable) := by
  obtain ⟨-, hunknown, -, hcategory⟩ :=
    context_kept_iff (of (.adhoc "no berth")) openingHarbor false
  have hcauses : openingHarbor.causes ≠ [] := List.cons_ne_nil _ _
  refine ⟨by decide, rfl, (hunknown hcauses).trans (by decide), fun hkept => ?_⟩
  rcases (hcategory .entityUnavailable rfl).1.1 hkept rfl with hberth | ⟨hnone, -⟩
  · cases hberth
  · exact hcauses hnone

/-! ## Context after context -/

/-- An error after remarks are put in front of it one after the other, each with whether someone
else holds it. -/
def contexts (error : Error) (remarks : List (Error × Bool)) : Error :=
  remarks.foldl (fun error remark => error.context remark.1 remark.2) error

theorem contexts_concat (error : Error) (remarks : List (Error × Bool)) (last : Error × Bool) :
    error.contexts (remarks ++ [last]) = (error.contexts remarks).context last.1 last.2 :=
  List.foldl_append

def layers (remarks : List (Error × Bool)) : List Fault :=
  (remarks.map fun remark => remark.1.layer remark.2).reverse

theorem layers_ne_nil {remarks : List (Error × Bool)} (h : remarks ≠ []) : layers remarks ≠ [] := by
  simpa [layers] using h

theorem chain_contexts (error : Error) (remarks : List (Error × Bool)) :
    (error.contexts remarks).chain = layers remarks ++ error.chain := by
  induction remarks using List.reverseRecOn with
  | nil => rfl
  | append_singleton earlier last ih =>
    rw [contexts_concat, chain_context, ih, layers, layers, List.map_append, List.reverse_append]
    rfl

theorem root_context (error remark : Error) (held : Bool) :
    (error.context remark held).root = error.root := by
  rw [context_eq, root, root, chain, List.getLastD_cons]

theorem root_contexts (error : Error) (remarks : List (Error × Bool)) :
    (error.contexts remarks).root = error.root :=
  List.foldlRecOn (motive := fun wrapped : Error => wrapped.root = error.root) _ _ rfl
    fun wrapped hwrapped remark _ => (root_context wrapped remark.1 remark.2).trans hwrapped

theorem message_contexts (error : Error) {remarks : List (Error × Bool)} (h : remarks ≠ []) :
    (error.contexts remarks).message =
      ": ".intercalate ((layers remarks).map Fault.message) ++ ": " ++ error.message := by
  rw [message, chain_contexts, List.map_append, String.intercalate_append_of_ne_nil]
  · rfl
  · simpa using layers_ne_nil h
  · simp [chain]

/-- What is looked for in the whole chain is found in every error that has it. -/
theorem is_contexts_of_is (remarks : List (Error × Bool))
    (h : category.seesThroughContext = true) (hcategory : error.is category = true) :
    (error.contexts remarks).is category = true := by
  rw [is_eq_any h] at hcategory ⊢
  rw [chain_contexts, List.any_append, hcategory, Bool.or_true]

/-! ## Offsets -/

theorem offset?_layer (held : Bool) (h : remark.offset? = none) :
    (remark.layer held).offset? = none := by
  have houter : remark.outer.offset? = none :=
    List.findSome?_eq_none_iff.1 h remark.outer (List.mem_cons_self ..)
  by_cases hcauses : remark.causes = []
  · cases held with
    | false => rwa [layer_free hcauses]
    | true => rw [layer_held hcauses]; rfl
  · rw [layer_of_causes hcauses]
    rfl

/-- A name that is not recognised always has an offset. -/
theorem unknownName?_of_offset? {fault : Fault} (h : fault.offset? = none) :
    fault.unknownName? = none := by
  cases fault with
  | unknownField => cases h
  | _ => rfl

section Offsets

variable {remarks : List (Error × Bool)} (h : ∀ remark ∈ remarks, remark.1.offset? = none)

include h

theorem offset?_of_mem_layers {fault : Fault} (hfault : fault ∈ layers remarks) :
    fault.offset? = none := by
  obtain ⟨remark, hremark, rfl⟩ := List.mem_map.1 (List.mem_reverse.1 hfault)
  exact offset?_layer remark.2 (h remark hremark)

theorem offset?_contexts (error : Error) : (error.contexts remarks).offset? = error.offset? := by
  rw [offset?, chain_contexts, List.findSome?_append,
    List.findSome?_eq_none_iff.2 fun fault hfault => offset?_of_mem_layers h hfault]
  rfl

theorem unknownName?_contexts (error : Error) :
    (error.contexts remarks).unknownName? = error.unknownName? := by
  have hlayers : (layers remarks).findSome? Fault.unknownName? = none :=
    List.findSome?_eq_none_iff.2 fun fault hfault =>
      unknownName?_of_offset? (offset?_of_mem_layers h hfault)
  rw [unknownName?, chain_contexts, List.findSome?_append, hlayers]
  rfl

end Offsets

/-! ## What becomes of the error -/

/-- However much context is added, the error stays the root, its wording stands at the end, it is
still found under every category that is looked for in the whole chain, and its offset and
unrecognised name are reported if no context has an offset.  Whether settings are at fault is
decided by the last context alone. -/
theorem contexts_keep (error : Error) (remarks : List (Error × Bool)) (h : remarks ≠ []) :
    (error.contexts remarks).root = error.root ∧
      (∃ front, (error.contexts remarks).message = front ++ ": " ++ error.message) ∧
      (∀ category, category ≠ .adhoc → category ≠ .invalidConfiguration →
        error.is category = true → (error.contexts remarks).is category = true) ∧
      ((error.contexts remarks).is .invalidConfiguration = true ↔
        (remarks.getLast h).1.causes = [] ∧ (remarks.getLast h).2 = false ∧
          (remarks.getLast h).1.is .invalidConfiguration = true) ∧
      ((∀ remark ∈ remarks, remark.1.offset? = none) →
        (error.contexts remarks).offset? = error.offset? ∧
          (error.contexts remarks).unknownName? = error.unknownName?) := by
  refine ⟨root_contexts error remarks, ⟨_, message_contexts error h⟩, ?_, ?_, fun hoffset => ?_⟩
  · intro category hadhoc hinvalid hcategory
    refine is_contexts_of_is remarks ?_ hcategory
    cases category with
    | adhoc => exact absurd rfl hadhoc
    | invalidConfiguration => exact absurd rfl hinvalid
    | _ => rfl
  · have hlast := contexts_concat error remarks.dropLast (remarks.getLast h)
    rw [List.dropLast_append_getLast h] at hlast
    rw [hlast, is_invalidConfiguration_context]
    simp [and_assoc]
  · exact ⟨offset?_contexts hoffset error, unknownName?_contexts hoffset error⟩

/-- A misspelt name in settings, behind remarks of each sort: one that is held elsewhere, one with
causes and one that is neither.  The name is still found, but no longer that settings are at
fault. -/
theorem contexts_keep_misspelt :
    let error := (of (.unknownField "Person" "nmae" 5)).context
      (of (.invalidConfiguration "nothing to cache")) false
    let remarks := [(of (.typeMismatch "boat" "Boat" "Marina"), true), (openingHarbor, false),
      (of (.adhoc "starting"), false)]
    remarks ≠ [] ∧ (∀ remark ∈ remarks, remark.1.offset? = none) ∧
      (error.contexts remarks).root = error.root ∧
      (error.is .unknownField = true ∧ (error.contexts remarks).is .unknownField = true) ∧
      (error.is .invalidConfiguration = true ∧
        (error.contexts remarks).is .invalidConfiguration ≠ true) ∧
      (error.contexts remarks).offset? = some 5 ∧
      (error.contexts remarks).unknownName? = some ("nmae", 5) := by
  intro error remarks
  have hremarks : remarks ≠ [] := List.cons_ne_nil _ _
  have hoffset : ∀ remark ∈ remarks, remark.1.offset? = none := by decide
  obtain ⟨hroot, -, hcategory, hlast, hkept⟩ := contexts_keep error remarks hremarks
  have hname : error.is .unknownField = true := rfl
  refine ⟨hremarks, hoffset, hroot, ⟨hname, hcategory .unknownField nofun nofun hname⟩,
    ⟨rfl, fun hsettings => ?_⟩, hkept hoffset⟩
  cases (hlast.1 hsettings).2.2

end PartialEntity.Error
