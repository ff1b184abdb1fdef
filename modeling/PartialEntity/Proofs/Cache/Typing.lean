import PartialEntity.Proofs.Cache.Storage
import PartialEntity.Proofs.Entity.Narrowing

/-!
# Caches of well-typed entities

When the values that are written and the answers of resolvers are as their kind says, at every
depth, so is everything that a cache stores, copies and gives to a read.  The value that a read is
supplied with carries all that the read requests.
-/

namespace PartialEntity.Cache

open Entity

variable {κ : Type} [Catalog κ]

/-- Whether every answer of a resolver is of a kind, and as its kind says at every depth. -/
def WellTypedAnswers (kind : κ) (resolver : Resolver κ) : Prop :=
  ∀ id graph value, resolver id graph = .ok (some value) → WellTyped kind value

theorem typed_of_wellTyped {kind : κ} {value : Entity κ} (h : WellTyped kind value) :
    Typed kind value :=
  ⟨h.kind_eq, h.fits.self.plainFields⟩

variable [DecidableEq κ] {empty cache next : Cache κ} {reads : List (Read κ)} {kind : κ}
  {value projection : Entity κ}

theorem Run.mono {given given' : Entity κ → Prop} {answers answers' : Resolver κ → Prop}
    (hrun : Run given answers empty cache reads) (hgiven : ∀ value, given value → given' value)
    (hanswers : ∀ resolver, answers resolver → answers' resolver) :
    Run given' answers' empty cache reads := by
  induction hrun with
  | empty => exact .empty
  | start _ id hgraph hkind ih => exact ih.start id hgraph hkind
  | finish _ arrival hresolver ih => exact ih.finish arrival (hanswers _ hresolver)
  | put _ hvalue hput ih => exact ih.put (hgiven _ hvalue) hput
  | merge _ hvalue hmerge ih => exact ih.merge (hgiven _ hvalue) hmerge
  | clear _ clearing ih => exact ih.clear clearing

theorem Run.typed (hrun : Run (WellTyped kind) (WellTypedAnswers kind) empty cache reads) :
    Run (Typed kind) (TypedAnswers kind) empty cache reads :=
  hrun.mono (fun _ => typed_of_wellTyped) fun _ hresolver id graph value hvalue =>
    typed_of_wellTyped (hresolver id graph value hvalue)

/-! ## Supplies -/

section Supply

variable {read : Read κ} {resolver : Resolver κ} {arrival : Arrival}

/-- The value that a read is supplied with is as its kind says and carries all that was
requested. -/
theorem wellTyped_supply (hrequest : read.request.WellFormed) (hkind : read.request.kind = kind)
    (hsnapshot : ∀ copy, read.snapshot = some copy → WellTyped kind copy)
    (hresolver : WellTypedAnswers kind resolver)
    (hvalue : (read.supply arrival resolver).value = .ok (some value)) :
    WellTyped kind value ∧ ∀ path, read.request.selects path = true → value.Carries path := by
  cases hcopy : read.snapshot with
  | none =>
    obtain ⟨hanswer, hcomplete⟩ := (value_supply_of_miss hcopy).1 hvalue
    have htyped := hresolver _ _ _ hanswer
    exact ⟨htyped,
      (hasGraph_iff hrequest (hkind.trans htyped.kind_eq.symm) htyped.fits).1 hcomplete⟩
  | some copy =>
    have hfits := hsnapshot copy hcopy
    rw [supply_of_snapshot hcopy] at hvalue
    obtain ⟨done, hdone, heq⟩ := Result.map_eq_ok_iff.1 hvalue
    cases heq
    constructor
    · exact wellTyped_extend hfits fun asked extension h => hresolver _ _ _ (present_iff.1 h)
    · refine (carries_extend hrequest (hkind.trans hfits.kind_eq.symm) hfits.fits
        (fun asked extension h => ?_) hdone).2
      have htyped := hresolver _ _ _ (present_iff.1 h)
      exact ⟨htyped.kind_eq.trans hfits.kind_eq.symm, htyped.fits⟩

end Supply

/-! ## Storing -/

theorem wellTyped_project (hvalue : WellTyped kind value)
    (hproject : cache.project value = .ok (some projection)) : WellTyped kind projection :=
  wellTyped_cloneGraph hvalue (project_eq_some_iff.1 hproject).2

theorem Stores.refresh_wellTyped (hcache : cache.Stores fun _ => WellTyped kind)
    (hvalue : WellTyped kind value) {events : List (Event κ)}
    (hrefresh : cache.refresh value = .ok (next, events)) :
    next.Stores fun _ => WellTyped kind :=
  hcache.refresh (fun _ hproject => wellTyped_project hvalue hproject)
    (fun _ _ hentry hproject => wellTyped_pullAll hentry (wellTyped_project hvalue hproject))
    hrefresh

/-- Whatever values of a kind are put and answered, what is stored and what pending reads have
copied is as its kind says.  Pending reads request graphs over the kind. -/
theorem Run.wellTyped (hempty : empty.entries = []) (hkind : empty.kind = kind)
    (hrun : Run (WellTyped kind) (WellTypedAnswers kind) empty cache reads) :
    (cache.Stores fun _ => WellTyped kind) ∧ ∀ read ∈ reads,
      (read.request.WellFormed ∧ read.request.kind = kind) ∧
        ∀ copy, read.snapshot = some copy → WellTyped kind copy := by
  induction hrun with
  | empty =>
    constructor
    · intro id entry hmem
      rw [hempty] at hmem
      exact absurd hmem List.not_mem_nil
    · exact fun _ hread => absurd hread List.not_mem_nil
  | @start cache reads hrun id graph hgraph hgraphKind ih =>
    have hsame : cache.kind = kind := hrun.kind_eq.trans hkind
    refine ⟨ih.1, List.forall_mem_cons.2 ⟨⟨⟨?_, ?_⟩, ?_⟩, ih.2⟩⟩
    · exact wellFormed_request cache hgraph
    · exact (kind_request cache graph).trans (hgraphKind.trans hsame)
    · intro copy hcopy
      obtain ⟨entry, hfind, rfl⟩ := Option.map_eq_some_iff.1 hcopy
      exact wellTyped_cloneAll (ih.1.of_find? hfind)
  | @finish cache before after read hrun arrival resolver hresolver ih =>
    constructor
    · apply ih.1.finish
      intro value hvalue next events hrefresh
      obtain ⟨⟨hrequest, hrequestKind⟩, hsnapshot⟩ := ih.2 read (by simp)
      exact ih.1.refresh_wellTyped
        (wellTyped_supply hrequest hrequestKind hsnapshot hresolver hvalue).1 hrefresh
    · intro read hread
      apply ih.2
      rw [List.mem_append] at hread ⊢
      exact hread.imp_right (List.mem_cons_of_mem _)
  | put hrun hvalue hput ih =>
    exact ⟨ih.1.put (fun _ hproject => wellTyped_project hvalue hproject) hput, ih.2⟩
  | merge hrun hvalue hmerge ih => exact ⟨ih.1.refresh_wellTyped hvalue hmerge, ih.2⟩
  | clear hrun clearing ih =>
    refine ⟨ih.1.clearing (fun id entry fields hentry _ => ?_) clearing, ih.2⟩
    exact wellTyped_clearFields hentry fields

theorem Run.stores_storable (hempty : empty.entries = []) (hkind : empty.kind = kind)
    (hrun : Run (WellTyped kind) (WellTypedAnswers kind) empty cache reads) :
    cache.Stores (Storable cache.settings) := by
  subst hkind
  rw [hrun.settings_eq]
  exact (hrun.typed.storable hempty).1

/-- A read that starts in a run requests a graph over the kind, and what it copies is of the kind
and stands under its id. -/
theorem Run.started (hempty : empty.entries = []) (hkind : empty.kind = kind)
    (hrun : Run (WellTyped kind) (WellTypedAnswers kind) empty cache reads) (id : Nat)
    {graph : Graph κ} (hgraph : graph.WellFormed) (hgraphKind : graph.kind = kind) :
    ((cache.request graph).WellFormed ∧ (cache.request graph).kind = kind) ∧
      ∀ copy, cache.cached id = some copy → WellTyped kind copy ∧ copy.id = id := by
  subst hkind
  have hsame : cache.kind = empty.kind := hrun.kind_eq
  have hstarted := hrun.start id hgraph (hgraphKind.trans hsame.symm)
  obtain ⟨hrequest, hsnapshot⟩ := (hstarted.wellTyped hempty rfl).2 _ (List.mem_cons_self ..)
  obtain hstorable := (hstarted.typed.storable hempty).2 _ (List.mem_cons_self ..)
  exact ⟨hrequest, fun copy hcopy => ⟨hsnapshot copy hcopy, (hstorable copy hcopy).id_eq⟩⟩

end PartialEntity.Cache
