import Mathlib
import PartialEntity.Proofs.Batch.Origin

/-!
# What becomes of requests

A request is made, it is queued, and it is marked when it has come to an end.  Nothing else happens
to it, whatever is done with the batcher.  So it stays tied to its job, and the end that it has come
to is final.
-/

namespace PartialEntity

open Batch

variable {κ : Type}

namespace Batch.Request

/-- What can happen to a request in one step.  It is marked only with one of the given standings,
and whether it can be queued is given too. -/
inductive Turn (marks : Standing → Prop) (queues : Prop) : Option Request → Option Request → Prop
  | stay (request : Option Request) : Turn marks queues request request
  | make : Turn marks queues none (some .fresh)
  | mark (request : Request) {standing : Standing} (hmarks : marks standing) :
      Turn marks queues (some request) (some (request.mark standing))
  | queue (standing : Standing) (job : Nat) (hqueues : queues) :
      Turn marks queues (some ⟨standing, none⟩) (some ⟨standing, some job⟩)

/-- What a request can become: it stays tied to its job, and how it has ended does not change. -/
structure Precedes (before after : Request) : Prop where
  job : ∀ number, before.job = some number → after.job = some number
  standing : before.standing ≠ .pending → after.standing = before.standing

namespace Precedes

theorem refl (request : Request) : request.Precedes request :=
  ⟨fun _ h => h, fun _ => rfl⟩

theorem trans {before after last : Request} (h : before.Precedes after)
    (hlast : after.Precedes last) : before.Precedes last where
  job number hjob := hlast.job number (h.job number hjob)
  standing hended := by
    have hsame := h.standing hended
    rw [← hsame] at hended ⊢
    exact hlast.standing hended

theorem mark (standing : Standing) (request : Request) :
    request.Precedes (request.mark standing) := by
  unfold Request.mark
  split
  · rename_i hpending
    exact ⟨fun _ h => h, fun hended => absurd hpending hended⟩
  · exact refl request

end Precedes

namespace Turn

variable {marks : Standing → Prop} {queues : Prop} {before after : Option Request}

theorem precedes (h : Turn marks queues before after) {request : Request}
    (hrequest : before = some request) :
    ∃ later : Request, after = some later ∧ request.Precedes later := by
  cases h with
  | stay => exact ⟨request, hrequest, .refl request⟩
  | make => cases hrequest
  | mark =>
    obtain rfl := Option.some.inj hrequest
    exact ⟨_, rfl, .mark _ _⟩
  | queue standing job =>
    obtain rfl := Option.some.inj hrequest
    refine ⟨_, rfl, fun _ hjob => ?_, fun _ => rfl⟩
    cases hjob

/-- A request is settled only when it is marked so. -/
theorem settled (h : Turn marks queues before after) (hmarks : ¬ marks .settled)
    (hafter : after.map (·.standing) = some .settled) :
    before.map (·.standing) = some .settled := by
  cases h with
  | stay => exact hafter
  | make => cases hafter
  | mark request hmark =>
    rw [Option.map_some, Request.mark] at hafter
    split at hafter
    · rw [Option.some.injEq] at hafter
      exact absurd (hafter ▸ hmark) hmarks
    · exact hafter
  | queue => exact hafter

/-- A request is tied to a job only when it is queued. -/
theorem tied (h : Turn marks queues before after) (hqueues : ¬ queues) {standing : Standing}
    {number : Nat} (hafter : after = some ⟨standing, some number⟩) :
    ∃ earlier, before = some ⟨earlier, some number⟩ := by
  cases h with
  | stay => exact ⟨standing, hafter⟩
  | make => cases hafter
  | mark request =>
    rw [Request.mark] at hafter
    split at hafter
    · obtain ⟨earlier, job⟩ := request
      cases hafter
      exact ⟨earlier, rfl⟩
    · exact ⟨standing, hafter⟩
  | queue _ _ hqueue => exact absurd hqueue hqueues

end Turn

end Batch.Request

namespace Batcher

variable {batcher : Batcher κ}

/-! ## Steps -/

section

variable {marks : Standing → Prop} {queues : Prop}

theorem turn_changeRequest (key target : Nat) {standing : Standing} (batcher : Batcher κ)
    (h : target = key → marks standing) :
    Request.Turn marks queues batcher.requests[key]?
      (batcher.changeRequest target (Request.mark standing)).requests[key]? := by
  rw [getElem?_changeRequest]
  split
  · rename_i hkey
    cases batcher.requests[key]? with
    | none => exact .stay _
    | some request => exact .mark request (h hkey)
  · exact .stay _

theorem turn_retract (h : marks .cancelled) (key target : Nat) (batcher : Batcher κ) :
    Request.Turn marks queues batcher.requests[key]?
      (batcher.retract target).batcher.requests[key]? := by
  unfold Batcher.retract
  split
  · exact turn_changeRequest key target batcher fun _ => h
  · rename_i number _
    rcases withdraw_cases target number batcher with heq | ⟨_, _, _, _, _, _, heq⟩ <;> rw [heq] <;>
      exact .stay _
  · exact .stay _

theorem turn_request (key id : Nat) (graph : Graph κ) (handler : Handler κ)
    (batcher : Batcher κ) :
    Request.Turn marks queues batcher.requests[key]?
      (batcher.request id graph handler).requests[key]? := by
  unfold Batcher.request
  split
  · change Request.Turn _ _ _ (batcher.requests ++ [.fresh])[key]?
    rcases Nat.lt_trichotomy key batcher.requests.length with hlt | heq | hgt
    · rw [List.getElem?_append_left hlt]
      exact .stay _
    · subst heq
      rw [List.getElem?_concat_length, List.getElem?_eq_none (Nat.le_refl _)]
      exact .make
    · have hlength : (batcher.requests ++ [Request.fresh]).length ≤ key := by
        rw [List.length_append]
        exact hgt
      rw [List.getElem?_eq_none hlength, List.getElem?_eq_none (Nat.le_of_lt hgt)]
      exact .stay _
  · exact .stay _

theorem Seated.turn (h : queues) {key number : Nat} {graph : Graph κ} {after : Batcher κ}
    (hseated : Seated key graph number batcher after) :
    Request.Turn marks queues batcher.requests[key]? after.requests[key]? := by
  obtain ⟨standing, huntied, hrequests⟩ := hseated.requests
  rw [hrequests, if_pos rfl, huntied]
  exact .queue standing number h

end

theorem requests_release (batcher : Batcher κ) : batcher.release.requests = batcher.requests := by
  unfold Batcher.release
  split <;> rfl

theorem turn_of_eq {marks : Standing → Prop} {queues : Prop} {before after : Batcher κ} {key : Nat}
    (h : after.requests = before.requests) :
    Request.Turn marks queues before.requests[key]? after.requests[key]? := by
  rw [h]
  exact .stay _

/-- What an instruction can do to a request. -/
theorem turn_execute {instruction : Instruction κ} (hsound : (batcher.push [instruction]).Sound)
    (hstage : ∀ key, (batcher.push [instruction]).AtStage key) (key : Nat) :
    Request.Turn
      (fun standing => standing = .cancelled ∨ instruction = .mark key standing)
      (∃ id graph handler, instruction = .enqueue key id graph handler)
      batcher.requests[key]? (batcher.execute instruction).requests[key]? := by
  cases instruction with
  | call other handler callback => exact .stay _
  | react other reaction =>
    cases reaction with
    | cancel target =>
      simp only [Batcher.execute, Batcher.react]
      split
      · exact turn_retract (.inl rfl) key target batcher
      · exact .stay _
    | submit id graph handler => exact turn_request key id graph handler batcher
  | note occurrence => exact .stay _
  | mark target standing =>
    apply turn_changeRequest key target batcher
    rintro rfl
    exact .inr rfl
  | enqueue target id graph handler =>
    obtain ⟨number, hseated⟩ := exists_seated hsound.pop (hstage target)
    by_cases hkey : target = key
    · subst hkey
      exact hseated.turn ⟨id, graph, handler, rfl⟩
    · obtain ⟨standing, _, hrequests⟩ := hseated.requests
      change Request.Turn _ _ _ (batcher.enqueue target id graph handler).requests[key]?
      rw [hrequests, if_neg hkey]
      exact .stay _
  | flush id job => exact turn_of_eq (frame_flush id job batcher).2.2.2
  | restore id job graph waiters =>
    simp only [Batcher.execute, Batcher.restore]
    split <;> exact .stay _
  | launch id job graph =>
    simp only [Batcher.execute, Batcher.launch]
    split <;> exact .stay _
  | endFetch fetch =>
    simp only [Batcher.execute, Batcher.endFetch]
    split
    · exact .stay _
    · exact turn_of_eq (requests_release _)
  | dropJob job =>
    simp only [Batcher.execute, Batcher.dropJob]
    split <;> exact .stay _

section

variable [DecidableEq κ] [Catalog κ]

/-- What the start of an operation can do to a request. -/
theorem turn_start (operation : Operation κ) (batcher : Batcher κ) (key : Nat) :
    Request.Turn (fun standing => standing = .cancelled) False
      batcher.requests[key]? (batcher.start operation).requests[key]? := by
  cases operation with
  | submit id graph handler => exact turn_request key id graph handler batcher
  | cancel target =>
    apply turn_retract _ key target batcher
    rfl
  | run => exact .stay _
  | rearrange queue =>
    obtain ⟨order, -, heq⟩ := exists_perm_rearrange queue batcher
    rw [Batcher.start, heq]
    exact .stay _
  | complete fetch answer =>
    simp only [Batcher.start, Batcher.complete]
    split
    · exact .stay _
    · split <;> exact .stay _
  | dropFetch fetch => exact .stay _
  | close => exact turn_of_eq (requests_release _)

end

/-! ## Runs -/

def RequestsPrecede (before after : Batcher κ) : Prop :=
  ∀ (key : Nat) (request : Request), before.requests[key]? = some request →
    ∃ later : Request, after.requests[key]? = some later ∧ request.Precedes later

namespace RequestsPrecede

variable {before after last : Batcher κ}

theorem of_eq (h : after.requests = before.requests) : RequestsPrecede before after := by
  intro key request hrequest
  exact ⟨request, h ▸ hrequest, .refl request⟩

theorem trans (h : RequestsPrecede before after) (hlast : RequestsPrecede after last) :
    RequestsPrecede before last := by
  intro key request hrequest
  obtain ⟨later, hlater, hprecedes⟩ := h key request hrequest
  obtain ⟨latest, hlatest, hnext⟩ := hlast key later hlater
  exact ⟨latest, hlatest, hprecedes.trans hnext⟩

/-- A request stays tied to its job. -/
theorem tied (h : RequestsPrecede before after) {key : Nat} {standing : Standing} {number : Nat}
    (hrequest : before.requests[key]? = some ⟨standing, some number⟩) :
    ∃ later, after.requests[key]? = some ⟨later, some number⟩ ∧
      (standing ≠ .pending → later = standing) := by
  obtain ⟨⟨later, job⟩, hlater, hprecedes⟩ := h key _ hrequest
  obtain rfl : job = some number := hprecedes.job number rfl
  exact ⟨later, hlater, hprecedes.standing⟩

theorem wasQueued (h : RequestsPrecede before after) {key : Nat} (hqueued : before.WasQueued key) :
    after.WasQueued key := by
  obtain ⟨standing, number, hrequest⟩ := hqueued
  obtain ⟨later, hlater, _⟩ := h.tied hrequest
  exact ⟨later, number, hlater⟩

theorem execute {instruction : Instruction κ} (hsound : (batcher.push [instruction]).Sound)
    (hstage : ∀ key, (batcher.push [instruction]).AtStage key) :
    RequestsPrecede (batcher.push [instruction]) (batcher.execute instruction) :=
  fun key _ hrequest => (turn_execute hsound hstage key).precedes hrequest

theorem start [DecidableEq κ] [Catalog κ] (operation : Operation κ) (batcher : Batcher κ) :
    RequestsPrecede batcher (batcher.start operation) :=
  fun key _ hrequest => (turn_start operation batcher key).precedes hrequest

end RequestsPrecede

/-- Requests are queued one by one. -/
theorem wasQueued_execute {instruction : Instruction κ}
    (hsound : (batcher.push [instruction]).Sound)
    (hstage : ∀ key, (batcher.push [instruction]).AtStage key) (key : Nat) :
    (batcher.execute instruction).WasQueued key ↔ batcher.WasQueued key ∨
      ∃ id graph handler, instruction = .enqueue key id graph handler := by
  constructor
  · rintro ⟨standing, number, hrequest⟩
    by_cases hqueues : ∃ id graph handler, instruction = .enqueue key id graph handler
    · exact .inr hqueues
    · obtain ⟨earlier, hearlier⟩ := (turn_execute hsound hstage key).tied hqueues hrequest
      exact .inl ⟨earlier, number, hearlier⟩
  · rintro (hqueued | ⟨id, graph, handler, rfl⟩)
    · exact (RequestsPrecede.execute hsound hstage).wasQueued hqueued
    · obtain ⟨number, hseated⟩ := exists_seated hsound.pop (hstage key)
      obtain ⟨standing, _, hrequests⟩ := hseated.requests
      exact ⟨standing, number, (hrequests key).trans (if_pos rfl)⟩

variable [DecidableEq κ] [Catalog κ] {kind : κ} {later : Batcher κ}

/-- Requests keep their jobs and the ends that they have come to. -/
theorem Reachable.requestsPrecede (h : Reachable kind batcher) (hlater : Reaches batcher later) :
    RequestsPrecede batcher later := by
  apply Reachable.invariant (P := RequestsPrecede batcher) h hlater
  · exact fun operation before _ hbefore => hbefore.trans (.start operation before)
  · exact fun _ _ hsound hstage hbefore => hbefore.trans (.execute hsound hstage)
  · exact .of_eq rfl

end Batcher

end PartialEntity
