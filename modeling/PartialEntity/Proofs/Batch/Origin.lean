import Mathlib
import PartialEntity.Proofs.Batch.Queueing

/-!
# Where waiters and fetches come from

A request takes a seat in a job when it is queued, and at no other time; from then on it can only
leave.  A job whose window was closed gets no more requests, and what its fetch asks for is settled
when it is sent in flight.
-/

namespace PartialEntity

open Batch

variable {κ : Type}

namespace Batch

/-- The place of a request in a job. -/
structure Seat (κ : Type) where
  job : Nat
  key : Nat
  graph : Graph κ

def Waiter.seat (number : Nat) (waiter : Waiter κ) : Seat κ :=
  ⟨number, waiter.key, waiter.graph⟩

/-- The seats that an instruction keeps free for waiters that come back. -/
def Instruction.seats : Instruction κ → List (Seat κ)
  | .restore _ number _ waiters => waiters.map (Waiter.seat number)
  | _ => []

theorem seats_of_free {work : List (Instruction κ)} (h : Free work) :
    work.flatMap Instruction.seats = [] := by
  apply List.flatMap_eq_nil_iff.2
  intro instruction hmem
  have hjob := h instruction hmem
  cases instruction with
  | restore => cases hjob
  | _ => rfl

/-- What is to be fetched for a job; no graph as long as that is open. -/
structure Errand (κ : Type) where
  job : Nat
  id : Nat
  graph : Option (Graph κ)

def Instruction.errands : Instruction κ → List (Errand κ)
  | .flush id job => [⟨job, id, none⟩]
  | .restore id job graph _ => [⟨job, id, some graph⟩]
  | .launch id job graph => [⟨job, id, some graph⟩]
  | _ => []

theorem Instruction.job?_of_errand {instruction : Instruction κ} {errand : Errand κ}
    (h : errand ∈ instruction.errands) : instruction.job? = some errand.job := by
  cases instruction with
  | flush => obtain rfl := List.mem_singleton.1 h; rfl
  | restore => obtain rfl := List.mem_singleton.1 h; rfl
  | launch => obtain rfl := List.mem_singleton.1 h; rfl
  | _ => cases h

theorem errands_of_free {work : List (Instruction κ)} (h : Free work) :
    work.flatMap Instruction.errands = [] := by
  apply List.flatMap_eq_nil_iff.2
  intro instruction hmem
  apply List.eq_nil_iff_forall_not_mem.2
  intro errand herrand
  have hjob := h instruction hmem
  rw [Instruction.job?_of_errand herrand] at hjob
  cases hjob

def Fetch.errand (fetch : Fetch κ) : Errand κ :=
  ⟨fetch.job, fetch.id, some fetch.graph⟩

end Batch

namespace Batcher

variable {batcher : Batcher κ}

/-! ## Seats -/

def seats (batcher : Batcher κ) : List (Seat κ) :=
  batcher.jobs.flatMap (fun entry => entry.2.waiters.map (Waiter.seat entry.1)) ++
    batcher.agenda.flatMap Instruction.seats

def errands (batcher : Batcher κ) : List (Errand κ) :=
  batcher.agenda.flatMap Instruction.errands ++ batcher.fetches.map fun entry => entry.2.errand

theorem mem_seats_push {work : List (Instruction κ)} {seat : Seat κ} :
    seat ∈ (batcher.push work).seats ↔
      seat ∈ work.flatMap Instruction.seats ∨ seat ∈ batcher.seats := by
  simp only [seats, push, List.flatMap_append, List.mem_append]
  tauto

theorem mem_errands_push {work : List (Instruction κ)} {errand : Errand κ} :
    errand ∈ (batcher.push work).errands ↔
      errand ∈ work.flatMap Instruction.errands ∨ errand ∈ batcher.errands := by
  simp only [errands, push, List.flatMap_append, List.mem_append]
  tauto

/-- A waiter in a job has a seat there. -/
theorem mem_seats_of_job {number : Nat} {job : Job κ} (hjob : batcher.job? number = some job)
    {waiter : Waiter κ} (hmem : waiter ∈ job.waiters) : waiter.seat number ∈ batcher.seats :=
  List.mem_append_left _ (List.mem_flatMap.2
    ⟨_, Assoc.mem_of_find? hjob, List.mem_map_of_mem (f := Waiter.seat number) hmem⟩)

/-- What has an errand is kept. -/
theorem job_ne_of_mem_errands {number : Nat} (h : batcher.keepers number = 0) :
    ∀ errand ∈ batcher.errands, errand.job ≠ number := by
  rintro errand hmem rfl
  rcases List.mem_append.1 hmem with hagenda | hfetch
  · obtain ⟨instruction, hinstruction, herrand⟩ := List.mem_flatMap.1 hagenda
    exact job?_ne_of_keepers h hinstruction (Instruction.job?_of_errand herrand)
  · obtain ⟨entry, hentry, rfl⟩ := List.mem_map.1 hfetch
    have hpos : 0 < batcher.fetches.countP (fun other => other.2.job == entry.2.job) :=
      List.countP_pos_iff.2 ⟨entry, hentry, by simp⟩
    have hnone : batcher.keepers entry.2.job = 0 := h
    simp only [keepers] at hnone
    omega

/-- Replacing a job concerns only the seats in it. -/
theorem mem_seats_setJob {number : Nat} {job : Job κ} {seat : Seat κ}
    (h : seat ∈ (batcher.setJob number job).seats) :
    seat ∈ batcher.seats ∨ seat ∈ job.waiters.map (Waiter.seat number) := by
  rcases List.mem_append.1 h with hjob | hagenda
  · obtain ⟨entry, hentry, hseat⟩ := List.mem_flatMap.1 hjob
    rcases Assoc.mem_alter hentry with hold | rfl
    · exact .inl (List.mem_append_left _ (List.mem_flatMap.2 ⟨entry, hold, hseat⟩))
    · exact .inr hseat
  · exact .inl (List.mem_append_right _ hagenda)

/-! ## Steps that add nothing -/

/-- A batcher goes over to another one without a new seat, a new errand or a new job. -/
structure Dwindles (before after : Batcher κ) : Prop where
  kind : after.kind = before.kind
  nextJob_le : before.nextJob ≤ after.nextJob
  queue : after.queue ⊆ before.queue
  seats : after.seats ⊆ before.seats
  errands : after.errands ⊆ before.errands

namespace Dwindles

variable {before after last : Batcher κ}

theorem refl (batcher : Batcher κ) : Dwindles batcher batcher :=
  ⟨rfl, Nat.le_refl _, fun _ h => h, fun _ h => h, fun _ h => h⟩

/-- To dwindle twice is to dwindle. -/
theorem trans (h : Dwindles before after) (hlast : Dwindles after last) : Dwindles before last :=
  ⟨hlast.kind.trans h.kind, h.nextJob_le.trans hlast.nextJob_le,
    List.Subset.trans hlast.queue h.queue, List.Subset.trans hlast.seats h.seats,
    List.Subset.trans hlast.errands h.errands⟩

/-- Work that keeps only seats and errands that were there lets a batcher dwindle on. -/
theorem push (h : Dwindles before after) {work : List (Instruction κ)}
    (hseats : ∀ seat ∈ work.flatMap Instruction.seats, seat ∈ before.seats)
    (herrands : ∀ errand ∈ work.flatMap Instruction.errands, errand ∈ before.errands) :
    Dwindles before (after.push work) where
  kind := h.kind
  nextJob_le := h.nextJob_le
  queue := h.queue
  seats seat hmem := (mem_seats_push.1 hmem).elim (hseats seat) fun hold => h.seats hold
  errands errand hmem := (mem_errands_push.1 hmem).elim (herrands errand) fun hold => h.errands hold

theorem push_idle (h : Dwindles before after) {work : List (Instruction κ)}
    (hseats : work.flatMap Instruction.seats = [])
    (herrands : work.flatMap Instruction.errands = []) : Dwindles before (after.push work) := by
  apply h.push
  · intro seat hmem
    rw [hseats] at hmem
    cases hmem
  · intro errand hmem
    rw [herrands] at hmem
    cases hmem

theorem push_free (h : Dwindles before after) {work : List (Instruction κ)} (hfree : Free work) :
    Dwindles before (after.push work) :=
  h.push_idle (seats_of_free hfree) (errands_of_free hfree)

/-- Taking work off the agenda and doing nothing about it. -/
theorem pop (batcher : Batcher κ) (work : List (Instruction κ)) :
    Dwindles (batcher.push work) batcher where
  kind := rfl
  nextJob_le := Nat.le_refl _
  queue _ h := h
  seats _ h := mem_seats_push.2 (.inr h)
  errands _ h := mem_errands_push.2 (.inr h)

/-- Replacing a job lets a batcher dwindle if nobody has got on. -/
theorem setJob (h : Dwindles before after) {number : Nat} {job : Job κ}
    (hseats : ∀ waiter ∈ job.waiters, waiter.seat number ∈ before.seats) :
    Dwindles before (after.setJob number job) where
  kind := h.kind
  nextJob_le := h.nextJob_le
  queue := h.queue
  seats seat hmem := by
    rcases mem_seats_setJob hmem with hold | hnew
    · exact h.seats hold
    · obtain ⟨waiter, hwaiter, rfl⟩ := List.mem_map.1 hnew
      exact hseats waiter hwaiter
  errands := h.errands

theorem eraseJob (batcher : Batcher κ) (number : Nat) :
    Dwindles batcher { batcher with jobs := Assoc.erase number batcher.jobs } where
  kind := rfl
  nextJob_le := Nat.le_refl _
  queue _ h := h
  seats seat hmem := by
    rcases List.mem_append.1 hmem with hjob | hagenda
    · obtain ⟨entry, hentry, hseat⟩ := List.mem_flatMap.1 hjob
      exact List.mem_append_left _
        (List.mem_flatMap.2 ⟨entry, List.mem_of_mem_filter hentry, hseat⟩)
    · exact List.mem_append_right _ hagenda
  errands _ h := h

theorem withFetches (h : Dwindles before after) {fetches : List (Nat × Fetch κ)}
    (hsubjects : fetches.map (fun entry => (entry.1, entry.2.subject)) =
      after.fetches.map fun entry => (entry.1, entry.2.subject)) :
    Dwindles before { after with fetches } := by
  have herrands : fetches.map (fun entry => entry.2.errand) =
      after.fetches.map fun entry => entry.2.errand := by
    have hmap := congrArg (List.map fun entry : Nat × Nat × Nat × Graph κ =>
      (⟨entry.2.1, entry.2.2.1, some entry.2.2.2⟩ : Errand κ)) hsubjects
    simpa [List.map_map, Function.comp_def, Fetch.subject, Fetch.errand] using hmap
  refine ⟨h.kind, h.nextJob_le, h.queue, h.seats, ?_⟩
  have hsame : ({ after with fetches } : Batcher κ).errands = after.errands := by
    rw [Batcher.errands, Batcher.errands, herrands]
  rw [hsame]
  exact h.errands

theorem note (occurrence : Occurrence κ) (batcher : Batcher κ) :
    Dwindles batcher (batcher.note occurrence) :=
  ⟨rfl, Nat.le_refl _, fun _ h => h, fun _ h => h, fun _ h => h⟩

theorem changeRequest (key : Nat) (change : Request → Request) (batcher : Batcher κ) :
    Dwindles batcher (batcher.changeRequest key change) :=
  ⟨rfl, Nat.le_refl _, fun _ h => h, fun _ h => h, fun _ h => h⟩

theorem withdraw (key number : Nat) (batcher : Batcher κ) :
    Dwindles batcher (batcher.withdraw key number).batcher := by
  rcases withdraw_cases key number batcher with heq | ⟨job, rest, fetches, hjob, hrest, hsub, heq⟩
  · rw [heq]
    exact refl batcher
  · obtain ⟨hwaiters, _, _⟩ := Job.withdraw_eq_some hrest
    rw [heq]
    refine ((refl batcher).setJob ?_).withFetches hsub
    intro waiter hmem
    rw [hwaiters] at hmem
    exact mem_seats_of_job hjob (List.mem_of_mem_filter hmem)

theorem retract (key : Nat) (batcher : Batcher κ) :
    Dwindles batcher (batcher.retract key).batcher := by
  unfold Batcher.retract
  split
  · exact changeRequest key _ batcher
  · exact withdraw key _ batcher
  · exact refl batcher

theorem request (id : Nat) (graph : Graph κ) (handler : Handler κ) (batcher : Batcher κ) :
    Dwindles batcher (batcher.request id graph handler) := by
  unfold Batcher.request
  split
  · have hnew : Dwindles batcher { batcher with requests := batcher.requests ++ [.fresh] } :=
      ⟨rfl, Nat.le_refl _, fun _ h => h, fun _ h => h, fun _ h => h⟩
    exact hnew.push_idle rfl rfl
  · exact refl batcher

theorem react (hsound : batcher.Sound) (key : Nat) (reaction : Reaction κ) :
    Dwindles batcher (batcher.react key reaction) := by
  cases reaction with
  | cancel target =>
    simp only [Batcher.react]
    split
    · apply (retract target batcher).push_free
      exact (hsound.retract target).2.append (by simp [Free, Instruction.job?])
    · exact (refl batcher).push_idle rfl rfl
  | submit id graph handler => exact request id graph handler batcher

theorem restore (id number : Nat) (graph : Graph κ) (waiters : List (Waiter κ))
    (batcher : Batcher κ) :
    Dwindles (batcher.push [.restore id number graph waiters])
      (batcher.restore id number graph waiters) := by
  have hpop := pop batcher [.restore id number graph waiters]
  have hseat : ∀ waiter ∈ waiters, waiter.seat number ∈
      (batcher.push [.restore id number graph waiters]).seats := by
    intro waiter hmem
    apply mem_seats_push.2
    left
    simpa [Instruction.seats] using List.mem_map_of_mem (f := Waiter.seat number) hmem
  have herrand : ⟨number, id, some graph⟩ ∈
      (batcher.push [.restore id number graph waiters]).errands := by
    apply mem_errands_push.2
    simp [Instruction.errands]
  unfold Batcher.restore
  simp only
  split
  · refine (hpop.setJob fun waiter hmem => hseat waiter (List.mem_of_mem_filter hmem)).push ?_ ?_
    · simp [seats_of_free (free_cancelled _), Instruction.seats]
    · simpa [errands_of_free (free_cancelled _), Instruction.errands] using herrand
  · apply hpop.push_idle
    · simp [seats_of_free (free_cancelled _), Instruction.seats]
    · simp [errands_of_free (free_cancelled _), Instruction.errands]

/-- A fetch takes over the errand that it was started for. -/
theorem start_fetch {number id : Nat} {graph : Graph κ} (h : Dwindles before after)
    (herrand : ⟨number, id, some graph⟩ ∈ before.errands) (fetch next : Nat) (aborted : Bool) :
    Dwindles before { after with
      fetches := Assoc.insert fetch ⟨number, id, graph, aborted⟩ after.fetches
      nextFetch := next } where
  kind := h.kind
  nextJob_le := h.nextJob_le
  queue := h.queue
  seats := h.seats
  errands errand hmem := by
    rcases List.mem_append.1 hmem with hagenda | hfetch
    · exact h.errands (List.mem_append_left _ hagenda)
    · obtain ⟨entry, hentry, rfl⟩ := List.mem_map.1 hfetch
      rcases Assoc.mem_alter hentry with hold | rfl
      · exact h.errands (List.mem_append_right _ (List.mem_map_of_mem hold))
      · exact herrand

theorem launch (id number : Nat) (graph : Graph κ) (batcher : Batcher κ) :
    Dwindles (batcher.push [.launch id number graph]) (batcher.launch id number graph) := by
  have hpop := pop batcher [.launch id number graph]
  have herrand : ⟨number, id, some graph⟩ ∈
      (batcher.push [.launch id number graph]).errands := by
    apply mem_errands_push.2
    simp [Instruction.errands]
  unfold Batcher.launch
  simp only
  split
  · rename_i waiters live fetch hjob
    refine (hpop.setJob ?_).start_fetch herrand _ _ _
    intro waiter hmem
    exact hpop.seats (mem_seats_of_job hjob hmem)
  · exact hpop.start_fetch herrand _ _ _

theorem dropJob (number : Nat) (batcher : Batcher κ) :
    Dwindles batcher (batcher.dropJob number) := by
  unfold Batcher.dropJob
  split
  · exact refl batcher
  · exact (eraseJob batcher number).push_free (free_flatMap free_discard _)

theorem release (batcher : Batcher κ) : Dwindles batcher batcher.release := by
  unfold Batcher.release
  split
  · exact refl batcher
  · have hclosed : Dwindles batcher { batcher with queue := [] } :=
      ⟨rfl, Nat.le_refl _, List.nil_subset _, fun _ h => h, fun _ h => h⟩
    apply hclosed.push_idle
    · simp [Instruction.seats, List.flatMap_map]
    · simp [Instruction.errands, List.flatMap_map]

theorem endFetch (number : Nat) (batcher : Batcher κ) :
    Dwindles batcher (batcher.endFetch number) := by
  unfold Batcher.endFetch
  split
  · exact refl batcher
  · refine trans ?_ (release _)
    apply push_idle _ rfl rfl
    refine ⟨rfl, Nat.le_refl _, fun _ h => h, fun _ h => h, ?_⟩
    intro errand hmem
    rcases List.mem_append.1 hmem with hagenda | hfetch
    · exact List.mem_append_left _ hagenda
    · obtain ⟨entry, hentry, rfl⟩ := List.mem_map.1 hfetch
      exact List.mem_append_right _
        (List.mem_map_of_mem (f := fun entry => entry.2.errand) (List.mem_of_mem_filter hentry))

/-- The step lemma: an instruction brings up no seat and no errand, unless it queues a request or
hands out the work of a job. -/
theorem execute {instruction : Instruction κ} (hsound : (batcher.push [instruction]).Sound)
    (hqueue : ∀ key id graph handler, instruction ≠ .enqueue key id graph handler)
    (hflush : ∀ id job, instruction ≠ .flush id job) :
    Dwindles (batcher.push [instruction]) (batcher.execute instruction) := by
  have hpop := pop batcher [instruction]
  cases instruction with
  | call key handler callback =>
    apply (hpop.trans (note _ batcher)).push_free
    intro instruction hmem
    obtain ⟨reaction, _, rfl⟩ := List.mem_map.1 hmem
    rfl
  | react key reaction => exact hpop.trans (react hsound.pop key reaction)
  | note occurrence => exact hpop.trans (note occurrence batcher)
  | mark key standing => exact hpop.trans (changeRequest key _ batcher)
  | enqueue key id graph handler => exact absurd rfl (hqueue key id graph handler)
  | flush id job => exact absurd rfl (hflush id job)
  | restore id job graph waiters => exact restore id job graph waiters batcher
  | launch id job graph => exact launch id job graph batcher
  | endFetch fetch => exact hpop.trans (endFetch fetch batcher)
  | dropJob job => exact hpop.trans (dropJob job batcher)

variable [DecidableEq κ] [Catalog κ]

theorem complete (number : Nat) (answer : Except Error (Option (Entity κ)))
    (batcher : Batcher κ) : Dwindles batcher (batcher.complete number answer) := by
  have hend : Free [(.endFetch number : Instruction κ)] := by
    simp [Free, Instruction.job?]
  unfold Batcher.complete
  split
  · exact refl batcher
  · split
    · exact (refl batcher).push_free hend
    · apply push_free _ ((free_flatMap (free_deliver answer) _).append hend)
      exact (refl batcher).setJob (by simp)

/-- What is done from outside brings up no seat and no errand, unless the window is closed. -/
theorem start {operation : Operation κ} (hsound : batcher.Sound) (hrun : operation ≠ .run) :
    Dwindles batcher (batcher.start operation) := by
  cases operation with
  | submit id graph handler => exact request id graph handler batcher
  | cancel key => exact (retract key batcher).push_free (hsound.retract key).2
  | run => contradiction
  | rearrange queue =>
    obtain ⟨order, hperm, heq⟩ := exists_perm_rearrange queue batcher
    rw [Batcher.start, heq]
    exact ⟨rfl, Nat.le_refl _, hperm.subset, fun _ h => h, fun _ h => h⟩
  | complete fetch answer => exact complete fetch answer batcher
  | dropFetch fetch => exact (refl batcher).push_idle rfl rfl
  | close =>
    have hclosed : Dwindles batcher { batcher with isOpen := false } :=
      ⟨rfl, Nat.le_refl _, fun _ h => h, fun _ h => h, fun _ h => h⟩
    exact hclosed.trans (release _)

end Dwindles

/-! ## Steps that add something -/

/-- A seat is in a job, or is kept free by an instruction that looks after the job. -/
theorem mem_seats_cases (hsound : batcher.Sound) {seat : Seat κ} (h : seat ∈ batcher.seats) :
    (∃ job, batcher.job? seat.job = some job ∧ seat ∈ job.waiters.map (Waiter.seat seat.job)) ∨
      ∃ instruction ∈ batcher.agenda, instruction.job? = some seat.job := by
  rcases List.mem_append.1 h with hjob | hagenda
  · obtain ⟨⟨number, job⟩, hentry, hseat⟩ := List.mem_flatMap.1 hjob
    obtain ⟨waiter, hwaiter, rfl⟩ := List.mem_map.1 hseat
    exact .inl ⟨job, Assoc.find?_eq_some_of_mem hsound.jobs_nodup hentry, hseat⟩
  · obtain ⟨instruction, hmem, hseat⟩ := List.mem_flatMap.1 hagenda
    refine .inr ⟨instruction, hmem, ?_⟩
    cases instruction with
    | restore id number graph waiters =>
      obtain ⟨waiter, _, rfl⟩ := List.mem_map.1 hseat
      rfl
    | _ => cases hseat

/-- Sending a job in flight gives it its errand. -/
theorem mem_errands_flush {id number : Nat} {errand : Errand κ}
    (h : errand ∈ (batcher.flush id number).errands) :
    errand ∈ batcher.errands ∨ ∃ job, batcher.job? number = some job ∧
      errand = ⟨number, id, some (job.union batcher.kind)⟩ := by
  unfold Batcher.flush at h
  split at h
  · exact .inl h
  · rename_i job hjob
    split at h
    · rcases mem_errands_push.1 h with hnew | hold
      · right
        refine ⟨job, hjob, ?_⟩
        simpa [errands_of_free (free_flatMap free_dispatch _), Instruction.errands] using hnew
      · exact .inl hold
    · exact .inl ((mem_errands_push.1 h).resolve_left (by simp [Instruction.errands]))

/-- It does so without a new seat. -/
theorem mem_seats_flush {id number : Nat} {seat : Seat κ}
    (h : seat ∈ (batcher.flush id number).seats) : seat ∈ batcher.seats := by
  unfold Batcher.flush at h
  split at h
  · exact h
  · rename_i job hjob
    split at h
    · rcases mem_seats_push.1 h with hback | hleft
      · have hseat : seat ∈ job.waiters.map (Waiter.seat number) := by
          simpa [seats_of_free (free_flatMap free_dispatch _), Instruction.seats,
            Function.comp_def, Waiter.seat] using hback
        obtain ⟨waiter, hwaiter, rfl⟩ := List.mem_map.1 hseat
        exact mem_seats_of_job hjob hwaiter
      · exact (mem_seats_setJob hleft).resolve_right (by simp)
    · exact (mem_seats_push.1 h).resolve_left (by simp [Instruction.seats])

theorem frame_flush (id number : Nat) (batcher : Batcher κ) :
    (batcher.flush id number).kind = batcher.kind ∧
      (batcher.flush id number).nextJob = batcher.nextJob ∧
      (batcher.flush id number).queue = batcher.queue ∧
      (batcher.flush id number).requests = batcher.requests := by
  unfold Batcher.flush
  split
  · exact ⟨rfl, rfl, rfl, rfl⟩
  · split <;> exact ⟨rfl, rfl, rfl, rfl⟩

/-- A request that is queued takes one seat, in a job of the window, and is tied to that job. -/
structure Seated (key : Nat) (graph : Graph κ) (number : Nat) (before after : Batcher κ) :
    Prop where
  kind : after.kind = before.kind
  nextJob_le : before.nextJob ≤ after.nextJob
  aside : ∀ other < before.nextJob, other ∉ before.queue.map (·.2) →
    other ≠ number ∧ other ∉ after.queue.map (·.2)
  seats : ∀ seat ∈ after.seats, seat ∈ before.seats ∨ seat = ⟨number, key, graph⟩
  errands : after.errands ⊆ before.errands
  requests : ∃ standing, before.requests[key]? = some ⟨standing, none⟩ ∧
    ∀ other, after.requests[other]? =
      if key = other then some ⟨standing, some number⟩ else before.requests[other]?

theorem exists_seated (hsound : batcher.Sound) {key id : Nat} {graph : Graph κ}
    {handler : Handler κ} (hstage : (batcher.push [.enqueue key id graph handler]).AtStage key) :
    ∃ number, Seated key graph number batcher (batcher.enqueue key id graph handler) := by
  obtain ⟨number, job, standing, tied, htied, hcases⟩ :=
    enqueue_cases hsound ⟨key, graph, handler, false⟩ rfl hstage
  have hkind : tied.kind = batcher.kind := by rw [htied.frame]
  have hagenda : tied.agenda = batcher.agenda := by rw [htied.frame]
  have herrands : tied.errands = batcher.errands := by rw [htied.frame]; rfl
  have hseats : ∀ seat ∈ tied.seats, seat ∈ batcher.seats ∨ seat = ⟨number, key, graph⟩ := by
    intro seat hmem
    rcases List.mem_append.1 hmem with hjob | hinstruction
    · obtain ⟨⟨other, found⟩, hentry, hseat⟩ := List.mem_flatMap.1 hjob
      have hfound := Assoc.find?_eq_some_of_mem htied.sound.jobs_nodup hentry
      obtain ⟨waiter, hwaiter, rfl⟩ := List.mem_map.1 hseat
      by_cases hother : other = number
      · subst hother
        obtain rfl : found = job := Option.some.inj (hfound.symm.trans htied.found)
        rcases htied.others waiter hwaiter with rfl | ⟨old, hold, hmem⟩
        · exact .inr rfl
        · exact .inl (mem_seats_of_job hold hmem)
      · exact .inl (mem_seats_of_job (htied.stays other hother found hfound) hwaiter)
    · rw [hagenda] at hinstruction
      exact .inl (List.mem_append_right _ hinstruction)
  have htie : Seated key graph number batcher tied := {
    kind := hkind
    nextJob_le := htied.nextJob_le
    aside := fun other hlt hqueue =>
      ⟨(htied.aside other hlt hqueue).1, (htied.aside other hlt hqueue).2.1⟩
    seats := hseats
    errands := by
      rw [herrands]
      exact List.Subset.refl _
    requests := ⟨standing, htied.untied, htied.requests⟩ }
  use number
  rcases hcases with ⟨_, heq⟩ | ⟨_, rest, hrest, heq⟩
  · rw [heq]
    exact htie
  · have hleave : Dwindles tied ((tied.setJob number rest).push
        (Waiter.settle ⟨key, graph, handler, false⟩ .cancelled)) := by
      apply Dwindles.push_free _ (free_settle _ _)
      apply (Dwindles.refl tied).setJob
      intro waiter hmem
      rw [hrest] at hmem
      exact mem_seats_of_job htied.found (List.mem_of_mem_filter hmem)
    rw [heq]
    exact {
      kind := hleave.kind.trans htie.kind
      nextJob_le := htie.nextJob_le
      aside := htie.aside
      seats := fun seat hmem => htie.seats seat (hleave.seats hmem)
      errands := List.Subset.trans hleave.errands htie.errands
      requests := htie.requests }

end Batcher

end PartialEntity
