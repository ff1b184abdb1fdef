import Mathlib
import PartialEntity.Proofs.Batch.Departure

/-!
# Running a closed window

As long as no handler cancels anything while a window is run, the jobs of the window are sent in
flight one after the other, and each of them starts the fetch that it has pledged when the window
was closed.
-/

namespace PartialEntity

open Batch

variable {κ : Type}

namespace Batch

/-- The fetch that an instruction is going to start, for the jobs as they were at first. -/
def Instruction.pledges (first : Batcher κ) : Instruction κ → List (Nat × Nat × Graph κ)
  | .flush id number =>
    match first.job? number with
    | some job => if job.isPending then [(number, id, job.union first.kind)] else []
    | none => []
  | .restore id number graph _ => [(number, id, graph)]
  | .launch id number graph => [(number, id, graph)]
  | _ => []

def Instruction.Ready (first batcher : Batcher κ) : Instruction κ → Prop
  | .flush _ number => batcher.job? number = first.job? number
  | .restore _ number _ waiters =>
    batcher.job? number = some ⟨[], .inFlight (waiters.map (·.key)) none⟩
  | .launch _ number _ =>
    ∃ waiters live fetch, batcher.job? number = some ⟨waiters, .inFlight live fetch⟩
  | .endFetch _ => False
  | _ => True

theorem pledges_of_free {first : Batcher κ} {work : List (Instruction κ)} (h : Free work) :
    work.flatMap (Instruction.pledges first) = [] := by
  apply List.flatMap_eq_nil_iff.2
  intro instruction hmem
  have hjob := h instruction hmem
  cases instruction with
  | flush => cases hjob
  | restore => cases hjob
  | launch => cases hjob
  | _ => rfl

theorem Instruction.Ready.congr {first batcher after : Batcher κ} {instruction : Instruction κ}
    (h : instruction.Ready first batcher)
    (hjob : ∀ number, instruction.job? = some number → after.job? number = batcher.job? number) :
    instruction.Ready first after := by
  cases instruction with
  | flush id number => exact (hjob number rfl).trans h
  | restore id number graph waiters => exact (hjob number rfl).trans h
  | launch id number graph =>
    obtain ⟨waiters, live, fetch, hfound⟩ := h
    exact ⟨waiters, live, fetch, (hjob number rfl).trans hfound⟩
  | endFetch fetch => exact h
  | _ => trivial

def Fetch.ofSubject (subject : Nat × Nat × Graph κ) : Fetch κ :=
  ⟨subject.1, subject.2.1, subject.2.2, false⟩

end Batch

namespace Batcher

variable {first batcher : Batcher κ}

/-- Fetches for the given subjects, numbered from the next one. -/
def numbered (next : Nat) (subjects : List (Nat × Nat × Graph κ)) : List (Nat × Fetch κ) :=
  subjects.mapIdx fun index subject => (next + index, .ofSubject subject)

theorem numbered_concat (next : Nat) (subjects : List (Nat × Nat × Graph κ))
    (subject : Nat × Nat × Graph κ) :
    numbered next (subjects ++ [subject]) =
      numbered next subjects ++ [(next + subjects.length, .ofSubject subject)] := by
  simp [numbered, List.mapIdx_append]

/-- A window is being run: some fetches were started, and the rest are still pledged. -/
structure Underway (first batcher : Batcher κ) (started : List (Nat × Nat × Graph κ)) : Prop where
  kind : batcher.kind = first.kind
  pledges : started ++ batcher.agenda.flatMap (Instruction.pledges first) =
    first.queue.flatMap fun entry => (Instruction.flush entry.1 entry.2).pledges first
  fetches : batcher.fetches = first.fetches ++ numbered first.nextFetch started
  nextFetch : batcher.nextFetch = first.nextFetch + started.length
  ready : ∀ instruction ∈ batcher.agenda, instruction.Ready first batcher

namespace Underway

variable {started : List (Nat × Nat × Graph κ)}

/-- An instruction that hands its pledge on to its work. -/
theorem hand_on {instruction : Instruction κ}
    (h : Underway first (batcher.push [instruction]) started) {after : Batcher κ}
    (work : List (Instruction κ)) (hkind : after.kind = batcher.kind)
    (hfetches : after.fetches = batcher.fetches) (hnext : after.nextFetch = batcher.nextFetch)
    (hagenda : after.agenda = work ++ batcher.agenda)
    (hpledges : work.flatMap (Instruction.pledges first) = instruction.pledges first)
    (hready : ∀ next ∈ work, next.Ready first after)
    (hjobs : ∀ other ∈ batcher.agenda, ∀ number, other.job? = some number →
      after.job? number = batcher.job? number) : Underway first after started where
  kind := hkind.trans h.kind
  pledges := by
    rw [hagenda, List.flatMap_append, hpledges, ← h.pledges]
    rfl
  fetches := hfetches.trans h.fetches
  nextFetch := hnext.trans h.nextFetch
  ready next hmem := by
    rw [hagenda] at hmem
    rcases List.mem_append.1 hmem with hnew | hold
    · exact hready next hnew
    · have hbefore : next.Ready first batcher := h.ready next (List.mem_append_right _ hold)
      exact hbefore.congr (hjobs next hold)

theorem ready_of_free {work : List (Instruction κ)} (h : Free work)
    (hend : ∀ fetch, .endFetch fetch ∉ work) : ∀ next ∈ work, next.Ready first batcher := by
  intro next hmem
  have hjob := h next hmem
  cases next with
  | flush => cases hjob
  | restore => cases hjob
  | launch => cases hjob
  | endFetch fetch => exact absurd hmem (hend fetch)
  | _ => trivial

/-- Work for single requests hands nothing on. -/
theorem idle {instruction : Instruction κ}
    (h : Underway first (batcher.push [instruction]) started) {after : Batcher κ}
    (work : List (Instruction κ)) (hpledges : instruction.pledges first = [])
    (hfree : Free work) (hend : ∀ fetch, .endFetch fetch ∉ work)
    (hkind : after.kind = batcher.kind) (hfetches : after.fetches = batcher.fetches)
    (hnext : after.nextFetch = batcher.nextFetch) (hagenda : after.agenda = work ++ batcher.agenda)
    (hjobs : ∀ other ∈ batcher.agenda, ∀ number, other.job? = some number →
      after.job? number = batcher.job? number) : Underway first after started := by
  refine h.hand_on work hkind hfetches hnext hagenda ?_ (ready_of_free hfree hend) hjobs
  rw [pledges_of_free hfree, hpledges]

/-- An instruction that brings on no work. -/
theorem idle_nil {instruction : Instruction κ}
    (h : Underway first (batcher.push [instruction]) started) {after : Batcher κ}
    (hpledges : instruction.pledges first = []) (hkind : after.kind = batcher.kind)
    (hfetches : after.fetches = batcher.fetches) (hnext : after.nextFetch = batcher.nextFetch)
    (hagenda : after.agenda = batcher.agenda)
    (hjobs : ∀ other ∈ batcher.agenda, ∀ number, other.job? = some number →
      after.job? number = batcher.job? number) : Underway first after started :=
  h.idle [] hpledges free_nil (fun _ => List.not_mem_nil) hkind hfetches hnext hagenda hjobs

theorem request {instruction : Instruction κ}
    (h : Underway first (batcher.push [instruction]) started)
    (hpledges : instruction.pledges first = []) (id : Nat) (graph : Graph κ)
    (handler : Handler κ) : Underway first (batcher.request id graph handler) started := by
  unfold Batcher.request
  split
  · refine h.idle [.call batcher.requests.length handler .pre,
      .enqueue batcher.requests.length id graph handler] hpledges ?_ ?_ rfl rfl rfl rfl ?_
    · simp [Free, Instruction.job?]
    · simp
    · exact fun _ _ _ _ => rfl
  · exact h.idle_nil hpledges rfl rfl rfl rfl fun _ _ _ _ => rfl

theorem notMem_settle (waiter : Waiter κ) (outcome : Outcome κ) (fetch : Nat) :
    .endFetch fetch ∉ waiter.settle outcome := by
  cases outcome <;> simp [Waiter.settle, Waiter.dispatch, Waiter.call]

theorem enqueue {key id : Nat} {graph : Graph κ} {handler : Handler κ}
    (h : Underway first (batcher.push [.enqueue key id graph handler]) started)
    (hsound : batcher.Sound)
    (hstage : (batcher.push [.enqueue key id graph handler]).AtStage key) :
    Underway first (batcher.enqueue key id graph handler) started := by
  obtain ⟨number, job, standing, tied, htied, hcases⟩ :=
    enqueue_cases hsound ⟨key, graph, handler, false⟩ rfl hstage
  have haside : ∀ other ∈ batcher.agenda, ∀ kept, other.job? = some kept →
      kept ≠ number ∧ tied.job? kept = batcher.job? kept := by
    intro other hmem kept hkept
    have hlt : kept < batcher.nextJob := by
      apply hsound.kept_lt
      have hpos := keepersIn_pos hmem hkept
      simp only [keepers]
      omega
    obtain ⟨hne, _, hsame⟩ := htied.aside kept hlt (hsound.notMem_queue_of_agenda hmem hkept)
    exact ⟨hne, hsame⟩
  have hkind : tied.kind = batcher.kind := by rw [htied.frame]
  have hfetches : tied.fetches = batcher.fetches := by rw [htied.frame]
  have hnext : tied.nextFetch = batcher.nextFetch := by rw [htied.frame]
  have hagenda : tied.agenda = batcher.agenda := by rw [htied.frame]
  rcases hcases with ⟨_, heq⟩ | ⟨_, rest, _, heq⟩
  · rw [heq]
    exact h.idle_nil rfl hkind hfetches hnext hagenda
      fun other hmem kept hkept => (haside other hmem kept hkept).2
  · rw [heq]
    refine h.idle (Waiter.settle ⟨key, graph, handler, false⟩ .cancelled) rfl (free_settle _ _)
      (notMem_settle _ _) hkind hfetches hnext ?_ ?_
    · rw [← hagenda]
      rfl
    intro other hmem kept hkept
    obtain ⟨hne, hsame⟩ := haside other hmem kept hkept
    exact (job?_setJob_of_ne hne _ _).trans hsame

theorem notMem_dispatch (waiters : List (Waiter κ)) (fetch : Nat) :
    .endFetch fetch ∉ waiters.flatMap Waiter.dispatch := by
  intro hmem
  obtain ⟨waiter, _, hcall⟩ := List.mem_flatMap.1 hmem
  unfold Waiter.dispatch at hcall
  split at hcall <;> simp [Waiter.call] at hcall

theorem flush {id number : Nat} (hsound : (batcher.push [.flush id number]).Sound)
    (h : Underway first (batcher.push [.flush id number]) started) :
    Underway first (batcher.flush id number) started := by
  have hready : batcher.job? number = first.job? number := h.ready _ (List.mem_cons_self ..)
  have hkind : batcher.kind = first.kind := h.kind
  have hkept := (hsound.keepers_eq_zero rfl).1
  unfold Batcher.flush
  split
  · rename_i hjob
    refine h.idle_nil ?_ rfl rfl rfl rfl fun _ _ _ _ => rfl
    rw [Instruction.pledges, ← hready, hjob]
  · rename_i job hjob
    split
    · rename_i hpending
      have hcalls : Free (.note (.fetching id (job.union batcher.kind) job.waiters.length) ::
          job.waiters.flatMap Waiter.dispatch : List (Instruction κ)) := by
        intro instruction hmem
        rcases List.mem_cons.1 hmem with rfl | hmem
        · rfl
        · exact free_flatMap free_dispatch _ instruction hmem
      refine h.hand_on _ rfl rfl rfl rfl ?_ ?_ ?_
      · rw [List.flatMap_append, pledges_of_free hcalls, Instruction.pledges, ← hready, hjob]
        simp [Instruction.pledges, hpending, hkind]
      · intro next hmem
        rcases List.mem_append.1 hmem with hcall | hback
        · refine ready_of_free hcalls (fun fetch hend => ?_) next hcall
          rcases List.mem_cons.1 hend with heq | hend
          · cases heq
          · exact notMem_dispatch _ fetch hend
        · rw [List.mem_singleton.1 hback]
          refine (job?_setJob_self _ _ _).trans ?_
          simp [Job.keys, Function.comp_def]
      · intro other hmem kept hother
        apply job?_setJob_of_ne
        rintro rfl
        exact job?_ne_of_keepers hkept hmem hother
    · rename_i hpending
      refine h.hand_on [.dropJob number] rfl rfl rfl rfl ?_ ?_ fun _ _ _ _ => rfl
      · simp [Instruction.pledges, ← hready, hjob, hpending]
      · simp [Instruction.Ready]

/-- Nobody has cancelled, so all waiters go back into their job. -/
theorem restore {id number : Nat} {graph : Graph κ} {waiters : List (Waiter κ)}
    (hsound : (batcher.push [.restore id number graph waiters]).Sound)
    (h : Underway first (batcher.push [.restore id number graph waiters]) started) :
    Underway first (batcher.restore id number graph waiters) started := by
  have hready : batcher.job? number =
      some ⟨[], .inFlight (waiters.map (·.key)) none⟩ := h.ready _ (List.mem_cons_self ..)
  have hkept := (hsound.keepers_eq_zero rfl).1
  have hall : ∀ waiter ∈ waiters,
      (Phase.inFlight (waiters.map (·.key)) none).wants waiter.key = true := by
    intro waiter hmem
    exact List.contains_iff_mem.2 (List.mem_map_of_mem hmem)
  have hnone : (waiters.filter fun waiter =>
      !(Phase.inFlight (waiters.map (·.key)) none).wants waiter.key) = [] := by
    apply List.filter_eq_nil_iff.2
    intro waiter hmem
    simp [hall waiter hmem]
  have heq : batcher.restore id number graph waiters =
      (batcher.setJob number ⟨waiters, .inFlight (waiters.map (·.key)) none⟩).push
        [.launch id number graph] := by
    unfold Batcher.restore
    simp only [hready, Option.map_some, Option.getD_some, Phase.isInFlight, if_true, hnone,
      List.filter_eq_self.2 hall, List.flatMap_nil, List.nil_append]
  rw [heq]
  refine h.hand_on [.launch id number graph] rfl rfl rfl rfl rfl ?_ ?_
  · intro next hmem
    rw [List.mem_singleton.1 hmem]
    exact ⟨_, _, _, job?_setJob_self _ _ _⟩
  · intro other hmem kept hother
    apply job?_setJob_of_ne
    rintro rfl
    exact job?_ne_of_keepers hkept hmem hother

/-- A fetch is started as it was pledged. -/
theorem launch {id number : Nat} {graph : Graph κ}
    (hsound : (batcher.push [.launch id number graph]).Sound)
    (h : Underway first (batcher.push [.launch id number graph]) started) :
    Underway first (batcher.launch id number graph) (started ++ [(number, id, graph)]) := by
  obtain ⟨waiters, live, fetch, hready⟩ : ∃ waiters live fetch,
      batcher.job? number = some ⟨waiters, .inFlight live fetch⟩ :=
    h.ready _ (List.mem_cons_self ..)
  have hkept := (hsound.keepers_eq_zero rfl).1
  have hnew := hsound.pop.fetch?_nextFetch
  have hnext : batcher.nextFetch = first.nextFetch + started.length := h.nextFetch
  have hfetches : batcher.fetches = first.fetches ++ numbered first.nextFetch started := h.fetches
  unfold Batcher.launch
  simp only [hready]
  constructor
  · exact h.kind
  · rw [← h.pledges, List.append_assoc]
    rfl
  · refine (Assoc.insert_of_find?_eq_none hnew).trans ?_
    rw [hnext, hfetches, numbered_concat, List.append_assoc]
    rfl
  · rw [List.length_append, ← Nat.add_assoc, ← hnext]
    rfl
  · intro next hmem
    have hbefore : next.Ready first batcher := h.ready next (List.mem_append_right _ hmem)
    apply hbefore.congr
    intro kept hother
    refine job?_setJob_of_ne ?_ _ _
    rintro rfl
    exact job?_ne_of_keepers hkept hmem hother

theorem dropJob {number : Nat} (hsound : (batcher.push [.dropJob number]).Sound)
    (h : Underway first (batcher.push [.dropJob number]) started) :
    Underway first (batcher.dropJob number) started := by
  have hkept := (hsound.keepers_eq_zero rfl).1
  unfold Batcher.dropJob
  split
  · exact h.idle_nil rfl rfl rfl rfl rfl fun _ _ _ _ => rfl
  · rename_i job hjob
    refine h.idle (job.waiters.flatMap Waiter.discard) rfl (free_flatMap free_discard _) ?_
      rfl rfl rfl rfl ?_
    · intro fetch hmem
      obtain ⟨waiter, _, hcall⟩ := List.mem_flatMap.1 hmem
      simp [Waiter.discard, Waiter.call] at hcall
    · intro other hmem kept hother
      apply Assoc.find?_erase_of_ne
      rintro rfl
      exact job?_ne_of_keepers hkept hmem hother

/-- Every instruction that cancels nothing keeps the run under way. -/
theorem execute {instruction : Instruction κ} (hsound : (batcher.push [instruction]).Sound)
    (hstage : ∀ key, (batcher.push [instruction]).AtStage key)
    (hquiet : ∀ key target, instruction ≠ .react key (.cancel target))
    (h : Underway first (batcher.push [instruction]) started) :
    ∃ more, Underway first (batcher.execute instruction) (started ++ more) := by
  have hsame : Underway first (batcher.execute instruction) started →
      ∃ more, Underway first (batcher.execute instruction) (started ++ more) :=
    fun hafter => ⟨[], by rwa [List.append_nil]⟩
  cases instruction with
  | call key handler callback =>
    apply hsame
    refine h.idle ((handler.reactions callback.moment).map (.react key)) rfl ?_ ?_
      rfl rfl rfl rfl fun _ _ _ _ => rfl
    · intro next hmem
      obtain ⟨reaction, _, rfl⟩ := List.mem_map.1 hmem
      rfl
    · simp
  | react key reaction =>
    apply hsame
    cases reaction with
    | cancel target => exact absurd rfl (hquiet key target)
    | submit id graph handler => exact h.request rfl id graph handler
  | note occurrence =>
    exact hsame (h.idle_nil rfl rfl rfl rfl rfl fun _ _ _ _ => rfl)
  | mark key standing =>
    exact hsame (h.idle_nil rfl rfl rfl rfl rfl fun _ _ _ _ => rfl)
  | enqueue key id graph handler => exact hsame (h.enqueue hsound.pop (hstage key))
  | flush id number => exact hsame (h.flush hsound)
  | restore id number graph waiters => exact hsame (h.restore hsound)
  | launch id number graph => exact ⟨_, h.launch hsound⟩
  | endFetch fetch => exact (h.ready _ (List.mem_cons_self ..)).elim
  | dropJob number => exact hsame (h.dropJob hsound)

end Underway

def pledged (batcher : Batcher κ) : List (Nat × Nat × Graph κ) :=
  batcher.queue.flatMap fun entry => (Instruction.flush entry.1 entry.2).pledges batcher

def cancelsNext (batcher : Batcher κ) : Bool :=
  match batcher.agenda with
  | .react _ (.cancel _) :: _ => true
  | _ => false

/-- Whether no handler cancels a request within a number of instructions. -/
def undisturbed : Nat → Batcher κ → Bool
  | 0, _ => true
  | fuel + 1, batcher => !batcher.cancelsNext && undisturbed fuel batcher.step

variable [DecidableEq κ] [Catalog κ]

theorem underway_run (h : batcher.agenda = []) : Underway batcher (batcher.start .run) [] where
  kind := rfl
  pledges := by
    simp [Batcher.start, push, h, List.flatMap_map]
  fetches := (List.append_nil _).symm
  nextFetch := rfl
  ready instruction hmem := by
    simp only [Batcher.start, push, h, List.append_nil] at hmem
    obtain ⟨entry, _, rfl⟩ := List.mem_map.1 hmem
    rfl

theorem Underway.steps {kind : κ} {fuel : Nat} {started : List (Nat × Nat × Graph κ)}
    (h : Underway first batcher started) (hreachable : Reachable kind batcher)
    (hquiet : batcher.undisturbed fuel = true) :
    ∃ more, Underway first (batcher.steps fuel) (started ++ more) := by
  induction fuel generalizing batcher started with
  | zero => exact ⟨[], by rwa [List.append_nil]⟩
  | succ fuel ih =>
    rw [undisturbed, Bool.and_eq_true, Bool.not_eq_true'] at hquiet
    have hnext : Reachable kind batcher.step := hreachable.trans (reaches_steps 1 batcher)
    obtain ⟨more, hmore⟩ : ∃ more, Underway first batcher.step (started ++ more) := by
      cases hagenda : batcher.agenda with
      | nil =>
        rw [step_eq_self hagenda]
        exact ⟨[], by rwa [List.append_nil]⟩
      | cons instruction rest =>
        have hsound := hreachable.sound
        have hstage := hreachable.atStage
        obtain ⟨before, rfl, hstep⟩ := step_eq_execute hagenda
        rw [hstep]
        apply h.execute hsound hstage
        rintro key target rfl
        rw [cancelsNext, hagenda] at hquiet
        cases hquiet.1
    obtain ⟨last, hlast⟩ := ih hmore hnext hquiet.2
    exact ⟨more ++ last, by rwa [← List.append_assoc]⟩

/-- When nothing is cancelled while a window is run, every fetch that was pledged is started, and
no other. -/
theorem fetches_run {kind : κ} (h : Reachable kind batcher) (hrest : batcher.agenda = [])
    (hquiet : (batcher.start .run).undisturbed (batcher.start .run).weight = true) :
    (batcher.perform .run).fetches =
        batcher.fetches ++ numbered batcher.nextFetch batcher.pledged ∧
      (batcher.perform .run).nextFetch = batcher.nextFetch + batcher.pledged.length := by
  obtain ⟨started, hall⟩ :=
    (underway_run hrest).steps (h.trans (reaches_start .run batcher)) hquiet
  have hpledges := hall.pledges
  rw [List.nil_append, agenda_steps (Nat.le_refl _), List.flatMap_nil, List.append_nil] at hpledges
  have hstarted : started = batcher.pledged := hpledges
  rw [hstarted, List.nil_append] at hall
  exact ⟨hall.fetches, hall.nextFetch⟩

end Batcher

end PartialEntity
