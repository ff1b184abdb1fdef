import Mathlib
import PartialEntity.Proofs.Batch.Requests
import PartialEntity.Proofs.Batch.Window
import PartialEntity.Proofs.Graph.Union

/-!
# Jobs whose window was closed

A request stays tied to the job that it was put in, and its waiter is nowhere else.  When a window
is closed its jobs depart: whatever is done with the batcher from then on, nobody gets on, and what
is fetched for a job is the union of what was asked for by those who were on board when the job was
sent in flight.
-/

namespace PartialEntity

open Batch

variable {κ : Type}

/-- A job asks for the union of what its waiters ask for. -/
theorem Batch.Job.union_eq (kind : κ) (job : Job κ) :
    job.union kind = Graph.unionAll kind (job.waiters.map (·.graph)) := by
  rw [Job.union, Graph.unionAll, List.foldl_map]

namespace Batcher

variable {batcher : Batcher κ}

/-! ## Every waiter is in the job of its request -/

/-- Every request that has a seat is tied to the job that it has the seat in. -/
def Registered (batcher : Batcher κ) : Prop :=
  ∀ seat ∈ batcher.seats, ∃ standing,
    batcher.requests[seat.key]? = some ⟨standing, some seat.job⟩

theorem Registered.of_seats {before after : Batcher κ} (h : before.Registered)
    (hseats : after.seats ⊆ before.seats) (hrequests : RequestsPrecede before after) :
    after.Registered := by
  intro seat hmem
  obtain ⟨standing, hrequest⟩ := h seat (hseats hmem)
  obtain ⟨later, hlater, _⟩ := hrequests.tied hrequest
  exact ⟨later, hlater⟩

/-- A request that waits in a job is tied to it. -/
theorem Registered.job_eq (h : batcher.Registered) {number tied : Nat} {job : Job κ}
    (hjob : batcher.job? number = some job) {waiter : Waiter κ} (hmem : waiter ∈ job.waiters)
    {standing : Standing} (hrequest : batcher.requests[waiter.key]? = some ⟨standing, some tied⟩) :
    tied = number := by
  obtain ⟨other, hseat⟩ := h _ (mem_seats_of_job hjob hmem)
  have hsame := hrequest.symm.trans hseat
  exact Option.some.inj (congrArg Request.job (Option.some.inj hsame))

/-- An instruction leaves no seat without a request that is tied to it. -/
theorem Registered.execute {instruction : Instruction κ}
    (h : (batcher.push [instruction]).Registered)
    (hsound : (batcher.push [instruction]).Sound)
    (hstage : ∀ key, (batcher.push [instruction]).AtStage key) :
    (batcher.execute instruction).Registered := by
  have hrequests := RequestsPrecede.execute hsound hstage
  cases instruction with
  | enqueue key id graph handler =>
    obtain ⟨number, hseated⟩ := exists_seated hsound.pop (hstage key)
    have hpopped : batcher.Registered := h.of_seats (Dwindles.pop _ _).seats (.of_eq rfl)
    intro seat hmem
    rcases hseated.seats seat hmem with hold | rfl
    · obtain ⟨standing, hrequest⟩ := hpopped seat hold
      obtain ⟨later, hlater, _⟩ := hrequests.tied hrequest
      exact ⟨later, hlater⟩
    · obtain ⟨standing, _, hchanged⟩ := hseated.requests
      exact ⟨standing, (hchanged key).trans (if_pos rfl)⟩
  | flush id job =>
    exact h.of_seats (fun _ hmem => (Dwindles.pop _ _).seats (mem_seats_flush hmem)) hrequests
  | _ => exact h.of_seats (Dwindles.execute hsound (by simp) (by simp)).seats hrequests

theorem seats_run [DecidableEq κ] [Catalog κ] (batcher : Batcher κ) :
    (batcher.start .run).seats = batcher.seats := by
  simp [Batcher.start, seats, push, List.flatMap_append, List.flatMap_map, Instruction.seats]

theorem Registered.start [DecidableEq κ] [Catalog κ] {operation : Operation κ}
    (h : batcher.Registered) (hsound : batcher.Sound) :
    (batcher.start operation).Registered := by
  have hrequests := RequestsPrecede.start operation batcher
  by_cases hrun : operation = .run
  · subst hrun
    apply h.of_seats _ hrequests
    rw [seats_run]
    exact List.Subset.refl _
  · exact h.of_seats (Dwindles.start hsound hrun).seats hrequests

/-! ## Departed jobs -/

/-- A job with its crew whose window was closed.  What is fetched for it is what its members have
asked for: all who are on board, and nobody from outside the crew. -/
structure Departed (kind : κ) (id number : Nat) (crew : List (Seat κ)) (batcher : Batcher κ) :
    Prop where
  kind_eq : batcher.kind = kind
  number_lt : number < batcher.nextJob
  notMem_queue : number ∉ batcher.queue.map (·.2)
  seats : ∀ seat ∈ batcher.seats, seat.job = number → seat ∈ crew
  errands : ∀ errand ∈ batcher.errands, errand.job = number → errand.id = id ∧
    ∀ graph ∈ errand.graph, ∃ members ⊆ crew,
      graph = Graph.unionAll kind (members.map (·.graph)) ∧
      ∀ seat ∈ batcher.seats, seat.job = number → seat ∈ members

namespace Departed

variable {kind : κ} {id number : Nat} {crew : List (Seat κ)}

/-- Fewer seats and errands are as good. -/
theorem of_subset {before after : Batcher κ} (h : before.Departed kind id number crew)
    (hkind : after.kind = before.kind) (hnext : before.nextJob ≤ after.nextJob)
    (hqueue : number ∉ after.queue.map (·.2))
    (hseats : ∀ seat ∈ after.seats, seat.job = number → seat ∈ before.seats)
    (herrands : after.errands ⊆ before.errands) : after.Departed kind id number crew where
  kind_eq := hkind.trans h.kind_eq
  number_lt := Nat.lt_of_lt_of_le h.number_lt hnext
  notMem_queue := hqueue
  seats seat hmem hjob := h.seats seat (hseats seat hmem hjob) hjob
  errands errand hmem hjob := by
    obtain ⟨hid, hgraph⟩ := h.errands errand (herrands hmem) hjob
    refine ⟨hid, fun graph hsome => ?_⟩
    obtain ⟨members, hcrew, hunion, hmembers⟩ := hgraph graph hsome
    exact ⟨members, hcrew, hunion,
      fun seat hmem hjob => hmembers seat (hseats seat hmem hjob) hjob⟩

/-- A job that has departed stays so as long as no seat and no errand comes up. -/
theorem dwindles {before after : Batcher κ} (h : before.Departed kind id number crew)
    (hafter : Dwindles before after) : after.Departed kind id number crew :=
  h.of_subset hafter.kind hafter.nextJob_le
    (fun hmem => h.notMem_queue (List.map_subset _ hafter.queue hmem))
    (fun _ hmem _ => hafter.seats hmem) hafter.errands

/-- Nobody else's seat keeps a job that has departed from being so. -/
theorem seated {before after : Batcher κ} (h : before.Departed kind id number crew)
    {key other : Nat} {graph : Graph κ} (hafter : Seated key graph other before after) :
    after.Departed kind id number crew := by
  obtain ⟨hne, hqueue⟩ := hafter.aside number h.number_lt h.notMem_queue
  apply h.of_subset hafter.kind hafter.nextJob_le hqueue _ hafter.errands
  intro seat hmem hjob
  apply (hafter.seats seat hmem).resolve_right
  rintro rfl
  exact hne hjob.symm

/-- When a job is sent in flight, its members are those who are on board. -/
theorem flush {other target : Nat} (hsound : (batcher.push [.flush other target]).Sound)
    (h : (batcher.push [.flush other target]).Departed kind id number crew) :
    (batcher.flush other target).Departed kind id number crew := by
  have hpopped := h.dwindles (Dwindles.pop _ _)
  obtain ⟨hkind, hnext, hqueue, _⟩ := frame_flush other target batcher
  have hseats : ∀ seat ∈ (batcher.flush other target).seats, seat ∈ batcher.seats :=
    fun seat hmem => mem_seats_flush hmem
  constructor
  · exact hkind.trans hpopped.kind_eq
  · rw [hnext]
    exact hpopped.number_lt
  · rw [hqueue]
    exact hpopped.notMem_queue
  · exact fun seat hmem hjob => hpopped.seats seat (hseats seat hmem) hjob
  · intro errand hmem hjob
    rcases mem_errands_flush hmem with hold | ⟨job, hfound, rfl⟩
    · obtain ⟨hid, hgraph⟩ := hpopped.errands errand hold hjob
      refine ⟨hid, fun graph hsome => ?_⟩
      obtain ⟨members, hcrew, hunion, hmembers⟩ := hgraph graph hsome
      exact ⟨members, hcrew, hunion, fun seat hmem hjob => hmembers seat (hseats seat hmem) hjob⟩
    · obtain rfl : target = number := hjob
      have hid : other = id := by
        have herrand : ⟨target, other, none⟩ ∈ (batcher.push [.flush other target]).errands := by
          apply mem_errands_push.2
          simp [Instruction.errands]
        exact (h.errands _ herrand rfl).1
      refine ⟨hid, ?_⟩
      rintro graph ⟨⟩
      refine ⟨job.waiters.map (Waiter.seat target), ?_, ?_, ?_⟩
      · intro seat hmem
        obtain ⟨waiter, hwaiter, rfl⟩ := List.mem_map.1 hmem
        exact hpopped.seats _ (mem_seats_of_job hfound hwaiter) rfl
      · rw [hpopped.kind_eq, Job.union_eq, List.map_map]
        rfl
      · intro seat hmem hjob
        rcases mem_seats_cases hsound.pop (hseats seat hmem) with
          ⟨found, hsame, hseat⟩ | ⟨instruction, hinstruction, hkeeps⟩
        · rw [hjob] at hsame hseat
          obtain rfl : found = job := Option.some.inj (hsame.symm.trans hfound)
          exact hseat
        · -- Nothing else looks after a job that is about to be sent in flight.
          rw [hjob] at hkeeps
          exact absurd hkeeps (job?_ne_of_keepers (hsound.keepers_eq_zero rfl).1 hinstruction)

/-- An instruction leaves a job departed. -/
theorem execute {instruction : Instruction κ} (hsound : (batcher.push [instruction]).Sound)
    (hstage : ∀ key, (batcher.push [instruction]).AtStage key)
    (h : (batcher.push [instruction]).Departed kind id number crew) :
    (batcher.execute instruction).Departed kind id number crew := by
  cases instruction with
  | enqueue key other graph handler =>
    obtain ⟨target, hseated⟩ := exists_seated hsound.pop (hstage key)
    exact (h.dwindles (Dwindles.pop _ _)).seated hseated
  | flush other target => exact flush hsound h
  | _ => exact h.dwindles (Dwindles.execute hsound (by simp) (by simp))

variable [DecidableEq κ] [Catalog κ]

/-- An operation leaves a job departed. -/
theorem start {operation : Operation κ} (hsound : batcher.Sound)
    (h : batcher.Departed kind id number crew) :
    (batcher.start operation).Departed kind id number crew := by
  by_cases hrun : operation = .run
  · subst hrun
    have hseats := seats_run batcher
    constructor
    · exact h.kind_eq
    · exact h.number_lt
    · exact List.not_mem_nil
    · rw [hseats]
      exact h.seats
    · intro errand hmem hjob
      rw [hseats]
      rcases mem_errands_push.1 hmem with hnew | hold
      · -- The job is not in the window that is closed now.
        rw [List.flatMap_map] at hnew
        obtain ⟨entry, hentry, herrand⟩ := List.mem_flatMap.1 hnew
        have heq := List.mem_singleton.1 herrand
        subst heq
        exact absurd (List.mem_map.2 ⟨entry, hentry, hjob⟩) h.notMem_queue
      · exact h.errands errand hold hjob
  · exact h.dwindles (Dwindles.start hsound hrun)

/-- When the window is closed its jobs depart, with those who wait in them. -/
theorem of_run (hsound : batcher.Sound) (hmem : (id, number) ∈ batcher.queue) :
    (batcher.start .run).Departed batcher.kind id number
      ((batcher.waiting id).map (Waiter.seat number)) := by
  have hfind : Assoc.find? id batcher.queue = some number :=
    Assoc.find?_eq_some_of_mem hsound.ids_nodup hmem
  have hidle : ∀ instruction ∈ batcher.agenda, instruction.job? ≠ some number :=
    fun instruction hinstruction hjob => hsound.notMem_queue_of_agenda hinstruction hjob
      (List.mem_map_of_mem (f := (·.2)) hmem)
  constructor
  · rfl
  · exact hsound.queued_lt hmem
  · exact List.not_mem_nil
  · intro seat hseat hjob
    rw [seats_run] at hseat
    rcases mem_seats_cases hsound hseat with ⟨job, hfound, htaken⟩ | ⟨instruction, hin, hkeeps⟩
    · rw [hjob] at hfound htaken
      simpa [Batcher.waiting, hfind, hfound] using htaken
    · rw [hjob] at hkeeps
      exact absurd hkeeps (hidle instruction hin)
  · intro errand herrand hjob
    rcases mem_errands_push.1 herrand with hnew | hold
    · rw [List.flatMap_map] at hnew
      obtain ⟨⟨other, target⟩, hentry, hflush⟩ := List.mem_flatMap.1 hnew
      obtain rfl := List.mem_singleton.1 hflush
      obtain rfl : target = number := hjob
      exact ⟨hsound.id_unique hfind (Assoc.find?_eq_some_of_mem hsound.ids_nodup hentry), by simp⟩
    · rcases List.mem_append.1 hold with hagenda | hfetch
      · obtain ⟨instruction, hin, hdoes⟩ := List.mem_flatMap.1 hagenda
        exact absurd (hjob ▸ Instruction.job?_of_errand hdoes) (hidle instruction hin)
      · obtain ⟨entry, hentry, rfl⟩ := List.mem_map.1 hfetch
        obtain rfl : entry.2.job = number := hjob
        exact absurd (List.mem_map_of_mem (f := (·.2)) hmem) (hsound.notMem_queue_of_fetch hentry)

end Departed

/-! ## All that can come later -/

section

variable [DecidableEq κ] [Catalog κ] {kind : κ} {later : Batcher κ}

/-- In whatever a new batcher can become, every seat belongs to a request that is tied to it. -/
theorem Reachable.registered (h : Reachable kind batcher) : batcher.Registered := by
  apply Reachable.invariant (P := Registered) (.refl (.empty kind)) h
  · exact fun _ _ hsound hbefore => hbefore.start hsound
  · exact fun _ _ hsound hstage hbefore => hbefore.execute hsound hstage
  · intro seat hmem
    cases hmem

theorem Reachable.kind_eq (h : Reachable kind batcher) : batcher.kind = kind := by
  apply Reachable.invariant (P := fun state => state.kind = kind) (.refl (.empty kind)) h
  · intro operation before hsound hbefore
    by_cases hrun : operation = .run
    · rw [hrun]
      exact hbefore
    · exact (Dwindles.start hsound hrun).kind.trans hbefore
  · intro instruction before hsound hstage hbefore
    cases instruction with
    | enqueue key id graph handler =>
      obtain ⟨number, hseated⟩ := exists_seated hsound.pop (hstage key)
      exact hseated.kind.trans hbefore
    | flush id job => exact (frame_flush id job before).1.trans hbefore
    | _ => exact (Dwindles.execute hsound (by simp) (by simp)).kind.trans hbefore
  · rfl

/-- A job of a window that was closed has departed for good. -/
theorem Reachable.departed (h : Reachable kind batcher) {id number : Nat}
    (hmem : (id, number) ∈ batcher.queue) (hlater : Reaches (batcher.start .run) later) :
    later.Departed batcher.kind id number ((batcher.waiting id).map (Waiter.seat number)) := by
  have hrun : Reachable kind (batcher.start .run) := h.trans (reaches_start _ _)
  apply Reachable.invariant (P := fun state => state.Departed batcher.kind id number
    ((batcher.waiting id).map (Waiter.seat number))) hrun hlater
  · exact fun _ _ hsound hbefore => hbefore.start hsound
  · exact fun _ _ hsound hstage hbefore => hbefore.execute hsound hstage
  · exact .of_run h.sound hmem

/-! ## Windows -/

variable {first : Batcher κ} {log : List (Submission κ)} {id number : Nat}

omit [DecidableEq κ] [Catalog κ] in
/-- Whoever was not cancelled was not cancelled before. -/
theorem RequestsPrecede.survivors_subset (h : RequestsPrecede batcher later)
    (hattached : ∀ submission ∈ log, batcher.WasQueued submission.key) :
    later.survivors log id ⊆ batcher.survivors log id := by
  intro submission hsurvives
  obtain ⟨hlog, hlive⟩ := List.mem_filter.1 hsurvives
  refine List.mem_filter.2 ⟨hlog, ?_⟩
  obtain ⟨standing, job, hrequest⟩ := hattached submission hlog
  obtain ⟨now, hnow, hends⟩ := h.tied hrequest
  have hstays : standing = .cancelled → now = .cancelled := by
    rintro rfl
    exact hends (by simp)
  simp only [standing?, hrequest, hnow, Option.map_some] at hlive ⊢
  cases standing <;> simp_all

/-- A request that was not cancelled before its window is closed waits in the job of its id. -/
theorem Window.exists_waiting (h : Window kind first log batcher) (hrest : batcher.agenda = [])
    (hmem : (id, number) ∈ batcher.queue) {submission : Submission κ}
    (hsurvives : submission ∈ batcher.survivors log id) :
    ∃ waiter ∈ batcher.waiting id, waiter.submission id = submission ∧
      batcher.requests[submission.key]? = some ⟨.pending, some number⟩ := by
  have hbatcher := h.reachable
  rw [← h.accounted.waiting_eq_survivors hrest] at hsurvives
  obtain ⟨waiter, hwaiter, rfl⟩ := List.mem_map.1 hsurvives
  refine ⟨waiter, hwaiter, rfl, ?_⟩
  have hstage := hbatcher.atStage waiter.key
  obtain ⟨first, rest, hheld⟩ :=
    List.exists_cons_of_ne_nil (List.ne_nil_of_mem (mem_held_of_mem_waiting hwaiter))
  rw [AtStage, hheld] at hstage
  obtain ⟨_, ⟨job, hpending⟩, _⟩ := hstage.of_flags
  have hfind : Assoc.find? id batcher.queue = some number :=
    Assoc.find?_eq_some_of_mem hbatcher.sound.ids_nodup hmem
  cases hfound : batcher.job? number with
  | none => simp [waiting, hfind, hfound] at hwaiter
  | some found =>
    have hmine : waiter ∈ found.waiters := by simpa [waiting, hfind, hfound] using hwaiter
    obtain rfl := hbatcher.registered.job_eq hfound hmine hpending
    exact hpending

/-- A fetch for a job of a closed window is for requests of the window, and whoever still waits in
the job is one of them. -/
theorem Window.sealed (h : Window kind first log batcher) (hrest : batcher.agenda = [])
    (hlater : Reaches (batcher.start .run) later) {entry : Nat × Fetch κ}
    (hentry : entry ∈ later.fetches) (hmem : (id, entry.2.job) ∈ batcher.queue) :
    entry.2.id = id ∧ ∃ members ⊆ batcher.survivors log id,
      entry.2.graph = Graph.unionAll kind (members.map (·.graph)) ∧
      ∀ job, later.job? entry.2.job = some job →
        job.waiters.map (Waiter.submission id) ⊆ members := by
  have hbatcher := h.reachable
  have hdeparted := hbatcher.departed hmem hlater
  have herrand : entry.2.errand ∈ later.errands :=
    List.mem_append_right _ (List.mem_map.2 ⟨entry, hentry, rfl⟩)
  obtain ⟨hid, hgraph⟩ := hdeparted.errands _ herrand rfl
  obtain ⟨seats, hcrew, hunion, haboard⟩ := hgraph entry.2.graph rfl
  refine ⟨hid, seats.map fun seat => ⟨seat.key, id, seat.graph⟩, ?_, ?_, ?_⟩
  · intro submission hsubmission
    obtain ⟨seat, hseat, rfl⟩ := List.mem_map.1 hsubmission
    obtain ⟨waiter, hwaiter, rfl⟩ := List.mem_map.1 (hcrew hseat)
    rw [← h.accounted.waiting_eq_survivors hrest]
    exact List.mem_map_of_mem (f := Waiter.submission id) hwaiter
  · rw [hunion, hbatcher.kind_eq, List.map_map]
    rfl
  · intro job hjob submission hsubmission
    obtain ⟨waiter, hwaiter, rfl⟩ := List.mem_map.1 hsubmission
    exact List.mem_map.2 ⟨_, haboard _ (mem_seats_of_job hjob hwaiter) rfl, rfl⟩

end

end Batcher

end PartialEntity
