import Mathlib
import PartialEntity.Proofs.Batch.Lifecycle

/-!
# Queueing

A request that is queued joins the job that the open window has for its id, as the last waiter
there, and is tied to that job.  If it was cancelled before, it leaves the job at once.  Jobs that
the window does not keep are not concerned.
-/

namespace PartialEntity.Batcher

open Batch

variable {κ : Type} {batcher : Batcher κ}

/-- The job of a fetch is not in the window. -/
theorem Sound.notMem_queue_of_fetch (h : batcher.Sound) {entry : Nat × Fetch κ}
    (hmem : entry ∈ batcher.fetches) : entry.2.job ∉ batcher.queue.map (·.2) := by
  intro hqueue
  obtain ⟨queued, hqueued, hjob⟩ := List.mem_map.1 hqueue
  have hle := h.keepers_le entry.2.job
  have hfetch : 0 < batcher.fetches.countP (fun other => other.2.job == entry.2.job) :=
    List.countP_pos_iff.2 ⟨entry, hmem, by simp⟩
  have hwindow : 0 < batcher.queue.countP (fun other => other.2 == entry.2.job) :=
    List.countP_pos_iff.2 ⟨queued, hqueued, by simp [hjob]⟩
  simp only [keepers] at hle
  omega

/-- The job that an instruction looks after is not in the window. -/
theorem Sound.notMem_queue_of_agenda (h : batcher.Sound) {instruction : Instruction κ}
    (hmem : instruction ∈ batcher.agenda) {number : Nat} (hjob : instruction.job? = some number) :
    number ∉ batcher.queue.map (·.2) := by
  intro hqueue
  obtain ⟨queued, hqueued, rfl⟩ := List.mem_map.1 hqueue
  have hle := h.keepers_le queued.2
  have hagenda := keepersIn_pos hmem hjob
  have hwindow : 0 < batcher.queue.countP (fun other => other.2 == queued.2) :=
    List.countP_pos_iff.2 ⟨queued, hqueued, by simp⟩
  simp only [keepers] at hle
  omega

/-- The number of the next fetch is free. -/
theorem Sound.fetch?_nextFetch (h : batcher.Sound) : batcher.fetch? batcher.nextFetch = none := by
  apply Assoc.find?_eq_none_iff.2
  intro hmem
  exact Nat.lt_irrefl _ (h.fetch_lt _ hmem)

theorem duties_of_rest (hrest : batcher.agenda = []) (key : Nat) : batcher.duties key = [] := by
  rw [duties, hrest, dutiesIn_nil]

/-- A request was queued: it is tied to its job. -/
def WasQueued (key : Nat) (batcher : Batcher κ) : Prop :=
  ∃ standing job, batcher.requests[key]? = some ⟨standing, some job⟩

/-- Between two operations every request was queued. -/
theorem AtStage.wasQueued {key : Nat} (h : batcher.AtStage key) (hrest : batcher.agenda = [])
    (hlt : key < batcher.requests.length) : batcher.WasQueued key := by
  rw [AtStage, duties_of_rest hrest, List.getElem?_eq_getElem hlt] at h
  rw [WasQueued, List.getElem?_eq_getElem hlt]
  exact h.exists_job_of_idle

theorem WasQueued.lt_length {key : Nat} (h : batcher.WasQueued key) :
    key < batcher.requests.length := by
  obtain ⟨_, _, hrequest⟩ := h
  exact (List.getElem?_eq_some_iff.1 hrequest).1

/-- The waiters in the job that the open window has for an id. -/
def waiting (batcher : Batcher κ) (id : Nat) : List (Waiter κ) :=
  (((Assoc.find? id batcher.queue).bind batcher.job?).map (·.waiters)).getD []

theorem mem_held_of_mem_waiting {id : Nat} {waiter : Waiter κ}
    (h : waiter ∈ batcher.waiting id) : waiter ∈ batcher.held waiter.key := by
  unfold waiting at h
  cases hfind : (Assoc.find? id batcher.queue).bind batcher.job? with
  | none => simp [hfind] at h
  | some job =>
    obtain ⟨number, _, hjob⟩ := Option.bind_eq_some_iff.1 hfind
    have hmem : waiter ∈ job.waiters := by simpa [hfind] using h
    apply List.mem_flatMap.2
    use (number, job), Assoc.mem_of_find? hjob
    exact List.mem_filter.2 ⟨hmem, by simp⟩

/-- The only waiter of a request is the one that its job finds. -/
theorem waiter?_of_held {key number : Nat} {job : Job κ} {waiter : Waiter κ}
    (hheld : batcher.held key = [waiter]) (hjob : batcher.job? number = some job)
    (hmem : waiter ∈ waitersOf key job.waiters) : job.waiter? key = some waiter := by
  have honly : ∀ other ∈ waitersOf key job.waiters, other = waiter := by
    intro other hother
    apply List.mem_singleton.1
    rw [← hheld]
    exact List.mem_flatMap.2 ⟨_, Assoc.mem_of_find? hjob, hother⟩
  rw [job.waiter?_eq_head?]
  cases hwaiters : waitersOf key job.waiters with
  | nil => simp [hwaiters] at hmem
  | cons first rest =>
    rw [List.head?_cons, honly first (by rw [hwaiters]; exact List.mem_cons_self ..)]

/-- A job that the window does not keep can change without the window. -/
theorem waiting_congr {other : Batcher κ} (hqueue : other.queue = batcher.queue)
    (hjobs : ∀ number ∈ batcher.queue.map (·.2), other.job? number = batcher.job? number)
    (id : Nat) : other.waiting id = batcher.waiting id := by
  unfold waiting
  rw [hqueue]
  cases hfind : Assoc.find? id batcher.queue with
  | none => rfl
  | some number =>
    have hmem : number ∈ batcher.queue.map (·.2) :=
      List.mem_map.2 ⟨_, Assoc.mem_of_find? hfind, rfl⟩
    simp only [Option.bind_some, hjobs number hmem]

theorem waiting_setJob (number : Nat) (job : Job κ) (batcher : Batcher κ) (id : Nat) :
    (batcher.setJob number job).waiting id =
      if Assoc.find? id batcher.queue = some number then job.waiters else batcher.waiting id := by
  have hqueue : (batcher.setJob number job).queue = batcher.queue := rfl
  unfold waiting
  rw [hqueue]
  cases hfind : Assoc.find? id batcher.queue with
  | none => simp
  | some other =>
    by_cases heq : other = number
    · simp [heq]
    · simp [heq, job?_setJob_of_ne heq]

/-- Taking the waiter of a request out of its job takes it out of the window. -/
theorem waiting_setJob_without {key number : Nat} {job rest : Job κ} {waiter : Waiter κ}
    (hlength : (batcher.held key).length ≤ 1) (hjob : batcher.job? number = some job)
    (hwaiter : job.waiter? key = some waiter) (hrest : rest.waiters = job.without key) (id : Nat) :
    (batcher.setJob number rest).waiting id =
      (batcher.waiting id).filter fun other => !(other.key == key) := by
  rw [waiting_setJob]
  split
  · rename_i hfind
    rw [hrest]
    simp [waiting, hfind, hjob, Job.without]
  · rename_i hfind
    -- The request has no waiter anywhere else.
    obtain ⟨before, after, hheld⟩ := held_setJob hjob
    obtain ⟨hold, hnew⟩ := hheld key
    have hmine : waiter ∈ waitersOf key job.waiters := by
      apply List.mem_of_mem_head?
      rw [← job.waiter?_eq_head?, hwaiter]
      rfl
    have hpos := List.length_pos_of_mem hmine
    rw [hold] at hlength
    simp only [List.length_append] at hlength
    have hbefore : before key = [] := List.length_eq_zero_iff.1 (by omega)
    have hafter : after key = [] := List.length_eq_zero_iff.1 (by omega)
    have hempty : (batcher.setJob number ⟨[], .settled⟩).held key = [] := by
      rw [hnew, hbefore, hafter]
      rfl
    symm
    apply List.filter_eq_self.2
    intro other hother
    have hin : other ∈ (batcher.setJob number ⟨[], .settled⟩).waiting id := by
      rw [waiting_setJob, if_neg hfind]
      exact hother
    have hheld := mem_held_of_mem_waiting hin
    by_contra hkey
    have hkey : other.key = key := by simpa using hkey
    rw [hkey, hempty] at hheld
    cases hheld

/-- The waiter that joins is the last one that waits for its id. -/
theorem waiting_join (hsound : batcher.Sound) (id : Nat) (waiter : Waiter κ) (other : Nat) :
    (batcher.join id waiter).2.waiting other =
      batcher.waiting other ++ if other = id then [waiter] else [] := by
  have hreplace : ∀ jobs : List (Nat × Job κ), batcher.waiting id = [] →
      (∀ number, Assoc.find? other batcher.queue = some number → other ≠ id →
        Assoc.find? number jobs = batcher.job? number) →
      (enqueue.replace id waiter { batcher with jobs }).waiting other =
        batcher.waiting other ++ if other = id then [waiter] else [] := by
    intro jobs hnone hothers
    by_cases hid : other = id
    · subst hid
      rw [hnone, if_pos rfl]
      simp [Batcher.waiting, enqueue.replace, job?, Job.push, Job.empty]
    · rw [if_neg hid, List.append_nil]
      unfold Batcher.waiting
      simp only [enqueue.replace, Assoc.find?_insert_of_ne hid]
      cases hfind : Assoc.find? other batcher.queue with
      | none => rfl
      | some number =>
        have hlt := hsound.queued_lt (Assoc.mem_of_find? hfind)
        have hne : number ≠ batcher.nextJob := Nat.ne_of_lt hlt
        simp only [Option.bind_some, job?, Assoc.find?_insert_of_ne hne]
        rw [hothers number hfind hid, job?]
  rcases join_cases id waiter batcher with
    ⟨number, job, hfind, hjob, _, heq⟩ | ⟨number, job, hfind, hjob, hclosed, heq⟩ | ⟨hfind, heq⟩
  · rw [heq, waiting_setJob]
    by_cases hid : other = id
    · subst hid
      simp [Batcher.waiting, hfind, hjob, Job.push]
    · rw [if_neg hid, List.append_nil]
      apply if_neg
      intro hother
      exact hid (hsound.id_unique hfind hother)
  · rw [heq]
    apply hreplace
    · have hvacant : job.waiters = [] :=
        hsound.closed _ (Assoc.mem_of_find? hfind) job hjob hclosed
      simp [Batcher.waiting, hfind, hjob, hvacant]
    · intro number' hother hid
      apply Assoc.find?_erase_of_ne
      rintro rfl
      exact hid (hsound.id_unique hfind hother)
  · rw [heq]
    apply hreplace batcher.jobs
    · simp [Batcher.waiting, hfind]
    · intro number _ _
      rfl

/-- What becomes of the jobs and of the window when a waiter joins a job. -/
structure Joined (id number : Nat) (job : Job κ) (waiter : Waiter κ) (batcher joined : Batcher κ) :
    Prop where
  found : joined.job? number = some job
  isOpen : job.isOpen = true
  mem : waiter ∈ job.waiters
  /-- Who else waits in the job has waited there before. -/
  others : ∀ other ∈ job.waiters, other = waiter ∨
    ∃ old, batcher.job? number = some old ∧ other ∈ old.waiters
  find : Assoc.find? id joined.queue = some number
  /-- Other jobs stay as they are, or they make room. -/
  stays : ∀ other ≠ number, ∀ old, joined.job? other = some old → batcher.job? other = some old
  /-- A job that the window does not keep is not concerned. -/
  aside : ∀ other < batcher.nextJob, other ∉ batcher.queue.map (·.2) →
    other ≠ number ∧ other ∉ joined.queue.map (·.2) ∧ joined.job? other = batcher.job? other
  nextJob_le : batcher.nextJob ≤ joined.nextJob

theorem joined_replace (id : Nat) (waiter : Waiter κ) (batcher : Batcher κ) :
    Joined id batcher.nextJob (Job.empty.push waiter) waiter batcher
      (enqueue.replace id waiter batcher) where
  found := job?_replace_self id waiter batcher
  isOpen := rfl
  mem := by simp [Job.push]
  others other hother := .inl (by simpa [Job.push, Job.empty] using hother)
  find := Assoc.find?_insert_self _ _ _
  stays other hne old hold := by rwa [job?_replace_of_ne hne] at hold
  aside other hlt hqueue := by
    have hne := Nat.ne_of_lt hlt
    refine ⟨hne, ?_, job?_replace_of_ne hne id waiter⟩
    intro hmem
    obtain ⟨entry, hentry, rfl⟩ := List.mem_map.1 hmem
    rcases Assoc.mem_alter hentry with hentry | rfl
    · exact hqueue (List.mem_map_of_mem hentry)
    · exact hne rfl
  nextJob_le := Nat.le_succ _

/-- A waiter joins an open job of the window. -/
theorem joined_join (id : Nat) (waiter : Waiter κ) (batcher : Batcher κ) :
    ∃ job, Joined id (batcher.join id waiter).1 job waiter batcher (batcher.join id waiter).2 := by
  rcases join_cases id waiter batcher with
    ⟨number, job, hfind, hjob, hopen, heq⟩ | ⟨number, job, hfind, _, _, heq⟩ | ⟨_, heq⟩
  · rw [heq]
    exact ⟨job.push waiter, {
      found := job?_setJob_self _ _ _
      isOpen := hopen
      mem := by simp [Job.push]
      others := by
        intro other hother
        rcases List.mem_append.1 hother with hold | hnew
        · exact .inr ⟨job, hjob, hold⟩
        · exact .inl (List.mem_singleton.1 hnew)
      find := hfind
      stays := by
        intro other hne old hold
        rwa [job?_setJob_of_ne hne] at hold
      aside := by
        intro other _ hqueue
        have hne : other ≠ number := by
          rintro rfl
          exact hqueue (List.mem_map_of_mem (f := (·.2)) (Assoc.mem_of_find? hfind))
        exact ⟨hne, hqueue, job?_setJob_of_ne hne _ _⟩
      nextJob_le := Nat.le_refl _ }⟩
  · rw [heq]
    have hjoined :=
      joined_replace id waiter { batcher with jobs := Assoc.erase number batcher.jobs }
    have hcleared : ∀ other ≠ number,
        ({ batcher with jobs := Assoc.erase number batcher.jobs } : Batcher κ).job? other =
          batcher.job? other := fun other hne => Assoc.find?_erase_of_ne hne _
    exact ⟨_, { hjoined with
      others := by
        intro other hother
        exact .inl (by simpa [Job.push, Job.empty] using hother)
      stays := by
        intro other hne old hold
        have hfound := hjoined.stays other hne old hold
        by_cases heq : other = number
        · subst heq
          simp [job?] at hfound
        · rwa [hcleared other heq] at hfound
      aside := by
        intro other hlt hqueue
        obtain ⟨hne, hmem, hsame⟩ := hjoined.aside other hlt hqueue
        refine ⟨hne, hmem, hsame.trans (hcleared other ?_)⟩
        rintro rfl
        exact hqueue (List.mem_map_of_mem (f := (·.2)) (Assoc.mem_of_find? hfind)) }⟩
  · rw [heq]
    exact ⟨_, joined_replace id waiter batcher⟩

/-- A waiter has joined a job, and its request is tied to that job. -/
structure Tied (id number : Nat) (job : Job κ) (waiter : Waiter κ) (standing : Standing)
    (batcher tied : Batcher κ) : Prop extends Joined id number job waiter batcher tied where
  sound : tied.Sound
  frame : tied = { batcher with
    requests := tied.requests, queue := tied.queue, jobs := tied.jobs, nextJob := tied.nextJob }
  untied : batcher.requests[waiter.key]? = some ⟨standing, none⟩
  requests : ∀ key, tied.requests[key]? =
    if waiter.key = key then some ⟨standing, some number⟩ else batcher.requests[key]?
  waiting : ∀ other, tied.waiting other =
    batcher.waiting other ++ if other = id then [waiter] else []
  duties : batcher.duties waiter.key = []
  unheld : batcher.held waiter.key = []
  held : tied.held waiter.key = [waiter]

/-- The window is as before once the new waiter has left its job again. -/
theorem Tied.waiting_without {id number : Nat} {job rest : Job κ} {waiter : Waiter κ}
    {standing : Standing} {tied : Batcher κ} (h : Tied id number job waiter standing batcher tied)
    (hrest : rest.waiters = job.without waiter.key) (other : Nat) :
    (tied.setJob number rest).waiting other = batcher.waiting other := by
  have hmem : waiter ∈ waitersOf waiter.key job.waiters := List.mem_filter.2 ⟨h.mem, by simp⟩
  have hlength : (tied.held waiter.key).length ≤ 1 := by
    rw [h.held]
    exact Nat.le_refl 1
  have hold : (batcher.waiting other).filter (fun earlier => !(earlier.key == waiter.key)) =
      batcher.waiting other := by
    apply List.filter_eq_self.2
    intro earlier hearlier
    have hheld := mem_held_of_mem_waiting hearlier
    by_contra hkey
    have hkey : earlier.key = waiter.key := by simpa using hkey
    rw [hkey, h.unheld] at hheld
    cases hheld
  rw [waiting_setJob_without hlength h.found (waiter?_of_held h.held h.found hmem) hrest,
    h.waiting, List.filter_append, hold]
  split <;> simp

def tie (id : Nat) (waiter : Waiter κ) (batcher : Batcher κ) : Batcher κ :=
  (batcher.join id waiter).2.changeRequest waiter.key fun request =>
    { request with job := some (batcher.join id waiter).1 }

theorem exists_tied (hsound : batcher.Sound) {id : Nat} {waiter : Waiter κ}
    (hstage : (batcher.push
      [.enqueue waiter.key id waiter.graph waiter.handler]).AtStage waiter.key) :
    ∃ job standing,
      Tied id (batcher.join id waiter).1 job waiter standing batcher (batcher.tie id waiter) := by
  rw [AtStage, duties_push] at hstage
  simp only [dutiesIn_cons, dutiesIn_nil, Instruction.duties_enqueue, if_true,
    List.singleton_append, List.append_nil] at hstage
  obtain ⟨_, ⟨standing, _, hrequest⟩, hduties, hflags⟩ := hstage.enqueue
  have hrequest : batcher.requests[waiter.key]? = some ⟨standing, none⟩ := hrequest
  have hunheld : batcher.held waiter.key = [] := List.map_eq_nil_iff.1 hflags
  obtain ⟨before, after, hheld⟩ := held_join hsound id waiter
  obtain ⟨hold, hnew⟩ := hheld waiter.key
  obtain ⟨job, hjoined⟩ := joined_join id waiter batcher
  obtain ⟨queue, jobs, nextJob, hframe⟩ := join_frame id waiter batcher
  exact ⟨job, standing, {
    found := hjoined.found
    isOpen := hjoined.isOpen
    mem := hjoined.mem
    others := hjoined.others
    find := hjoined.find
    stays := hjoined.stays
    aside := hjoined.aside
    nextJob_le := hjoined.nextJob_le
    sound := (hsound.join id waiter).changeRequest _ _
    frame := by
      rw [tie, hframe]
      rfl
    untied := hrequest
    requests := by
      intro key
      rw [tie, getElem?_changeRequest, hframe]
      split
      · rename_i hkey
        rw [← hkey, hrequest]
        rfl
      · rfl
    waiting := waiting_join hsound id waiter
    duties := hduties
    unheld := hunheld
    held := by
      have hempty := List.append_eq_nil_iff.1 (hold.symm.trans hunheld)
      change (batcher.join id waiter).2.held waiter.key = [waiter]
      rw [hnew, hempty.1, hempty.2]
      simp [waitersOf] }⟩

/-- A request that is queued waits in the job of its id, or it was cancelled before and leaves the
job at once. -/
theorem enqueue_cases (hsound : batcher.Sound) {id : Nat} (waiter : Waiter κ)
    (hdispatched : waiter.dispatched = false)
    (hstage : (batcher.push
      [.enqueue waiter.key id waiter.graph waiter.handler]).AtStage waiter.key) :
    ∃ number job standing tied, Tied id number job waiter standing batcher tied ∧
      (standing ≠ .cancelled ∧
          batcher.enqueue waiter.key id waiter.graph waiter.handler = tied ∨
        standing = .cancelled ∧ ∃ rest : Job κ, rest.waiters = job.without waiter.key ∧
          batcher.enqueue waiter.key id waiter.graph waiter.handler =
            (tied.setJob number rest).push (waiter.settle .cancelled)) := by
  obtain ⟨job, standing, htied⟩ := exists_tied hsound hstage
  refine ⟨_, job, standing, _, htied, ?_⟩
  have hwaiter : (⟨waiter.key, waiter.graph, waiter.handler, false⟩ : Waiter κ) = waiter := by
    rw [← hdispatched]
  have hstanding : (batcher.tie id waiter).standing? waiter.key = some standing := by
    rw [standing?, htied.requests, if_pos rfl]
    rfl
  have hchanged : ((batcher.join id waiter).2.changeRequest waiter.key fun request =>
      { request with job := some (batcher.join id waiter).1 }) = batcher.tie id waiter := rfl
  rw [enqueue_eq, hwaiter, enqueue.settleIn]
  simp only [hchanged, hstanding, Option.some.injEq]
  split
  · rename_i hcancelled
    right
    have hmem : waiter ∈ waitersOf waiter.key job.waiters :=
      List.mem_filter.2 ⟨htied.mem, by simp⟩
    have hfind := waiter?_of_held htied.held htied.found hmem
    have hphase : job.phase = .queued := by simpa [Job.isOpen] using htied.isOpen
    refine ⟨hcancelled, ⟨job.without waiter.key,
      if (job.without waiter.key).isEmpty then .settled else .queued⟩, rfl, ?_⟩
    simp [Batcher.withdraw, htied.found, Job.withdraw, hphase, hfind, abortIdle, Phase.fetch?]
  · rename_i hlive
    exact .inl ⟨hlive, rfl⟩

end PartialEntity.Batcher
