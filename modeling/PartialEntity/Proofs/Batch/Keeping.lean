import Mathlib
import PartialEntity.Proofs.Assoc
import PartialEntity.Proofs.Batch.Reachable

/-!
# Who keeps a job

A job is referred to from the open window, from one instruction that is going to send it in flight
or to forget it, or from its fetch.  It is never kept twice.  So a job of the open window is not in
flight, and nothing is put into a job while the handlers of its requests are being told that the
work was given out.
-/

namespace PartialEntity

open Batch

variable {κ : Type}

namespace Batch

def Instruction.job? : Instruction κ → Option Nat
  | .flush _ job => some job
  | .restore _ job _ _ => some job
  | .launch _ job _ => some job
  | .dropJob job => some job
  | _ => none

/-- Work that looks after no job. -/
def Free (work : List (Instruction κ)) : Prop :=
  ∀ instruction ∈ work, instruction.job? = none

theorem free_nil : Free ([] : List (Instruction κ)) := by
  simp [Free]

theorem Free.append {first second : List (Instruction κ)} (hfirst : Free first)
    (hsecond : Free second) : Free (first ++ second) := by
  intro instruction hmem
  rcases List.mem_append.1 hmem with h | h
  · exact hfirst instruction h
  · exact hsecond instruction h

theorem free_flatMap {f : Waiter κ → List (Instruction κ)} (h : ∀ waiter, Free (f waiter))
    (waiters : List (Waiter κ)) : Free (waiters.flatMap f) := by
  intro instruction hmem
  obtain ⟨waiter, _, hwaiter⟩ := List.mem_flatMap.1 hmem
  exact h waiter instruction hwaiter

theorem free_dispatch (waiter : Waiter κ) : Free waiter.dispatch := by
  unfold Waiter.dispatch
  split <;> simp [Free, Waiter.call, Instruction.job?]

theorem free_settle (waiter : Waiter κ) (outcome : Outcome κ) : Free (waiter.settle outcome) := by
  have htail : ∀ last : Callback κ, Free [.mark waiter.key .settled, waiter.call last,
      waiter.call .finish, .note (.settled waiter.key), waiter.call .destroy] := by
    simp [Free, Waiter.call, Instruction.job?]
  cases outcome with
  | success value => exact (free_dispatch waiter).append (htail _)
  | failed error => exact (free_dispatch waiter).append (htail _)
  | cancelled => simp [Free, Waiter.settle, Waiter.call, Instruction.job?]

theorem free_cancelled (waiters : List (Waiter κ)) :
    Free (waiters.flatMap fun waiter => waiter.settle .cancelled) :=
  free_flatMap (fun waiter => free_settle waiter .cancelled) waiters

theorem free_discard (waiter : Waiter κ) : Free waiter.discard := by
  simp [Free, Waiter.discard, Waiter.call, Instruction.job?]

theorem free_deliver [DecidableEq κ] [Catalog κ] (answer : Except Error (Option (Entity κ)))
    (waiter : Waiter κ) : Free (waiter.deliver answer) := by
  have hsettle := free_settle waiter (waiter.outcome answer)
  intro instruction hmem
  rcases List.mem_cons.1 hmem with rfl | hmem
  · rfl
  · exact hsettle instruction hmem

def keepersIn (number : Nat) (work : List (Instruction κ)) : Nat :=
  work.countP fun instruction => instruction.job? == some number

@[simp]
theorem keepersIn_append (number : Nat) (first second : List (Instruction κ)) :
    keepersIn number (first ++ second) = keepersIn number first + keepersIn number second :=
  List.countP_append

@[simp]
theorem keepersIn_nil (number : Nat) : keepersIn number ([] : List (Instruction κ)) = 0 := rfl

@[simp]
theorem keepersIn_cons (number : Nat) (instruction : Instruction κ)
    (rest : List (Instruction κ)) :
    keepersIn number (instruction :: rest) =
      (if instruction.job? = some number then 1 else 0) + keepersIn number rest := by
  simp [keepersIn, List.countP_cons, Nat.add_comm]

/-- Work that looks after no job keeps none. -/
theorem keepersIn_of_free {work : List (Instruction κ)} (h : Free work) (number : Nat) :
    keepersIn number work = 0 := by
  apply List.countP_eq_zero.2
  intro instruction hmem
  simp [h instruction hmem]

theorem keepersIn_pos {number : Nat} {work : List (Instruction κ)} {instruction : Instruction κ}
    (hmem : instruction ∈ work) (hjob : instruction.job? = some number) :
    0 < keepersIn number work :=
  List.countP_pos_iff.2 ⟨instruction, hmem, by simp [hjob]⟩

def Fetch.subject (fetch : Fetch κ) : Nat × Nat × Graph κ :=
  (fetch.job, fetch.id, fetch.graph)

end Batch

namespace Job

/-- Withdrawing takes a waiter out of its job, which stays open unless it was the last. -/
theorem withdraw_eq_some {job rest : Job κ} {key : Nat} {waiter : Option (Waiter κ)}
    (h : job.withdraw key = some (rest, waiter)) :
    rest.waiters = job.without key ∧ waiter = job.waiter? key ∧
      (job.isOpen = true → rest.isOpen = false → rest.waiters = []) := by
  unfold Job.withdraw at h
  split at h
  · rename_i hphase
    split at h
    · cases h
    · rename_i found hfound
      cases h
      refine ⟨rfl, hfound.symm, ?_⟩
      intro _ hclosed
      by_cases hempty : (job.without key).isEmpty = true
      · exact List.isEmpty_iff.1 hempty
      · simp [Job.isOpen, hempty] at hclosed
  · rename_i live fetch hphase
    split at h
    · cases h
      refine ⟨rfl, rfl, ?_⟩
      intro hopen
      simp [Job.isOpen, hphase] at hopen
    · cases h
  · cases h

end Job

namespace Batcher

/-! ## What changes in a batcher -/

variable {batcher : Batcher κ}

/-- Aborting a fetch changes nothing but the mark of the fetch. -/
theorem abort_eq (number : Nat) (batcher : Batcher κ) :
    ∃ fetches : List (Nat × Fetch κ), batcher.abort number = { batcher with fetches } ∧
      fetches.map (fun entry => (entry.1, entry.2.subject)) =
        batcher.fetches.map fun entry => (entry.1, entry.2.subject) := by
  unfold abort
  split
  · rename_i fetch hfetch
    obtain ⟨before, after, hsplit, hbefore⟩ := Assoc.exists_split_of_find? hfetch
    refine ⟨_, rfl, ?_⟩
    rw [hsplit, Assoc.insert_split hbefore]
    simp [Fetch.subject]
  · exact ⟨_, rfl, rfl⟩

theorem abortIdle_eq (before after : Phase) (batcher : Batcher κ) :
    ∃ fetches : List (Nat × Fetch κ), batcher.abortIdle before after = { batcher with fetches } ∧
      fetches.map (fun entry => (entry.1, entry.2.subject)) =
        batcher.fetches.map fun entry => (entry.1, entry.2.subject) := by
  unfold abortIdle
  split
  · exact abort_eq _ batcher
  · exact ⟨_, rfl, rfl⟩

/-- A cancellation comes to nothing, or it takes one request out of its job. -/
theorem withdraw_cases (key number : Nat) (batcher : Batcher κ) :
    batcher.withdraw key number = ⟨false, batcher, []⟩ ∨
    ∃ job rest fetches, batcher.job? number = some job ∧
      job.withdraw key = some (rest, job.waiter? key) ∧
      fetches.map (fun entry => (entry.1, entry.2.subject)) =
        batcher.fetches.map (fun entry => (entry.1, entry.2.subject)) ∧
      batcher.withdraw key number = ⟨true, { batcher.setJob number rest with fetches },
        ((job.waiter? key).map fun waiter => waiter.settle .cancelled).getD []⟩ := by
  unfold withdraw
  cases hjob : batcher.job? number with
  | none => exact .inl rfl
  | some job =>
    cases hwithdraw : job.withdraw key with
    | none => exact .inl (by simp [hwithdraw])
    | some result =>
      obtain ⟨rest, waiter⟩ := result
      obtain ⟨_, rfl, _⟩ := Job.withdraw_eq_some hwithdraw
      obtain ⟨fetches, heq, hsubjects⟩ :=
        abortIdle_eq job.phase rest.phase (batcher.setJob number rest)
      refine .inr ⟨job, rest, fetches, rfl, hwithdraw, hsubjects, ?_⟩
      simp only [hwithdraw, heq]
      cases job.waiter? key <;> rfl

/-- Pushes a waiter into the open job of an id, or into a new one.  Gives also the number of that
job. -/
def join (id : Nat) (waiter : Waiter κ) (batcher : Batcher κ) : Nat × Batcher κ :=
  match (Assoc.find? id batcher.queue).bind fun number =>
    (batcher.job? number).map fun job => (number, job) with
  | some (number, job) =>
    if job.isOpen then (number, batcher.setJob number (job.push waiter))
    else (batcher.nextJob, enqueue.replace id waiter
      { batcher with jobs := Assoc.erase number batcher.jobs })
  | none => (batcher.nextJob, enqueue.replace id waiter batcher)

/-- A request joins a job and is tied to it. -/
theorem enqueue_eq (key id : Nat) (graph : Graph κ) (handler : Handler κ) (batcher : Batcher κ) :
    batcher.enqueue key id graph handler =
      enqueue.settleIn key (batcher.join id ⟨key, graph, handler, false⟩).1
        (batcher.join id ⟨key, graph, handler, false⟩).2 := by
  unfold enqueue join
  simp only
  cases (Assoc.find? id batcher.queue).bind fun number =>
    (batcher.job? number).map fun job => (number, job) with
  | none => rfl
  | some found =>
    obtain ⟨number, job⟩ := found
    dsimp only
    cases job.isOpen <;> rfl

/-- A waiter joins a job of the window that is still open, or a new one. -/
theorem join_cases (id : Nat) (waiter : Waiter κ) (batcher : Batcher κ) :
    (∃ number job, Assoc.find? id batcher.queue = some number ∧
      batcher.job? number = some job ∧ job.isOpen = true ∧
      batcher.join id waiter = (number, batcher.setJob number (job.push waiter))) ∨
    (∃ number job, Assoc.find? id batcher.queue = some number ∧
      batcher.job? number = some job ∧ job.isOpen = false ∧
      batcher.join id waiter = (batcher.nextJob, enqueue.replace id waiter
        { batcher with jobs := Assoc.erase number batcher.jobs })) ∨
    ((Assoc.find? id batcher.queue).bind batcher.job? = none ∧
      batcher.join id waiter = (batcher.nextJob, enqueue.replace id waiter batcher)) := by
  unfold join
  cases hfind : Assoc.find? id batcher.queue with
  | none => exact .inr (.inr ⟨rfl, rfl⟩)
  | some number =>
    cases hjob : batcher.job? number with
    | none =>
      right
      right
      simp [hjob]
    | some job =>
      cases hopen : job.isOpen with
      | true =>
        left
        use number, job
        simp [hjob, hopen]
      | false =>
        right
        left
        use number, job
        simp [hjob, hopen]

/-- Only the window and the jobs change when a waiter joins. -/
theorem join_frame (id : Nat) (waiter : Waiter κ) (batcher : Batcher κ) :
    ∃ queue jobs nextJob,
      (batcher.join id waiter).2 = { batcher with queue, jobs, nextJob } := by
  rcases join_cases id waiter batcher with
    ⟨_, _, _, _, _, heq⟩ | ⟨_, _, _, _, _, heq⟩ | ⟨_, heq⟩ <;>
  · rw [heq]
    exact ⟨_, _, _, rfl⟩

/-- A waiter has joined an open job. -/
theorem exists_job?_join (id : Nat) (waiter : Waiter κ) (batcher : Batcher κ) :
    ∃ job, (batcher.join id waiter).2.job? (batcher.join id waiter).1 = some job ∧
      job.isOpen = true ∧ waiter ∈ job.waiters := by
  rcases join_cases id waiter batcher with
    ⟨number, job, _, _, hopen, heq⟩ | ⟨_, _, _, _, _, heq⟩ | ⟨_, heq⟩
  · rw [heq]
    exact ⟨job.push waiter, Assoc.find?_insert_self _ _ _, hopen, by simp [Job.push]⟩
  · rw [heq]
    exact ⟨Job.empty.push waiter, Assoc.find?_insert_self _ _ _, rfl, by simp [Job.push]⟩
  · rw [heq]
    exact ⟨Job.empty.push waiter, Assoc.find?_insert_self _ _ _, rfl, by simp [Job.push]⟩

/-! ## Keepers -/

def keepers (number : Nat) (batcher : Batcher κ) : Nat :=
  keepersIn number batcher.agenda +
    batcher.queue.countP (fun entry => entry.2 == number) +
    batcher.fetches.countP (fun entry => entry.2.job == number)

/-- The state of the jobs makes sense: none is kept twice, the numbers were given out, and where
requests might be lost there are none. -/
structure Sound (batcher : Batcher κ) : Prop where
  jobs_nodup : (batcher.jobs.map (·.1)).Nodup
  ids_nodup : (batcher.queue.map (·.1)).Nodup
  fetches_nodup : (batcher.fetches.map (·.1)).Nodup
  keepers_le : ∀ number, batcher.keepers number ≤ 1
  kept_lt : ∀ number, 0 < batcher.keepers number → number < batcher.nextJob
  job_lt : ∀ number job, batcher.job? number = some job → number < batcher.nextJob
  fetch_lt : ∀ number ∈ batcher.fetches.map (·.1), number < batcher.nextFetch
  /-- A job of the open window that takes no more requests has none. -/
  closed : ∀ entry ∈ batcher.queue, ∀ job, batcher.job? entry.2 = some job →
    job.isOpen = false → job.waiters = []
  /-- A job that is going to be given its waiters back has none. -/
  vacant : ∀ id number graph waiters, .restore id number graph waiters ∈ batcher.agenda →
    ∀ job, batcher.job? number = some job → job.waiters = []

@[simp]
theorem job?_setJob_self (number : Nat) (job : Job κ) (batcher : Batcher κ) :
    (batcher.setJob number job).job? number = some job :=
  Assoc.find?_insert_self number job batcher.jobs

theorem job?_setJob_of_ne {number other : Nat} (hne : other ≠ number) (job : Job κ)
    (batcher : Batcher κ) : (batcher.setJob number job).job? other = batcher.job? other :=
  Assoc.find?_insert_of_ne hne job batcher.jobs

@[simp]
theorem job?_replace_self (id : Nat) (waiter : Waiter κ) (batcher : Batcher κ) :
    (enqueue.replace id waiter batcher).job? batcher.nextJob = some (Job.empty.push waiter) :=
  Assoc.find?_insert_self ..

theorem job?_replace_of_ne {number : Nat} (hne : number ≠ batcher.nextJob) (id : Nat)
    (waiter : Waiter κ) :
    (enqueue.replace id waiter batcher).job? number = batcher.job? number :=
  Assoc.find?_insert_of_ne hne ..

/-- A job that is found after a new one was made is the new one or was there before. -/
theorem job?_replace_cases {id number : Nat} {waiter : Waiter κ} {job : Job κ}
    (hfound : (enqueue.replace id waiter batcher).job? number = some job) :
    number = batcher.nextJob ∧ job = Job.empty.push waiter ∨
      number ≠ batcher.nextJob ∧ batcher.job? number = some job := by
  by_cases hnew : number = batcher.nextJob
  · rw [hnew, job?_replace_self] at hfound
    exact .inl ⟨hnew, (Option.some.inj hfound).symm⟩
  · rw [job?_replace_of_ne hnew] at hfound
    exact .inr ⟨hnew, hfound⟩

/-- A new job is kept by the open window, and no other one is kept more often than before. -/
theorem keepers_replace_le (id : Nat) (waiter : Waiter κ) (number : Nat) :
    (enqueue.replace id waiter batcher).keepers number ≤
      (if batcher.nextJob = number then 1 else 0) + batcher.keepers number := by
  have hqueue := Assoc.countP_insert_le (fun entry => entry.2 == number) id batcher.nextJob
    batcher.queue
  simp only [beq_iff_eq] at hqueue
  simp only [keepers, enqueue.replace]
  omega

@[simp]
theorem keepers_push (number : Nat) (work : List (Instruction κ)) (batcher : Batcher κ) :
    (batcher.push work).keepers number = keepersIn number work + batcher.keepers number := by
  simp [keepers, push, Nat.add_assoc]

theorem notMem_queue_of_keepers {number : Nat} (h : batcher.keepers number = 0) :
    number ∉ batcher.queue.map (·.2) := by
  intro hmem
  obtain ⟨entry, hentry, rfl⟩ := List.mem_map.1 hmem
  have hpos : 0 < batcher.queue.countP (fun other => other.2 == entry.2) :=
    List.countP_pos_iff.2 ⟨entry, hentry, by simp⟩
  simp only [keepers] at h
  omega

theorem job?_ne_of_keepers {number : Nat} (h : batcher.keepers number = 0)
    {instruction : Instruction κ} (hmem : instruction ∈ batcher.agenda) :
    instruction.job? ≠ some number := by
  intro hjob
  have hpos := keepersIn_pos hmem hjob
  simp only [keepers] at h
  omega

namespace Sound

theorem empty (kind : κ) : (Batcher.empty kind).Sound where
  jobs_nodup := List.nodup_nil
  ids_nodup := List.nodup_nil
  fetches_nodup := List.nodup_nil
  keepers_le _ := Nat.zero_le 1
  kept_lt _ h := absurd h (Nat.lt_irrefl 0)
  job_lt _ _ h := by simp [job?, Batcher.empty, Assoc.find?] at h
  fetch_lt _ h := by simp [Batcher.empty] at h
  closed _ h := by simp [Batcher.empty] at h
  vacant _ _ _ _ h := by simp [Batcher.empty] at h

theorem queued_lt (h : batcher.Sound) {entry : Nat × Nat} (hmem : entry ∈ batcher.queue) :
    entry.2 < batcher.nextJob := by
  apply h.kept_lt
  have hpos : 0 < batcher.queue.countP (fun other => other.2 == entry.2) :=
    List.countP_pos_iff.2 ⟨entry, hmem, by simp⟩
  simp only [keepers]
  omega

/-- No two ids share a job. -/
theorem id_unique (h : batcher.Sound) {id other number : Nat}
    (hid : Assoc.find? id batcher.queue = some number)
    (hother : Assoc.find? other batcher.queue = some number) : other = id := by
  obtain ⟨before, after, hsplit, _⟩ := Assoc.exists_split_of_find? hid
  have hmem := Assoc.mem_of_find? hother
  have hle := h.keepers_le number
  simp only [keepers, hsplit, List.countP_append, List.countP_cons] at hle
  rw [hsplit] at hmem
  rcases List.mem_append.1 hmem with hmem | hmem
  · have hpos : 0 < before.countP (fun entry => entry.2 == number) :=
      List.countP_pos_iff.2 ⟨_, hmem, by simp⟩
    simp only [beq_self_eq_true, if_true] at hle
    omega
  · rcases List.mem_cons.1 hmem with heq | hmem
    · cases heq
      rfl
    · have hpos : 0 < after.countP (fun entry => entry.2 == number) :=
        List.countP_pos_iff.2 ⟨_, hmem, by simp⟩
      simp only [beq_self_eq_true, if_true] at hle
      omega

/-- Nothing is kept twice after one job more is kept that nothing has kept. -/
theorem le_one_of_one_more (h : batcher.Sound) {kept number count : Nat}
    (hkept : batcher.keepers kept = 0)
    (hle : count ≤ (if kept = number then 1 else 0) + batcher.keepers number) : count ≤ 1 := by
  have hold := h.keepers_le number
  split at hle
  · subst number
    omega
  · omega

/-- Numbers stay below a bound after one job more is kept whose number is below it. -/
theorem lt_of_one_more (h : batcher.Sound) {kept number count bound : Nat} (hlt : kept < bound)
    (hbound : batcher.nextJob ≤ bound)
    (hle : count ≤ (if kept = number then 1 else 0) + batcher.keepers number)
    (hpos : 0 < count) : number < bound := by
  split at hle
  · subst number
    exact hlt
  · exact (h.kept_lt number (by omega)).trans_le hbound

theorem note (h : batcher.Sound) (occurrence : Occurrence κ) : (batcher.note occurrence).Sound :=
  ⟨h.1, h.2, h.3, h.4, h.5, h.6, h.7, h.8, h.9⟩

theorem changeRequest (h : batcher.Sound) (key : Nat) (change : Request → Request) :
    (batcher.changeRequest key change).Sound :=
  ⟨h.1, h.2, h.3, h.4, h.5, h.6, h.7, h.8, h.9⟩

/-- Work that is off the agenda keeps nothing. -/
theorem pop {work : List (Instruction κ)} (h : (batcher.push work).Sound) : batcher.Sound where
  jobs_nodup := h.jobs_nodup
  ids_nodup := h.ids_nodup
  fetches_nodup := h.fetches_nodup
  keepers_le number := by
    have hle := h.keepers_le number
    rw [keepers_push] at hle
    omega
  kept_lt number hpos := by
    apply h.kept_lt number
    rw [keepers_push]
    omega
  job_lt := h.job_lt
  fetch_lt := h.fetch_lt
  closed := h.closed
  vacant id number graph waiters hmem :=
    h.vacant id number graph waiters (List.mem_append_right work hmem)

/-- A job whose keeper has just been taken off the agenda is not kept at all. -/
theorem keepers_eq_zero {number : Nat} {instruction : Instruction κ}
    (h : (batcher.push [instruction]).Sound) (hjob : instruction.job? = some number) :
    batcher.keepers number = 0 ∧ number < batcher.nextJob := by
  have hle := h.keepers_le number
  have hlt := h.kept_lt number
  simp only [keepers_push, keepersIn_cons, hjob, if_true, keepersIn_nil] at hle hlt
  constructor
  · omega
  · exact hlt (by omega)

/-- Putting work in front keeps a batcher sound if each job that the work looks after was looked
after by nobody. -/
theorem push (h : batcher.Sound) {work : List (Instruction κ)}
    (hle : ∀ number, keepersIn number work + batcher.keepers number ≤ 1)
    (hlt : ∀ number, 0 < keepersIn number work → number < batcher.nextJob)
    (hvacant : ∀ id number graph waiters, .restore id number graph waiters ∈ work →
      ∀ job, batcher.job? number = some job → job.waiters = []) :
    (batcher.push work).Sound where
  jobs_nodup := h.jobs_nodup
  ids_nodup := h.ids_nodup
  fetches_nodup := h.fetches_nodup
  keepers_le number := by
    rw [keepers_push]
    exact hle number
  kept_lt number hpos := by
    rw [keepers_push] at hpos
    by_cases hwork : 0 < keepersIn number work
    · exact hlt number hwork
    · exact h.kept_lt number (by omega)
  job_lt := h.job_lt
  fetch_lt := h.fetch_lt
  closed := h.closed
  vacant id number graph waiters hmem := by
    rcases List.mem_append.1 hmem with hmem | hmem
    · exact hvacant id number graph waiters hmem
    · exact h.vacant id number graph waiters hmem

/-- Work that looks after no job can always be put in front. -/
theorem push_free (h : batcher.Sound) {work : List (Instruction κ)} (hfree : Free work) :
    (batcher.push work).Sound := by
  apply h.push
  · intro number
    rw [keepersIn_of_free hfree, Nat.zero_add]
    exact h.keepers_le number
  · intro number hpos
    rw [keepersIn_of_free hfree] at hpos
    omega
  · intro id number graph waiters hmem
    cases hfree _ hmem

/-- An instruction takes over a job that nothing keeps. -/
theorem push_keeper (h : batcher.Sound) {work : List (Instruction κ)}
    {instruction : Instruction κ} {number : Nat} (hfree : Free work)
    (hjob : instruction.job? = some number) (hkept : batcher.keepers number = 0)
    (hlt : number < batcher.nextJob)
    (hvacant : ∀ id graph waiters, instruction = .restore id number graph waiters →
      ∀ job, batcher.job? number = some job → job.waiters = []) :
    (batcher.push (work ++ [instruction])).Sound := by
  have hcount : ∀ other, keepersIn other (work ++ [instruction]) =
      if number = other then 1 else 0 := by
    intro other
    simp [keepersIn_of_free hfree, hjob]
  apply h.push
  · intro other
    rw [hcount]
    exact h.le_one_of_one_more hkept (Nat.le_refl _)
  · intro other hpos
    rw [hcount] at hpos
    exact h.lt_of_one_more hlt (Nat.le_refl _) (Nat.le_add_right _ _) hpos
  · intro id other graph waiters hmem
    rcases List.mem_append.1 hmem with hmem | hmem
    · cases hfree _ hmem
    · have heq := List.mem_singleton.1 hmem
      subst heq
      cases hjob
      exact hvacant id graph waiters rfl

/-- Replacing a job keeps a batcher sound, unless requests might be lost by it. -/
theorem setJob (h : batcher.Sound) {number : Nat} {old new : Job κ}
    (hjob : batcher.job? number = some old)
    (hclosed : number ∈ batcher.queue.map (·.2) → new.isOpen = false → new.waiters = [])
    (hvacant : ∀ id graph waiters, .restore id number graph waiters ∈ batcher.agenda →
      new.waiters = []) :
    (batcher.setJob number new).Sound where
  jobs_nodup := Assoc.nodup_keys_alter h.jobs_nodup
  ids_nodup := h.ids_nodup
  fetches_nodup := h.fetches_nodup
  keepers_le := h.keepers_le
  kept_lt := h.kept_lt
  job_lt other job hother := by
    by_cases heq : other = number
    · subst other
      exact h.job_lt number old hjob
    · rw [job?_setJob_of_ne heq] at hother
      exact h.job_lt other job hother
  fetch_lt := h.fetch_lt
  closed entry hentry job hother := by
    by_cases heq : entry.2 = number
    · rw [heq, job?_setJob_self] at hother
      cases hother
      exact hclosed (List.mem_map.2 ⟨entry, hentry, heq⟩)
    · rw [job?_setJob_of_ne heq] at hother
      exact h.closed entry hentry job hother
  vacant id other graph waiters hmem job hother := by
    by_cases heq : other = number
    · subst other
      rw [job?_setJob_self] at hother
      cases hother
      exact hvacant id graph waiters hmem
    · rw [job?_setJob_of_ne heq] at hother
      exact h.vacant id other graph waiters hmem job hother

/-- A job that nothing keeps can be changed at will. -/
theorem setJob_of_keepers (h : batcher.Sound) {number : Nat} {old : Job κ} (new : Job κ)
    (hjob : batcher.job? number = some old) (hkept : batcher.keepers number = 0) :
    (batcher.setJob number new).Sound := by
  apply h.setJob hjob
  · intro hqueue
    exact absurd hqueue (notMem_queue_of_keepers hkept)
  · intro id graph waiters hmem
    exact absurd rfl (job?_ne_of_keepers hkept hmem)

theorem eraseJob (h : batcher.Sound) (number : Nat) :
    ({ batcher with jobs := Assoc.erase number batcher.jobs } : Batcher κ).Sound := by
  have hjob : ∀ other job,
      ({ batcher with jobs := Assoc.erase number batcher.jobs } : Batcher κ).job? other =
        some job → batcher.job? other = some job := by
    intro other job hother
    by_cases heq : other = number
    · subst other
      simp [job?] at hother
    · simpa [job?, Assoc.find?_erase_of_ne heq] using hother
  exact {
    jobs_nodup := Assoc.nodup_keys_erase h.jobs_nodup
    ids_nodup := h.ids_nodup
    fetches_nodup := h.fetches_nodup
    keepers_le := h.keepers_le
    kept_lt := h.kept_lt
    job_lt := fun other job hother => h.job_lt other job (hjob other job hother)
    fetch_lt := h.fetch_lt
    closed := fun entry hentry job hother => h.closed entry hentry job (hjob _ job hother)
    vacant := fun id other graph waiters hmem job hother =>
      h.vacant id other graph waiters hmem job (hjob other job hother) }

/-- A mark on a fetch does not affect soundness. -/
theorem withFetches (h : batcher.Sound) {fetches : List (Nat × Fetch κ)}
    (hsubjects : fetches.map (fun entry => (entry.1, entry.2.subject)) =
      batcher.fetches.map fun entry => (entry.1, entry.2.subject)) :
    ({ batcher with fetches } : Batcher κ).Sound := by
  have hnumbers : fetches.map (·.1) = batcher.fetches.map (·.1) := by
    simpa [List.map_map, Function.comp_def] using congrArg (List.map Prod.fst) hsubjects
  have hkeepers : ∀ number,
      ({ batcher with fetches } : Batcher κ).keepers number = batcher.keepers number := by
    intro number
    have hcount := congrArg (List.countP fun subject => subject.2.1 == number) hsubjects
    rw [List.countP_map, List.countP_map] at hcount
    simpa [keepers, Fetch.subject, Function.comp_def] using hcount
  exact {
    jobs_nodup := h.jobs_nodup
    ids_nodup := h.ids_nodup
    fetches_nodup := hnumbers ▸ h.fetches_nodup
    keepers_le := fun number => (hkeepers number).trans_le (h.keepers_le number)
    kept_lt := fun number hpos => h.kept_lt number ((hkeepers number).symm ▸ hpos)
    job_lt := h.job_lt
    fetch_lt := fun number hmem => h.fetch_lt number (hnumbers ▸ hmem)
    closed := h.closed
    vacant := h.vacant }

/-! ## Cancelling -/

theorem withdraw (h : batcher.Sound) (key number : Nat) :
    (batcher.withdraw key number).batcher.Sound ∧ Free (batcher.withdraw key number).work := by
  rcases withdraw_cases key number batcher with heq | ⟨job, rest, fetches, hjob, hrest, hsub, heq⟩
  · rw [heq]
    exact ⟨h, free_nil⟩
  · obtain ⟨hwaiters, _, hemptied⟩ := Job.withdraw_eq_some hrest
    have hempty : job.waiters = [] → rest.waiters = [] := by
      intro hnone
      rw [hwaiters, Job.without, hnone, List.filter_nil]
    rw [heq]
    constructor
    · have hset : (batcher.setJob number rest).Sound := by
        apply h.setJob hjob
        · intro hqueue hclosed
          obtain ⟨entry, hentry, rfl⟩ := List.mem_map.1 hqueue
          cases hopen : job.isOpen with
          | true => exact hemptied hopen hclosed
          | false => exact hempty (h.closed entry hentry job hjob hopen)
        · intro id graph waiters hmem
          exact hempty (h.vacant id number graph waiters hmem job hjob)
      exact hset.withFetches hsub
    · cases job.waiter? key with
      | none => exact free_nil
      | some waiter => exact free_settle waiter .cancelled

theorem retract (h : batcher.Sound) (key : Nat) :
    (batcher.retract key).batcher.Sound ∧ Free (batcher.retract key).work := by
  unfold Batcher.retract
  split
  · exact ⟨h.changeRequest key _, free_nil⟩
  · exact h.withdraw key _
  · exact ⟨h, free_nil⟩

/-! ## Instructions -/

theorem request (h : batcher.Sound) (id : Nat) (graph : Graph κ) (handler : Handler κ) :
    (batcher.request id graph handler).Sound := by
  unfold Batcher.request
  split
  · have hnew : ({ batcher with requests := batcher.requests ++ [.fresh] } : Batcher κ).Sound :=
      ⟨h.1, h.2, h.3, h.4, h.5, h.6, h.7, h.8, h.9⟩
    exact hnew.push_free (by simp [Free, Instruction.job?])
  · exact h

theorem react (h : batcher.Sound) (key : Nat) (reaction : Reaction κ) :
    (batcher.react key reaction).Sound := by
  have hnote : ∀ occurrence : Occurrence κ, Free [Instruction.note occurrence] := by
    simp [Free, Instruction.job?]
  cases reaction with
  | cancel target =>
    simp only [Batcher.react]
    split
    · obtain ⟨hsound, hfree⟩ := h.retract target
      exact hsound.push_free (hfree.append (hnote _))
    · exact h.push_free (hnote _)
  | submit id graph handler => exact h.request id graph handler

theorem settleIn (h : batcher.Sound) (key number : Nat) :
    (enqueue.settleIn key number batcher).Sound := by
  have hchanged := h.changeRequest key fun request => { request with job := some number }
  unfold enqueue.settleIn
  simp only
  split
  · obtain ⟨hsound, hfree⟩ := hchanged.withdraw key number
    exact hsound.push_free hfree
  · exact hchanged

/-- Nobody looks after the job that the next number is going to be given to. -/
theorem keepers_nextJob (h : batcher.Sound) : batcher.keepers batcher.nextJob = 0 := by
  by_contra hkept
  exact Nat.lt_irrefl _ (h.kept_lt _ (Nat.pos_of_ne_zero hkept))

theorem job?_nextJob (h : batcher.Sound) : batcher.job? batcher.nextJob = none := by
  cases hjob : batcher.job? batcher.nextJob with
  | none => rfl
  | some job => exact absurd (h.job_lt _ job hjob) (Nat.lt_irrefl _)

/-- A new job takes the place that its id had in the open window, or a new place. -/
theorem replace (h : batcher.Sound) (id : Nat) (waiter : Waiter κ) :
    (enqueue.replace id waiter batcher).Sound where
  jobs_nodup := Assoc.nodup_keys_alter h.jobs_nodup
  ids_nodup := Assoc.nodup_keys_alter h.ids_nodup
  fetches_nodup := h.fetches_nodup
  keepers_le number := h.le_one_of_one_more h.keepers_nextJob (keepers_replace_le id waiter number)
  kept_lt number :=
    h.lt_of_one_more (Nat.lt_succ_self _) (Nat.le_succ _) (keepers_replace_le id waiter number)
  job_lt number job hfound := by
    rcases job?_replace_cases hfound with ⟨rfl, -⟩ | ⟨-, hold⟩
    · exact Nat.lt_succ_self _
    · exact (h.job_lt number job hold).trans (Nat.lt_succ_self _)
  fetch_lt := h.fetch_lt
  closed entry hentry job hfound hclosed := by
    rcases job?_replace_cases hfound with ⟨-, rfl⟩ | ⟨hne, hold⟩
    · cases hclosed
    · rcases Assoc.mem_alter hentry with hentry | rfl
      · exact h.closed entry hentry job hold hclosed
      · exact absurd rfl hne
  vacant other number graph waiters hmem job hfound := by
    rcases job?_replace_cases hfound with ⟨rfl, -⟩ | ⟨-, hold⟩
    · exact absurd rfl (job?_ne_of_keepers h.keepers_nextJob hmem)
    · exact h.vacant other number graph waiters hmem job hold

/-- Joining a job keeps a batcher sound. -/
theorem join (h : batcher.Sound) (id : Nat) (waiter : Waiter κ) :
    (batcher.join id waiter).2.Sound := by
  rcases join_cases id waiter batcher with
    ⟨number, job, hfind, hjob, hopen, heq⟩ | ⟨number, _, _, _, _, heq⟩ | ⟨_, heq⟩
  · rw [heq]
    apply h.setJob hjob
    · intro _ hclosed
      simp only [Job.isOpen, Job.push] at hopen hclosed
      rw [hopen] at hclosed
      cases hclosed
    · intro id' graph' waiters hmem
      -- The window keeps the job, so nothing else does.
      have hle := h.keepers_le number
      have hinstruction : 0 < keepersIn number batcher.agenda := keepersIn_pos hmem rfl
      have hwindow : 0 < batcher.queue.countP (fun entry => entry.2 == number) :=
        List.countP_pos_iff.2 ⟨_, Assoc.mem_of_find? hfind, by simp⟩
      simp only [keepers] at hle
      omega
  · rw [heq]
    exact (h.eraseJob number).replace id waiter
  · rw [heq]
    exact h.replace id waiter

theorem enqueue (h : batcher.Sound) (key id : Nat) (graph : Graph κ) (handler : Handler κ) :
    (batcher.enqueue key id graph handler).Sound := by
  rw [enqueue_eq]
  exact (h.join id _).settleIn key _

/-- Handing out the work of a job that nobody else looks after keeps a batcher sound. -/
theorem flush (h : batcher.Sound) {number : Nat} (hkept : batcher.keepers number = 0)
    (hlt : number < batcher.nextJob) (id : Nat) : (batcher.flush id number).Sound := by
  unfold Batcher.flush
  split
  · exact h
  · rename_i job hjob
    split
    · apply push_keeper (h.setJob_of_keepers _ hjob hkept) _ rfl hkept hlt
      · intro _ _ _ _ rest hrest
        rw [job?_setJob_self] at hrest
        cases hrest
        rfl
      · intro instruction hmem
        rcases List.mem_cons.1 hmem with rfl | hmem
        · rfl
        · exact free_flatMap free_dispatch _ instruction hmem
    · exact push_keeper h free_nil rfl hkept hlt nofun

/-- Giving waiters back to a job that nobody else looks after keeps a batcher sound. -/
theorem restore (h : batcher.Sound) {number : Nat} (hkept : batcher.keepers number = 0)
    (hlt : number < batcher.nextJob) (id : Nat) (graph : Graph κ) (waiters : List (Waiter κ)) :
    (batcher.restore id number graph waiters).Sound := by
  unfold Batcher.restore
  simp only
  split
  · rename_i hphase
    cases hjob : batcher.job? number with
    | none => simp [hjob, Phase.isInFlight] at hphase
    | some job =>
      exact push_keeper (h.setJob_of_keepers _ hjob hkept) (free_cancelled _) rfl hkept hlt nofun
  · exact push_keeper h (free_cancelled _) rfl hkept hlt nofun

theorem dropJob (h : batcher.Sound) (number : Nat) : (batcher.dropJob number).Sound := by
  unfold Batcher.dropJob
  split
  · exact h
  · exact (h.eraseJob number).push_free (free_flatMap free_discard _)

/-- A fetch takes over the job that it was started for. -/
theorem start_fetch (h : batcher.Sound) {number : Nat} (hkept : batcher.keepers number = 0)
    (hlt : number < batcher.nextJob) (id : Nat) (graph : Graph κ) (aborted : Bool) :
    ({ batcher with
      fetches := Assoc.insert batcher.nextFetch ⟨number, id, graph, aborted⟩ batcher.fetches
      nextFetch := batcher.nextFetch + 1 } : Batcher κ).Sound := by
  have hnew : Assoc.find? batcher.nextFetch batcher.fetches = none := by
    apply Assoc.find?_eq_none_iff.2
    intro hmem
    exact Nat.lt_irrefl _ (h.fetch_lt _ hmem)
  rw [Assoc.insert_of_find?_eq_none hnew]
  have hkeepers : ∀ other, ({ batcher with
      fetches := batcher.fetches ++ [(batcher.nextFetch, ⟨number, id, graph, aborted⟩)]
      nextFetch := batcher.nextFetch + 1 } : Batcher κ).keepers other =
      (if number = other then 1 else 0) + batcher.keepers other := by
    intro other
    simp only [keepers, List.countP_append, List.countP_singleton, beq_iff_eq]
    omega
  exact {
    jobs_nodup := h.jobs_nodup
    ids_nodup := h.ids_nodup
    fetches_nodup := by
      rw [← Assoc.insert_of_find?_eq_none hnew]
      exact Assoc.nodup_keys_alter h.fetches_nodup
    keepers_le := fun other => h.le_one_of_one_more hkept (hkeepers other).le
    kept_lt := fun other => h.lt_of_one_more hlt (Nat.le_refl _) (hkeepers other).le
    job_lt := h.job_lt
    fetch_lt := by
      intro other hmem
      show other < batcher.nextFetch + 1
      rw [List.map_append, List.mem_append] at hmem
      rcases hmem with hmem | hmem
      · have hold := h.fetch_lt other hmem
        omega
      · have heq : other = batcher.nextFetch := by simpa using hmem
        omega
    closed := h.closed
    vacant := h.vacant }

/-- Starting the fetch of a job that nobody else looks after keeps a batcher sound. -/
theorem launch (h : batcher.Sound) {number : Nat} (hkept : batcher.keepers number = 0)
    (hlt : number < batcher.nextJob) (id : Nat) (graph : Graph κ) :
    (batcher.launch id number graph).Sound := by
  unfold Batcher.launch
  simp only
  split
  · rename_i waiters live fetch hjob
    exact (h.setJob_of_keepers ⟨waiters, .inFlight live (some batcher.nextFetch)⟩ hjob
      hkept).start_fetch hkept hlt id graph false
  · exact h.start_fetch hkept hlt id graph true

theorem keepersIn_map_queue (f : Nat × Nat → Instruction κ)
    (hf : ∀ entry, (f entry).job? = some entry.2) (number : Nat) (queue : List (Nat × Nat)) :
    keepersIn number (queue.map f) = queue.countP fun entry => entry.2 == number := by
  rw [keepersIn, List.countP_map]
  apply List.countP_congr
  simp [hf]

/-- The jobs of the open window can be handed to instructions. -/
theorem closeWindow (h : batcher.Sound) (f : Nat × Nat → Instruction κ)
    (hf : ∀ entry, (f entry).job? = some entry.2)
    (hrestore : ∀ entry id number graph waiters, f entry ≠ .restore id number graph waiters) :
    (({ batcher with queue := [] } : Batcher κ).push (batcher.queue.map f)).Sound := by
  have hkeepers : ∀ number, keepersIn number (batcher.queue.map f) +
      ({ batcher with queue := [] } : Batcher κ).keepers number = batcher.keepers number := by
    intro number
    simp only [keepersIn_map_queue f hf, keepers, List.countP_nil]
    omega
  have hempty : ({ batcher with queue := [] } : Batcher κ).Sound := {
    jobs_nodup := h.jobs_nodup
    ids_nodup := List.nodup_nil
    fetches_nodup := h.fetches_nodup
    keepers_le := by
      intro number
      have hle := h.keepers_le number
      rw [← hkeepers] at hle
      omega
    kept_lt := by
      intro number hpos
      apply h.kept_lt number
      rw [← hkeepers]
      omega
    job_lt := h.job_lt
    fetch_lt := h.fetch_lt
    closed := by simp
    vacant := h.vacant }
  apply hempty.push
  · intro number
    rw [hkeepers]
    exact h.keepers_le number
  · intro number hpos
    apply h.kept_lt number
    rw [← hkeepers]
    omega
  · intro id number graph waiters hmem
    obtain ⟨entry, _, hentry⟩ := List.mem_map.1 hmem
    exact absurd hentry (hrestore entry id number graph waiters)

theorem release (h : batcher.Sound) : batcher.release.Sound := by
  unfold Batcher.release
  split
  · exact h
  · exact h.closeWindow _ (fun _ => rfl) nofun

/-- A fetch that is forgotten keeps its job no longer. -/
theorem keepers_eraseFetch (h : batcher.Sound) {target : Nat} {fetch : Fetch κ}
    (hfetch : batcher.fetch? target = some fetch) (number : Nat) :
    ({ batcher with fetches := Assoc.erase target batcher.fetches } : Batcher κ).keepers number +
      (if fetch.job = number then 1 else 0) = batcher.keepers number := by
  obtain ⟨before, after, hsplit, _⟩ := Assoc.exists_split_of_find? hfetch
  have hnodup := h.fetches_nodup
  rw [hsplit] at hnodup
  simp only [keepers]
  rw [hsplit, Assoc.erase_split hnodup]
  simp only [List.countP_append, List.countP_cons, beq_iff_eq]
  omega

theorem endFetch (h : batcher.Sound) (number : Nat) : (batcher.endFetch number).Sound := by
  unfold Batcher.endFetch
  split
  · exact h
  · rename_i fetch hfetch
    apply release
    have hkeepers := h.keepers_eraseFetch hfetch
    have hjob : batcher.keepers fetch.job = 1 := by
      have hle := h.keepers_le fetch.job
      have heq := hkeepers fetch.job
      rw [if_pos rfl] at heq
      omega
    have herased : ({ batcher with
        fetches := Assoc.erase number batcher.fetches } : Batcher κ).Sound := {
      jobs_nodup := h.jobs_nodup
      ids_nodup := h.ids_nodup
      fetches_nodup := Assoc.nodup_keys_erase h.fetches_nodup
      keepers_le := by
        intro other
        have hle := h.keepers_le other
        rw [← hkeepers] at hle
        omega
      kept_lt := by
        intro other hpos
        apply h.kept_lt other
        rw [← hkeepers]
        omega
      job_lt := h.job_lt
      fetch_lt := by
        intro other hmem
        apply h.fetch_lt other
        exact (List.filter_sublist.map _).subset hmem
      closed := h.closed
      vacant := h.vacant }
    have hnone := hkeepers fetch.job
    rw [if_pos rfl] at hnone
    have hlt := h.kept_lt fetch.job (by omega)
    exact herased.push_keeper free_nil rfl (by omega) hlt nofun

/-- The step lemma: whatever instruction comes next, the batcher stays sound. -/
theorem execute {instruction : Instruction κ} (h : (batcher.push [instruction]).Sound) :
    (batcher.execute instruction).Sound := by
  have hsound := h.pop
  cases instruction with
  | call key handler callback =>
    apply (hsound.note _).push_free
    intro instruction hmem
    obtain ⟨reaction, _, rfl⟩ := List.mem_map.1 hmem
    rfl
  | react key reaction => exact hsound.react key reaction
  | note occurrence => exact hsound.note occurrence
  | mark key standing => exact hsound.changeRequest key _
  | enqueue key id graph handler => exact hsound.enqueue key id graph handler
  | flush id job =>
    obtain ⟨hkept, hlt⟩ := h.keepers_eq_zero rfl
    exact hsound.flush hkept hlt id
  | restore id job graph waiters =>
    obtain ⟨hkept, hlt⟩ := h.keepers_eq_zero rfl
    exact hsound.restore hkept hlt id graph waiters
  | launch id job graph =>
    obtain ⟨hkept, hlt⟩ := h.keepers_eq_zero rfl
    exact hsound.launch hkept hlt id graph
  | endFetch fetch => exact hsound.endFetch fetch
  | dropJob job => exact hsound.dropJob job

variable [DecidableEq κ] [Catalog κ]

theorem complete (h : batcher.Sound) (number : Nat)
    (answer : Except Error (Option (Entity κ))) : (batcher.complete number answer).Sound := by
  have hend : Free [(.endFetch number : Instruction κ)] := by
    simp [Free, Instruction.job?]
  unfold Batcher.complete
  split
  · exact h
  · rename_i fetch hfetch
    split
    · exact h.push_free hend
    · rename_i job hjob
      apply Sound.push_free _ ((free_flatMap (free_deliver answer) _).append hend)
      exact h.setJob hjob (fun _ _ => rfl) (fun _ _ _ _ => rfl)

omit [DecidableEq κ] [Catalog κ] in
/-- A job is kept by the open window wherever it stands there. -/
theorem rearrange (h : batcher.Sound) (queue : List (Nat × Nat)) :
    (batcher.rearrange queue).Sound := by
  obtain ⟨order, hperm, heq⟩ := exists_perm_rearrange queue batcher
  have hkeepers (number : Nat) :
      ({ batcher with queue := order } : Batcher κ).keepers number = batcher.keepers number := by
    rw [keepers, keepers, hperm.countP_eq]
  rw [heq]
  exact {
    jobs_nodup := h.jobs_nodup
    ids_nodup := (hperm.map _).nodup_iff.2 h.ids_nodup
    fetches_nodup := h.fetches_nodup
    keepers_le := fun number => (hkeepers number).trans_le (h.keepers_le number)
    kept_lt := fun number hpos => h.kept_lt number (hkeepers number ▸ hpos)
    job_lt := h.job_lt
    fetch_lt := h.fetch_lt
    closed := fun entry hentry => h.closed entry (hperm.mem_iff.1 hentry)
    vacant := h.vacant }

/-- The batcher stays sound whatever is done with it from outside. -/
theorem start (h : batcher.Sound) (operation : Operation κ) :
    (batcher.start operation).Sound := by
  cases operation with
  | submit id graph handler => exact h.request id graph handler
  | cancel key =>
    obtain ⟨hsound, hfree⟩ := h.retract key
    exact hsound.push_free hfree
  | run => exact h.closeWindow _ (fun _ => rfl) nofun
  | rearrange queue => exact h.rearrange queue
  | complete fetch answer => exact h.complete fetch answer
  | dropFetch fetch => exact h.push_free (by simp [Free, Instruction.job?])
  | close =>
    apply release
    exact ⟨h.1, h.2, h.3, h.4, h.5, h.6, h.7, h.8, h.9⟩

end Sound

/-- The run lemma: a sound batcher becomes only sound ones. -/
theorem Reaches.sound [DecidableEq κ] [Catalog κ] {later : Batcher κ} (h : Reaches batcher later)
    (hsound : batcher.Sound) : later.Sound :=
  h.invariant (P := Sound) (fun operation _ hbefore => hbefore.start operation)
    (fun _ _ hbefore => hbefore.execute) hsound

/-- No job is ever kept twice. -/
theorem Reachable.sound [DecidableEq κ] [Catalog κ] {kind : κ} (h : Reachable kind batcher) :
    batcher.Sound :=
  Reaches.sound h (.empty kind)

end Batcher

end PartialEntity
