import Mathlib
import PartialEntity.Proofs.Batch.Keeping

/-!
# The stages of a request

What is still going to happen to a request is spread over the agenda and the jobs: calls of its
handler and changes of its standing that are to come, its place in the queue, and the waiter that
stands for it in a job.  Together with what its handler was told and with how the request stands,
this determines how far the request has come.
-/

namespace PartialEntity

open Batch

variable {κ : Type}

namespace Batch

namespace Outcome

/-- Where a request stands once its outcome was told. -/
def standing : Outcome κ → Standing
  | success _ => .settled
  | failed _ => .settled
  | cancelled => .cancelled

/-- The calls that tell an outcome. -/
def ending : Outcome κ → List (Callback κ)
  | success value => [.success value, .finish, .destroy]
  | failed error => [.fail error, .finish, .destroy]
  | cancelled => [.cancel, .destroy]

/-- What a handler may have been told before it is told an outcome.  Only a cancellation can come
before the work was given out. -/
def openings : Outcome κ → List (List (Callback κ))
  | success _ => [[.pre, .post]]
  | failed _ => [[.pre, .post]]
  | cancelled => [[.pre], [.pre, .post]]

end Outcome

def opening (dispatched : Bool) : List (Callback κ) :=
  if dispatched then [.pre, .post] else [.pre]

inductive Duty (κ : Type) where
  | call (callback : Callback κ)
  | mark (standing : Standing)
  | enqueue
  /-- Its waiter goes back into its job. -/
  | restore (dispatched : Bool)

def waitersOf (key : Nat) (waiters : List (Waiter κ)) : List (Waiter κ) :=
  waiters.filter fun waiter => waiter.key == key

def Instruction.duties (key : Nat) : Instruction κ → List (Duty κ)
  | .call other _ callback => if other = key then [.call callback] else []
  | .note (.called other callback) => if other = key then [.call callback] else []
  | .mark other standing => if other = key then [.mark standing] else []
  | .enqueue other _ _ _ => if other = key then [.enqueue] else []
  | .restore _ _ _ waiters => (waitersOf key waiters).map fun waiter => .restore waiter.dispatched
  | _ => []

namespace Instruction

variable (key : Nat)

@[simp]
theorem duties_call (other : Nat) (handler : Handler κ) (callback : Callback κ) :
    (call other handler callback).duties key =
      if other = key then [.call callback] else [] := rfl

@[simp]
theorem duties_mark (other : Nat) (standing : Standing) :
    (mark other standing : Instruction κ).duties key =
      if other = key then [.mark standing] else [] := rfl

@[simp]
theorem duties_enqueue (other id : Nat) (graph : Graph κ) (handler : Handler κ) :
    (enqueue other id graph handler).duties key = if other = key then [.enqueue] else [] := rfl

@[simp]
theorem duties_restore (id job : Nat) (graph : Graph κ) (waiters : List (Waiter κ)) :
    (restore id job graph waiters).duties key =
      (waitersOf key waiters).map fun waiter => .restore waiter.dispatched := rfl

@[simp]
theorem duties_called (other : Nat) (callback : Callback κ) :
    (note (.called other callback)).duties key =
      if other = key then [.call callback] else [] := rfl

/-- What is only written down is no call. -/
@[simp]
theorem duties_note {occurrence : Occurrence κ}
    (h : ∀ other callback, occurrence ≠ .called other callback) :
    (note occurrence).duties key = [] := by
  cases occurrence with
  | called other callback => exact absurd rfl (h other callback)
  | _ => rfl

end Instruction

def dutiesIn (key : Nat) (work : List (Instruction κ)) : List (Duty κ) :=
  work.flatMap (Instruction.duties key)

/-! ## Stages -/

/-- How far a request has come: what its handler was told, how it stands, what is going to be done
about it, and which of its waiters are in a job. -/
inductive Stage : List (Callback κ) → Option Request → List (Duty κ) → List Bool → Prop
  /-- Nothing of its key was requested. -/
  | unknown : Stage [] none [] []
  | announced {standing : Standing} (hstanding : standing ≠ .settled) :
      Stage [] (some ⟨standing, none⟩) [.call .pre, .enqueue] []
  | joining {standing : Standing} (hstanding : standing ≠ .settled) :
      Stage [.pre] (some ⟨standing, none⟩) [.enqueue] []
  | waiting {told : List (Callback κ)} {job : Nat} {dispatched : Bool}
      (htold : told = opening dispatched) :
      Stage told (some ⟨.pending, some job⟩) [] [dispatched]
  | dispatching {job : Nat} :
      Stage [.pre] (some ⟨.pending, some job⟩) [.call .post, .restore true] []
  | dispatched {job : Nat} :
      Stage [.pre, .post] (some ⟨.pending, some job⟩) [.restore true] []
  /-- Its outcome is certain and is going to be marked. -/
  | leaving (outcome : Outcome κ) {told : List (Callback κ)} (late : List (Callback κ))
      {duties : List (Duty κ)} {standing : Standing} {job : Nat}
      (hopening : told ++ late ∈ outcome.openings)
      (hstanding : standing = .pending ∨ standing = outcome.standing)
      (hduties : duties =
        late.map .call ++ .mark outcome.standing :: outcome.ending.map .call) :
      Stage told (some ⟨standing, some job⟩) duties []
  /-- Its outcome was marked, and its handler was told a part of the ending. -/
  | ending (outcome : Outcome κ) {told : List (Callback κ)} (first done rest : List (Callback κ))
      {duties : List (Duty κ)} {standing : Standing} {job : Nat}
      (hopening : first ∈ outcome.openings) (hending : done ++ rest = outcome.ending)
      (htold : told = first ++ done) (hstanding : standing = outcome.standing)
      (hduties : duties = rest.map .call) :
      Stage told (some ⟨standing, some job⟩) duties []

namespace Stage

variable {told : List (Callback κ)} {request : Option Request} {duties : List (Duty κ)}
variable {flags : List Bool}

theorem call {callback : Callback κ} (h : Stage told request (.call callback :: duties) flags) :
    Stage (told ++ [callback]) request duties flags := by
  cases h with
  | announced hstanding => exact .joining hstanding
  | dispatching => exact .dispatched
  | leaving outcome late hopening hstanding hduties =>
    cases late with
    | nil => cases hduties
    | cons next late =>
      cases hduties
      exact .leaving outcome late (by simpa using hopening) hstanding rfl
  | ending outcome first done rest hopening hending htold hstanding hduties =>
    cases rest with
    | nil => cases hduties
    | cons next rest =>
      cases hduties
      exact .ending outcome first (done ++ [callback]) rest hopening (by simpa using hending)
        (by simp [htold]) hstanding rfl

theorem mark {standing : Standing} (h : Stage told request (.mark standing :: duties) flags) :
    Stage told (request.map (Request.mark standing)) duties flags := by
  cases h with
  | @leaving outcome _ late _ before job hopening hstanding hduties =>
    cases late with
    | cons next late => cases hduties
    | nil =>
      cases hduties
      have hmark : Request.mark outcome.standing ⟨before, some job⟩ =
          ⟨outcome.standing, some job⟩ := by
        unfold Request.mark
        rcases hstanding with rfl | rfl
        · rfl
        · split <;> rfl
      rw [Option.map_some, hmark]
      exact .ending outcome told [] outcome.ending (by simpa using hopening) rfl (by simp) rfl rfl
  | ending _ _ _ rest _ _ _ _ hduties => cases rest <;> cases hduties

theorem enqueue (h : Stage told request (.enqueue :: duties) flags) :
    told = [.pre] ∧ (∃ standing, standing ≠ .settled ∧ request = some ⟨standing, none⟩) ∧
      duties = [] ∧ flags = [] := by
  cases h with
  | joining hstanding => exact ⟨rfl, ⟨_, hstanding, rfl⟩, rfl, rfl⟩
  | leaving _ late _ _ hduties => cases late <;> cases hduties
  | ending _ _ _ rest _ _ _ _ hduties => cases rest <;> cases hduties

theorem restore {flag : Bool} (h : Stage told request (.restore flag :: duties) flags) :
    told = [.pre, .post] ∧ (∃ job, request = some ⟨.pending, some job⟩) ∧
      flag = true ∧ duties = [] ∧ flags = [] := by
  cases h with
  | dispatched => exact ⟨rfl, ⟨_, rfl⟩, rfl, rfl, rfl⟩
  | leaving _ late _ _ hduties => cases late <;> cases hduties
  | ending _ _ _ rest _ _ _ _ hduties => cases rest <;> cases hduties

theorem of_flags {flag : Bool} (h : Stage told request duties (flag :: flags)) :
    told = opening flag ∧ (∃ job, request = some ⟨.pending, some job⟩) ∧
      duties = [] ∧ flags = [] := by
  cases h with
  | waiting htold => exact ⟨htold, ⟨_, rfl⟩, rfl, rfl⟩

/-- Where a request stands that is going to be marked. -/
theorem of_mark {standing : Standing} (h : Stage told request (.mark standing :: duties) flags) :
    ∃ before job, request = some ⟨before, some job⟩ ∧ (before = .pending ∨ before = standing) := by
  cases h with
  | leaving outcome late hopening hstanding hduties =>
    cases late with
    | nil =>
      cases hduties
      exact ⟨_, _, rfl, hstanding⟩
    | cons next late => cases hduties
  | ending _ _ _ rest _ _ _ _ hduties => cases rest <;> cases hduties

/-- A pending request that is tied to its job and about which nothing is going to be done has a
waiter. -/
theorem pending_ne_nil {job : Nat} (h : Stage told (some ⟨.pending, some job⟩) [] flags) :
    flags ≠ [] := by
  cases h with
  | waiting => simp
  | leaving outcome late hopening hstanding hduties => simp at hduties
  | ending outcome first done rest hopening hending htold hstanding hduties =>
    cases outcome <;> cases hstanding

theorem exists_job_of_idle {request : Request} (h : Stage told (some request) [] flags) :
    ∃ standing job, some request = some ⟨standing, some job⟩ := by
  cases h with
  | waiting => exact ⟨_, _, rfl⟩
  | leaving => exact ⟨_, _, rfl⟩
  | ending => exact ⟨_, _, rfl⟩

theorem of_none (h : Stage told none duties flags) : told = [] ∧ duties = [] ∧ flags = [] := by
  cases h with
  | unknown => exact ⟨rfl, rfl, rfl⟩

/-- A request has at most one waiter in a job. -/
theorem length_flags_le (h : Stage told request duties flags) : flags.length ≤ 1 := by
  cases h <;> simp

/-- A request that is not queued yet can be cancelled on the spot. -/
theorem cancel_unattached (h : Stage told (some ⟨.pending, none⟩) duties flags) :
    Stage told (some ⟨.cancelled, none⟩) duties flags := by
  cases h with
  | announced => exact .announced (by simp)
  | joining => exact .joining (by simp)

/-- The waiters of a job leave it, and there is work for each of them. -/
theorem release {before mine after : List (Waiter κ)} {work : List (Duty κ)}
    (h : Stage told request duties ((before ++ mine ++ after).map (·.dispatched)))
    (hnone : mine = [] → work = [])
    (hone : ∀ waiter job, mine = [waiter] → told = opening waiter.dispatched →
      request = some ⟨.pending, some job⟩ → Stage told request work []) :
    Stage told request (work ++ duties) ((before ++ after).map (·.dispatched)) := by
  cases mine with
  | nil =>
    rw [hnone rfl]
    simpa using h
  | cons waiter rest =>
    have hlength := length_flags_le h
    simp only [List.length_map, List.length_append, List.length_cons] at hlength
    have hbefore : before = [] := List.length_eq_zero_iff.1 (by omega)
    have hrest : rest = [] := List.length_eq_zero_iff.1 (by omega)
    have hafter : after = [] := List.length_eq_zero_iff.1 (by omega)
    subst hbefore hrest hafter
    obtain ⟨htold, ⟨job, hrequest⟩, hduties, _⟩ := of_flags h
    rw [hduties, List.append_nil]
    exact hone waiter job rfl htold hrequest

end Stage

/-! ## The orders of calls -/

/-- The orders in which the handler of a request is called. -/
def lifecycles : List (List Moment) :=
  [[.pre, .post, .success, .finish, .destroy], [.pre, .post, .fail, .finish, .destroy],
    [.pre, .cancel, .destroy], [.pre, .post, .cancel, .destroy]]

namespace Outcome

/-- Whatever the outcome, the calls come in one of the listed orders. -/
theorem mem_lifecycles {outcome : Outcome κ} {first : List (Callback κ)}
    (h : first ∈ outcome.openings) :
    (first ++ outcome.ending).map Callback.moment ∈ lifecycles := by
  cases outcome with
  | success value =>
    have hfirst := List.mem_singleton.1 h
    simp [hfirst, ending, Callback.moment, lifecycles]
  | failed error =>
    have hfirst := List.mem_singleton.1 h
    simp [hfirst, ending, Callback.moment, lifecycles]
  | cancelled =>
    rcases List.mem_pair.1 h with hfirst | hfirst <;>
      simp [hfirst, ending, Callback.moment, lifecycles]

theorem destroy_notMem_opening {outcome : Outcome κ} {first : List (Callback κ)}
    (h : first ∈ outcome.openings) : .destroy ∉ first := by
  cases outcome with
  | success value => simp [List.mem_singleton.1 h]
  | failed error => simp [List.mem_singleton.1 h]
  | cancelled => rcases List.mem_pair.1 h with hfirst | hfirst <;> simp [hfirst]

/-- The destruction of the handler is the last call. -/
theorem ending_eq (outcome : Outcome κ) :
    ∃ told : List (Callback κ), outcome.ending = told ++ [.destroy] ∧ .destroy ∉ told := by
  cases outcome with
  | success value => exact ⟨[.success value, .finish], rfl, by simp⟩
  | failed error => exact ⟨[.fail error, .finish], rfl, by simp⟩
  | cancelled => exact ⟨[.cancel], rfl, by simp⟩

/-- Of the calls of a request that has ended, one tells an outcome. -/
theorem filterMap_outcome? {outcome : Outcome κ} {first : List (Callback κ)}
    (h : first ∈ outcome.openings) :
    (first ++ outcome.ending).filterMap Callback.outcome? = [outcome] := by
  cases outcome with
  | success value =>
    rw [List.mem_singleton.1 h]
    rfl
  | failed error =>
    rw [List.mem_singleton.1 h]
    rfl
  | cancelled =>
    rcases List.mem_pair.1 h with hfirst | hfirst
    · rw [hfirst]
      rfl
    · rw [hfirst]
      rfl

/-- Nothing comes after the destruction of the handler. -/
theorem eq_nil_of_destroy_mem {outcome : Outcome κ} {first told rest : List (Callback κ)}
    (hopening : first ∈ outcome.openings) (htold : told ++ rest = first ++ outcome.ending)
    (hdestroy : .destroy ∈ told) : rest = [] := by
  obtain ⟨body, hending, hbody⟩ := outcome.ending_eq
  by_contra hrest
  rw [← List.dropLast_append_getLast hrest, hending, ← List.append_assoc, ← List.append_assoc]
    at htold
  have hparts := List.append_inj_left' htold rfl
  have hmem : .destroy ∈ first ++ body := by
    rw [← hparts]
    exact List.mem_append_left _ hdestroy
  rcases List.mem_append.1 hmem with h | h
  · exact destroy_notMem_opening hopening h
  · exact hbody h

end Outcome

namespace Stage

variable {told : List (Callback κ)} {request : Option Request} {duties : List (Duty κ)}
variable {flags : List Bool}

theorem told_prefix (h : Stage told request duties flags) :
    ∃ outcome : Outcome κ, ∃ first ∈ outcome.openings, told <+: first ++ outcome.ending := by
  have hqueued : [.pre] ∈ (Outcome.cancelled : Outcome κ).openings := by simp [Outcome.openings]
  have hpost : [.pre, .post] ∈ (Outcome.cancelled : Outcome κ).openings := by
    simp [Outcome.openings]
  cases h with
  | unknown => exact ⟨.cancelled, _, hqueued, List.nil_prefix⟩
  | announced => exact ⟨.cancelled, _, hqueued, List.nil_prefix⟩
  | joining => exact ⟨.cancelled, _, hqueued, List.prefix_append _ _⟩
  | @waiting _ _ dispatched htold =>
    cases dispatched with
    | true => exact ⟨.cancelled, _, hpost, htold ▸ List.prefix_append _ _⟩
    | false => exact ⟨.cancelled, _, hqueued, htold ▸ List.prefix_append _ _⟩
  | dispatching => exact ⟨.cancelled, _, hqueued, List.prefix_append _ _⟩
  | dispatched => exact ⟨.cancelled, _, hpost, List.prefix_append _ _⟩
  | leaving outcome late hopening =>
    exact ⟨outcome, _, hopening, by simp⟩
  | ending outcome first done rest hopening hending htold =>
    use outcome, first, hopening
    rw [htold, ← hending, ← List.append_assoc]
    exact List.prefix_append _ _

/-- A handler that was destroyed was told everything, and its request has ended. -/
theorem of_destroy_mem (h : Stage told request duties flags) (hdestroy : .destroy ∈ told) :
    ∃ outcome : Outcome κ, ∃ first ∈ outcome.openings, told = first ++ outcome.ending ∧
      ∃ job, request = some ⟨outcome.standing, some job⟩ := by
  cases h with
  | @waiting _ _ dispatched htold => cases dispatched <;> simp [htold, opening] at hdestroy
  | leaving outcome late hopening =>
    exact absurd (List.mem_append_left late hdestroy) (Outcome.destroy_notMem_opening hopening)
  | @ending outcome _ first done rest _ _ job hopening hending htold hstanding =>
    have hall : told ++ rest = first ++ outcome.ending := by
      rw [htold, List.append_assoc, hending]
    have hrest := Outcome.eq_nil_of_destroy_mem hopening hall hdestroy
    rw [hrest, List.append_nil] at hall
    exact ⟨outcome, first, hopening, hall, job, by rw [hstanding]⟩
  | _ => simp at hdestroy

end Stage

/-! ## Work for a waiter -/

@[simp]
theorem dutiesIn_nil (key : Nat) : dutiesIn key ([] : List (Instruction κ)) = [] := rfl

@[simp]
theorem dutiesIn_cons (key : Nat) (instruction : Instruction κ) (rest : List (Instruction κ)) :
    dutiesIn key (instruction :: rest) = instruction.duties key ++ dutiesIn key rest :=
  List.flatMap_cons

@[simp]
theorem dutiesIn_append (key : Nat) (first second : List (Instruction κ)) :
    dutiesIn key (first ++ second) = dutiesIn key first ++ dutiesIn key second :=
  List.flatMap_append

@[simp]
theorem waitersOf_append (key : Nat) (first second : List (Waiter κ)) :
    waitersOf key (first ++ second) = waitersOf key first ++ waitersOf key second :=
  List.filter_append first second

/-- What is done about a request when something is done for each waiter. -/
theorem dutiesIn_flatMap {f : Waiter κ → List (Instruction κ)}
    (hf : ∀ waiter key, waiter.key ≠ key → dutiesIn key (f waiter) = [])
    (key : Nat) (waiters : List (Waiter κ)) :
    dutiesIn key (waiters.flatMap f) =
      (waitersOf key waiters).flatMap fun waiter => dutiesIn key (f waiter) := by
  induction waiters with
  | nil => rfl
  | cons waiter rest ih =>
    rw [List.flatMap_cons, dutiesIn_append, ih]
    by_cases hkey : waiter.key = key
    · simp [waitersOf, hkey]
    · simp [waitersOf, hkey, hf waiter key hkey]

namespace Waiter

theorem dutiesIn_dispatch_of_ne {waiter : Waiter κ} {key : Nat} (hkey : waiter.key ≠ key) :
    dutiesIn key waiter.dispatch = [] := by
  unfold dispatch
  split <;> simp [call, hkey]

theorem dutiesIn_dispatch (waiter : Waiter κ) :
    dutiesIn waiter.key waiter.dispatch = if waiter.dispatched then [] else [.call .post] := by
  unfold dispatch
  split <;> simp [call]

theorem dutiesIn_settle_of_ne {waiter : Waiter κ} {key : Nat} (hkey : waiter.key ≠ key)
    (outcome : Outcome κ) : dutiesIn key (waiter.settle outcome) = [] := by
  cases outcome <;>
    simp [settle, dutiesIn_dispatch_of_ne hkey, call, hkey]

theorem dutiesIn_settle_cancelled (waiter : Waiter κ) :
    dutiesIn waiter.key (waiter.settle .cancelled) =
      .mark .cancelled :: (Outcome.ending (.cancelled : Outcome κ)).map .call := by
  simp [settle, call, Outcome.ending]

theorem dutiesIn_discard_of_ne {waiter : Waiter κ} {key : Nat} (hkey : waiter.key ≠ key) :
    dutiesIn key waiter.discard = [] := by
  simp [discard, call, hkey]

theorem dutiesIn_discard (waiter : Waiter κ) :
    dutiesIn waiter.key waiter.discard = dutiesIn waiter.key (waiter.settle .cancelled) := by
  simp [discard, settle, call]

theorem dutiesIn_deliver [DecidableEq κ] [Catalog κ]
    (answer : Except Error (Option (Entity κ))) (waiter : Waiter κ) (key : Nat) :
    dutiesIn key (waiter.deliver answer) =
      dutiesIn key (waiter.settle (waiter.outcome answer)) := by
  simp [deliver]

end Waiter

/-- A waiter that is told an outcome is on its way out. -/
theorem stage_settle (waiter : Waiter κ) (outcome : Outcome κ) (job : Nat) {standing : Standing}
    (hstanding : standing = .pending ∨ standing = outcome.standing) :
    Stage (opening waiter.dispatched) (some ⟨standing, some job⟩)
      (dutiesIn waiter.key (waiter.settle outcome)) [] := by
  cases outcome with
  | success value =>
    apply Stage.leaving (.success value) (if waiter.dispatched then [] else [.post]) _ hstanding
    · simp only [Waiter.settle, dutiesIn_append, Waiter.dutiesIn_dispatch]
      split <;> simp [Waiter.call, Outcome.ending, Outcome.standing]
    · unfold opening
      split <;> simp [Outcome.openings]
  | failed error =>
    apply Stage.leaving (.failed error) (if waiter.dispatched then [] else [.post]) _ hstanding
    · simp only [Waiter.settle, dutiesIn_append, Waiter.dutiesIn_dispatch]
      split <;> simp [Waiter.call, Outcome.ending, Outcome.standing]
    · unfold opening
      split <;> simp [Outcome.openings]
  | cancelled =>
    apply Stage.leaving .cancelled [] _ hstanding
    · exact waiter.dutiesIn_settle_cancelled
    · unfold opening
      split <;> simp [Outcome.openings]

end Batch

namespace Batcher

def duties (key : Nat) (batcher : Batcher κ) : List (Duty κ) :=
  dutiesIn key batcher.agenda

def held (key : Nat) (batcher : Batcher κ) : List (Waiter κ) :=
  batcher.jobs.flatMap fun entry => waitersOf key entry.2.waiters

def AtStage (key : Nat) (batcher : Batcher κ) : Prop :=
  Stage (batcher.callbacks key) batcher.requests[key]? (batcher.duties key)
    ((batcher.held key).map (·.dispatched))

variable {batcher : Batcher κ} {key : Nat}

@[simp]
theorem duties_push (key : Nat) (work : List (Instruction κ)) (batcher : Batcher κ) :
    (batcher.push work).duties key = dutiesIn key work ++ batcher.duties key :=
  dutiesIn_append key work batcher.agenda

theorem callbacks_note (key : Nat) (occurrence : Occurrence κ) (batcher : Batcher κ) :
    (batcher.note occurrence).callbacks key = batcher.callbacks key ++
      match occurrence with
      | .called other callback => if other = key then [callback] else []
      | _ => [] := by
  unfold callbacks note
  rw [List.filterMap_append]
  congr 1
  cases occurrence with
  | called other callback => by_cases hkey : other = key <;> simp [hkey]
  | _ => rfl

/-- Replacing a job replaces its waiters. -/
theorem held_setJob {number : Nat} {old : Job κ} (hjob : batcher.job? number = some old) :
    ∃ before after : Nat → List (Waiter κ), ∀ key,
      batcher.held key = before key ++ waitersOf key old.waiters ++ after key ∧
      ∀ new, (batcher.setJob number new).held key =
        before key ++ waitersOf key new.waiters ++ after key := by
  obtain ⟨before, after, hsplit, hbefore⟩ := Assoc.exists_split_of_find? hjob
  use fun key => before.flatMap fun entry => waitersOf key entry.2.waiters
  use fun key => after.flatMap fun entry => waitersOf key entry.2.waiters
  intro key
  constructor
  · simp [held, hsplit]
  · intro new
    simp [held, setJob, hsplit, Assoc.insert_split hbefore]

/-- Forgetting a job forgets its waiters. -/
theorem held_eraseJob (hnodup : (batcher.jobs.map (·.1)).Nodup) {number : Nat} {old : Job κ}
    (hjob : batcher.job? number = some old) :
    ∃ before after : Nat → List (Waiter κ), ∀ key,
      batcher.held key = before key ++ waitersOf key old.waiters ++ after key ∧
      ({ batcher with jobs := Assoc.erase number batcher.jobs } : Batcher κ).held key =
        before key ++ after key := by
  obtain ⟨before, after, hsplit, _⟩ := Assoc.exists_split_of_find? hjob
  use fun key => before.flatMap fun entry => waitersOf key entry.2.waiters
  use fun key => after.flatMap fun entry => waitersOf key entry.2.waiters
  intro key
  rw [hsplit] at hnodup
  constructor
  · simp [held, hsplit]
  · simp [held, hsplit, Assoc.erase_split hnodup]

theorem AtStage.pop {work : List (Instruction κ)} (h : (batcher.push work).AtStage key)
    (hwork : dutiesIn key work = []) : batcher.AtStage key := by
  unfold AtStage at h
  rw [duties_push, hwork, List.nil_append] at h
  exact h

theorem AtStage.push (h : batcher.AtStage key) {work : List (Instruction κ)}
    (hwork : dutiesIn key work = []) : (batcher.push work).AtStage key := by
  unfold AtStage
  rw [duties_push, hwork, List.nil_append]
  exact h

end Batcher

end PartialEntity
