import P2PSync.Drain
import P2PSync.Library.Decimal

/-! The loop that hands out tasks, and the two semaphores that bound how many of them
run. The loop takes a global slot first and, holding it, waits for one of the
repository; the goroutine of a task gives them back in the other order. -/
namespace P2PSync

open Transition

namespace SyncQueue

/-- Push drops a task that is queued already. -/
def holds (q : SyncQueue) (task : SyncTask) : Bool :=
  (q.tasks task.repoID).any (duplicate · task)

theorem push_holds (s : TaskSort) {q : SyncQueue} {task : SyncTask} (known : q.holds task = true) :
    q.push s task = q := by
  unfold holds tasks at known
  unfold push
  cases found : q.queues.lookup task.repoID with
  | none => simp [found] at known
  | some ts =>
    rw [found, Option.getD_some] at known
    simp only [known, if_true]

theorem push_fresh (s : TaskSort) {q : SyncQueue} {task : SyncTask} (fresh : q.holds task = false) :
    (q.push s task).queued.Perm (task :: q.queued) := by
  refine (q.queued_push s task).resolve_left ?_
  intro same
  obtain ⟨t, member, duplicate⟩ := q.push_present s task
  rw [same] at member
  rw [holds, List.any_eq_false] at fresh
  exact fresh t member duplicate

end SyncQueue

def concurrency (default : Nat) (env : String) : Nat :=
  match Decimal.parseInt env.toList with
  | some v => if 0 < v then v.toNat else default
  | none => default

structure Limits where
  globalConcurrency : Nat
  repoConcurrency : Nat
  global_pos : 0 < globalConcurrency
  repo_pos : 0 < repoConcurrency

theorem concurrency_pos {default : Nat} (pos : 0 < default) (env : String) :
    0 < concurrency default env := by
  unfold concurrency
  split
  · split
    · omega
    · exact pos
  · exact pos

def Limits.fromEnv (globalEnv repoEnv : String) : Limits where
  globalConcurrency := concurrency 16 globalEnv
  repoConcurrency := concurrency 2 repoEnv
  global_pos := concurrency_pos (by decide) globalEnv
  repo_pos := concurrency_pos (by decide) repoEnv

inductive LoopState where
  | top
  | polling
  | popped (task : SyncTask)
  | unknown (task : SyncTask)
  | wantGlobal (task : SyncTask)
  | wantRepo (task : SyncTask)
  | returned (task : Option SyncTask)
  deriving DecidableEq, Repr

def LoopState.inHand : LoopState → List SyncTask
  | .top | .polling => []
  | .popped task | .unknown task | .wantGlobal task | .wantRepo task => [task]
  | .returned task => task.toList

def LoopState.slots : LoopState → Nat
  | .wantRepo _ => 1
  | _ => 0

/-- How far the goroutine of a task is: its call, then the two deferred receives. -/
inductive Stage where
  | executing | executed | repoFreed
  deriving DecidableEq, Repr

structure Runner where
  task : SyncTask
  stage : Stage
  deriving DecidableEq, Repr

def Runner.running (r : Runner) : Option SyncTask :=
  if r.stage = .executing then some r.task else none

def Runner.holds (repoID : String) (r : Runner) : Bool :=
  r.task.repoID = repoID ∧ r.stage ≠ .repoFreed

structure Dispatcher where
  queue : SyncQueue
  globalSem : Nat
  repoSems : AList fun _ : String => Nat
  loop : LoopState
  runners : List Runner
  stopped : Bool
  /-- History: what was pushed and not dropped as a duplicate, what has been executed
  without going back, what the removal of its repository deleted, and how many were
  handed to a goroutine. -/
  entered : List SyncTask
  finished : List SyncTask
  removed : List SyncTask
  started : Nat

inductive DispatchEvent where
  | push (task : SyncTask)
  | addRepository (repoID : String)
  | removeRepository (repoID : String)
  | check
  | sleep
  | pop
  | lookUp
  | giveBack
  | acquireGlobal
  | acquireRepo
  | quit
  /-- The call of executeSyncTask, which may put the task back. -/
  | execute (i : Nat) (again : Bool)
  | freeRepo (i : Nat)
  | freeGlobal (i : Nat)
  | stop
  deriving DecidableEq, Repr

namespace Dispatcher

def new : Dispatcher := ⟨.new, 0, ∅, .top, [], false, [], [], [], 0⟩

def setStage (d : Dispatcher) (i : Nat) (r : Runner) (stage : Stage) : Dispatcher :=
  { d with runners := d.runners.set i ⟨r.task, stage⟩ }

def next (limits : Limits) (sort : TaskSort) (d : Dispatcher) : DispatchEvent → Option Dispatcher
  | .push task =>
    some { d with
      queue := d.queue.push sort task
      entered := if d.queue.holds task then d.entered else task :: d.entered }
  | .addRepository repoID =>
    some (if repoID ∈ d.repoSems then d else { d with repoSems := d.repoSems.insert repoID 0 })
  | .removeRepository repoID =>
    some { d with
      queue := d.queue.removeRepository repoID
      removed := d.queue.tasks repoID ++ d.removed }
  | .check =>
    match d.loop with
    | .top => some { d with loop := if d.stopped then .returned none else .polling }
    | _ => none
  | .sleep =>
    match d.loop, d.queue.pop with
    | .polling, none => some { d with loop := .top }
    | _, _ => none
  | .pop =>
    match d.loop, d.queue.pop with
    | .polling, some (task, queue) => some { d with loop := .popped task, queue := queue }
    | _, _ => none
  | .lookUp =>
    match d.loop with
    | .popped task => some { d with
      loop := if task.repoID ∈ d.repoSems then .wantGlobal task else .unknown task }
    | _ => none
  | .giveBack =>
    match d.loop with
    | .unknown task => some { d with loop := .top, queue := d.queue.requeue task }
    | _ => none
  | .acquireGlobal =>
    match d.loop with
    | .wantGlobal task =>
      if d.globalSem < limits.globalConcurrency then
        some { d with loop := .wantRepo task, globalSem := d.globalSem + 1 }
      else none
    | _ => none
  | .acquireRepo =>
    match d.loop with
    | .wantRepo task =>
      (d.repoSems.lookup task.repoID).bind fun used =>
        if used < limits.repoConcurrency then
          some { d with
            loop := .top
            repoSems := d.repoSems.insert task.repoID (used + 1)
            runners := d.runners ++ [⟨task, .executing⟩]
            started := d.started + 1 }
        else none
    | _ => none
  | .quit =>
    if d.stopped then
      match d.loop with
      | .wantGlobal task => some { d with loop := .returned (some task) }
      | .wantRepo task =>
        if 0 < d.globalSem then
          some { d with loop := .returned (some task), globalSem := d.globalSem - 1 }
        else none
      | _ => none
    else none
  | .execute i again =>
    d.runners[i]?.bind fun r =>
      if r.stage = .executing then
        let d := d.setStage i r .executed
        some (if again then { d with queue := d.queue.requeue r.task }
          else { d with finished := r.task :: d.finished })
      else none
  | .freeRepo i =>
    d.runners[i]?.bind fun r =>
      if r.stage = .executed then
        (d.repoSems.lookup r.task.repoID).bind fun used =>
          if 0 < used then
            some { d.setStage i r .repoFreed with
              repoSems := d.repoSems.insert r.task.repoID (used - 1) }
          else none
      else none
  | .freeGlobal i =>
    d.runners[i]?.bind fun r =>
      if r.stage = .repoFreed ∧ 0 < d.globalSem then
        some { d with runners := d.runners.eraseIdx i, globalSem := d.globalSem - 1 }
      else none
  | .stop => if d.stopped then none else some { d with stopped := true }

def Initial (d : Dispatcher) : Prop := d = new

theorem new_initial : new.Initial := rfl

variable {limits : Limits} {sort : TaskSort} {d d' : Dispatcher}

inductive Moved (limits : Limits) (sort : TaskSort) (d : Dispatcher) :
    DispatchEvent → Dispatcher → Prop where
  | pushed (task : SyncTask) : Moved limits sort d (.push task) { d with
      queue := d.queue.push sort task
      entered := if d.queue.holds task then d.entered else task :: d.entered }
  | known {repoID : String} (known : repoID ∈ d.repoSems) :
      Moved limits sort d (.addRepository repoID) d
  | added {repoID : String} (fresh : repoID ∉ d.repoSems) :
      Moved limits sort d (.addRepository repoID) { d with repoSems := d.repoSems.insert repoID 0 }
  | removed (repoID : String) : Moved limits sort d (.removeRepository repoID) { d with
      queue := d.queue.removeRepository repoID
      removed := d.queue.tasks repoID ++ d.removed }
  | checked (at_ : d.loop = .top) (open_ : d.stopped = false) :
      Moved limits sort d .check { d with loop := .polling }
  | ended (at_ : d.loop = .top) (closed : d.stopped = true) :
      Moved limits sort d .check { d with loop := .returned none }
  | slept (at_ : d.loop = .polling) (empty : d.queue.pop = none) :
      Moved limits sort d .sleep { d with loop := .top }
  | popped {task : SyncTask} {queue : SyncQueue} (at_ : d.loop = .polling)
      (head : d.queue.pop = some (task, queue)) :
      Moved limits sort d .pop { d with loop := .popped task, queue := queue }
  | found {task : SyncTask} (at_ : d.loop = .popped task) (known : task.repoID ∈ d.repoSems) :
      Moved limits sort d .lookUp { d with loop := .wantGlobal task }
  | missed {task : SyncTask} (at_ : d.loop = .popped task) (unknown : task.repoID ∉ d.repoSems) :
      Moved limits sort d .lookUp { d with loop := .unknown task }
  | gaveBack {task : SyncTask} (at_ : d.loop = .unknown task) :
      Moved limits sort d .giveBack { d with loop := .top, queue := d.queue.requeue task }
  | gotGlobal {task : SyncTask} (at_ : d.loop = .wantGlobal task)
      (room : d.globalSem < limits.globalConcurrency) : Moved limits sort d .acquireGlobal
        { d with loop := .wantRepo task, globalSem := d.globalSem + 1 }
  | gotRepo {task : SyncTask} {used : Nat} (at_ : d.loop = .wantRepo task)
      (taken : d.repoSems.lookup task.repoID = some used) (room : used < limits.repoConcurrency) :
      Moved limits sort d .acquireRepo { d with
        loop := .top
        repoSems := d.repoSems.insert task.repoID (used + 1)
        runners := d.runners ++ [⟨task, .executing⟩]
        started := d.started + 1 }
  | quitGlobal {task : SyncTask} (at_ : d.loop = .wantGlobal task) (closed : d.stopped = true) :
      Moved limits sort d .quit { d with loop := .returned (some task) }
  | quitRepo {task : SyncTask} (at_ : d.loop = .wantRepo task) (closed : d.stopped = true)
      (held : 0 < d.globalSem) : Moved limits sort d .quit
        { d with loop := .returned (some task), globalSem := d.globalSem - 1 }
  | wentBack {i : Nat} {r : Runner} (at_ : d.runners[i]? = some r) (stage : r.stage = .executing) :
      Moved limits sort d (.execute i true)
        { d.setStage i r .executed with queue := d.queue.requeue r.task }
  | executed {i : Nat} {r : Runner} (at_ : d.runners[i]? = some r) (stage : r.stage = .executing) :
      Moved limits sort d (.execute i false)
        { d.setStage i r .executed with finished := r.task :: d.finished }
  | freedRepo {i : Nat} {r : Runner} {used : Nat} (at_ : d.runners[i]? = some r)
      (stage : r.stage = .executed) (taken : d.repoSems.lookup r.task.repoID = some used)
      (held : 0 < used) : Moved limits sort d (.freeRepo i)
        { d.setStage i r .repoFreed with repoSems := d.repoSems.insert r.task.repoID (used - 1) }
  | freedGlobal {i : Nat} {r : Runner} (at_ : d.runners[i]? = some r)
      (stage : r.stage = .repoFreed) (held : 0 < d.globalSem) :
      Moved limits sort d (.freeGlobal i)
        { d with runners := d.runners.eraseIdx i, globalSem := d.globalSem - 1 }
  | stopped (open_ : d.stopped = false) : Moved limits sort d .stop { d with stopped := true }

theorem moved_of_next {e : DispatchEvent} (moved : d.next limits sort e = some d') :
    Moved limits sort d e d' := by
  cases e with
  | push task =>
    cases moved
    exact .pushed task
  | addRepository repoID =>
    simp only [next, Option.some.injEq] at moved
    split at moved
    · cases moved
      exact .known ‹_›
    · cases moved
      exact .added ‹_›
  | removeRepository repoID =>
    cases moved
    exact .removed repoID
  | check =>
    simp only [next] at moved
    split at moved
    · cases moved
      by_cases closed : d.stopped = true
      · rw [if_pos closed]
        exact .ended ‹_› closed
      · rw [if_neg closed]
        exact .checked ‹_› (Bool.eq_false_iff.mpr closed)
    · cases moved
  | sleep =>
    simp only [next] at moved
    split at moved
    · cases moved
      exact .slept ‹_› ‹_›
    · cases moved
  | pop =>
    simp only [next] at moved
    split at moved
    · cases moved
      exact .popped ‹_› ‹_›
    · cases moved
  | lookUp =>
    simp only [next] at moved
    split at moved
    · rename_i task at_
      cases moved
      by_cases known : task.repoID ∈ d.repoSems
      · rw [if_pos known]
        exact .found at_ known
      · rw [if_neg known]
        exact .missed at_ known
    · cases moved
  | giveBack =>
    simp only [next] at moved
    split at moved
    · cases moved
      exact .gaveBack ‹_›
    · cases moved
  | acquireGlobal =>
    simp only [next] at moved
    split at moved
    · split at moved
      · cases moved
        exact .gotGlobal ‹_› ‹_›
      · cases moved
    · cases moved
  | acquireRepo =>
    simp only [next] at moved
    split at moved
    · obtain ⟨used, taken, moved⟩ := Option.bind_eq_some_iff.mp moved
      split at moved
      · cases moved
        exact .gotRepo ‹_› taken ‹_›
      · cases moved
    · cases moved
  | quit =>
    simp only [next] at moved
    split at moved
    · split at moved
      · cases moved
        exact .quitGlobal ‹_› ‹_›
      · split at moved
        · cases moved
          exact .quitRepo ‹_› ‹_› ‹_›
        · cases moved
      · cases moved
    · cases moved
  | execute i again =>
    obtain ⟨r, at_, moved⟩ := Option.bind_eq_some_iff.mp moved
    split at moved
    · cases moved
      cases again with
      | true => exact .wentBack at_ ‹_›
      | false => exact .executed at_ ‹_›
    · cases moved
  | freeRepo i =>
    obtain ⟨r, at_, moved⟩ := Option.bind_eq_some_iff.mp moved
    split at moved
    · obtain ⟨used, taken, moved⟩ := Option.bind_eq_some_iff.mp moved
      split at moved
      · cases moved
        exact .freedRepo at_ ‹_› taken ‹_›
      · cases moved
    · cases moved
  | freeGlobal i =>
    obtain ⟨r, at_, moved⟩ := Option.bind_eq_some_iff.mp moved
    split at moved
    · rename_i free
      cases moved
      exact .freedGlobal at_ free.1 free.2
    · cases moved
  | stop =>
    simp only [next] at moved
    split at moved
    · cases moved
    · cases moved
      exact .stopped (Bool.eq_false_iff.mpr ‹_›)

section Runners

variable {runners : List Runner} {i : Nat} {r : Runner}

theorem perm_set (at_ : runners[i]? = some r) (r' : Runner) :
    (runners.set i r').Perm (r' :: runners.eraseIdx i) := by
  obtain ⟨bound, -⟩ := List.getElem?_eq_some_iff.mp at_
  exact List.set_perm_cons_eraseIdx bound r'

theorem countP_set (at_ : runners[i]? = some r) (r' : Runner) (p : Runner → Bool) :
    (runners.set i r').countP p + (if p r then 1 else 0) =
      runners.countP p + (if p r' then 1 else 0) := by
  rw [(perm_set at_ r').countP_eq, (perm_at at_).countP_eq p, List.countP_cons,
    List.countP_cons]
  omega

end Runners

structure Accounted (limits : Limits) (d : Dispatcher) : Prop where
  global : d.globalSem = d.runners.length + d.loop.slots
  within : d.globalSem ≤ limits.globalConcurrency
  repo : ∀ repoID used, d.repoSems.lookup repoID = some used →
    used = d.runners.countP (Runner.holds repoID) ∧ used ≤ limits.repoConcurrency
  known : ∀ r ∈ d.runners, r.task.repoID ∈ d.repoSems
  waits : ∀ task, d.loop = .wantGlobal task ∨ d.loop = .wantRepo task → task.repoID ∈ d.repoSems

theorem accounted_new (limits : Limits) : new.Accounted limits where
  global := rfl
  within := Nat.zero_le _
  repo _ _ found := by cases found
  known _ member := by cases member
  waits _ waiting := by rcases waiting with h | h <;> cases h

section

variable (accounted : d.Accounted limits) {i : Nat} {r : Runner}

include accounted

theorem Accounted.turn (loop : LoopState) (globalSem : Nat) (queue : SyncQueue)
    (slots : globalSem + d.loop.slots = d.globalSem + loop.slots)
    (room : globalSem ≤ limits.globalConcurrency)
    (waits : ∀ task, loop = .wantGlobal task ∨ loop = .wantRepo task → task.repoID ∈ d.repoSems) :
    ({ d with loop := loop, globalSem := globalSem, queue := queue } : Dispatcher).Accounted
      limits where
  global := by
    have held := accounted.global
    simp only
    omega
  within := room
  repo := accounted.repo
  known := accounted.known
  waits := waits

theorem Accounted.added {repoID : String} (fresh : repoID ∉ d.repoSems) :
    ({ d with repoSems := d.repoSems.insert repoID 0 } : Dispatcher).Accounted limits where
  global := accounted.global
  within := accounted.within
  repo other used found := by
    by_cases same : other = repoID
    · subst same
      cases Option.some.inj ((AList.lookup_insert _).symm.trans found)
      refine ⟨(List.countP_eq_zero.mpr ?_).symm, Nat.zero_le _⟩
      intro r member holds
      have own : r.task.repoID = other := by
        simp only [Runner.holds, decide_eq_true_eq] at holds
        exact holds.1
      exact fresh (own ▸ accounted.known r member)
    · rw [AList.lookup_insert_ne same] at found
      exact accounted.repo other used found
  known r member := (AList.mem_insert _).mpr (.inr (accounted.known r member))
  waits task waiting := (AList.mem_insert _).mpr (.inr (accounted.waits task waiting))

theorem Accounted.gotRepo {task : SyncTask} {used : Nat} (at_ : d.loop = .wantRepo task)
    (taken : d.repoSems.lookup task.repoID = some used) (room : used < limits.repoConcurrency) :
    ({ d with
        loop := .top
        repoSems := d.repoSems.insert task.repoID (used + 1)
        runners := d.runners ++ [⟨task, .executing⟩]
        started := d.started + 1 } : Dispatcher).Accounted limits where
  global := by
    have held := accounted.global
    rw [at_] at held
    simpa [LoopState.slots] using held
  within := accounted.within
  repo other count found := by
    rw [List.countP_append, List.countP_singleton]
    by_cases same : other = task.repoID
    · subst same
      cases Option.some.inj ((AList.lookup_insert _).symm.trans found)
      obtain ⟨counted, -⟩ := accounted.repo _ _ taken
      have own : Runner.holds task.repoID ⟨task, .executing⟩ = true := by simp [Runner.holds]
      rw [if_pos own, ← counted]
      exact ⟨rfl, room⟩
    · have other_ : Runner.holds other ⟨task, .executing⟩ = false := by
        simp [Runner.holds, Ne.symm same]
      rw [AList.lookup_insert_ne same] at found
      rw [other_]
      exact accounted.repo other count found
  known r member := by
    apply (AList.mem_insert _).mpr
    rcases List.mem_append.mp member with old | new
    · exact .inr (accounted.known r old)
    · left
      rw [List.mem_singleton.mp new]
  waits _ waiting := by rcases waiting with h | h <;> cases h

theorem Accounted.setStage {stage : Stage} {finished : List SyncTask} {queue : SyncQueue}
    (at_ : d.runners[i]? = some r) (held : r.stage ≠ .repoFreed) (holds : stage ≠ .repoFreed) :
    ({ d.setStage i r stage with finished := finished, queue := queue } : Dispatcher).Accounted
      limits where
  global := by
    rw [Dispatcher.setStage, List.length_set]
    exact accounted.global
  within := accounted.within
  repo repoID used found := by
    have same : Runner.holds repoID ⟨r.task, stage⟩ = Runner.holds repoID r := by
      simp [Runner.holds, held, holds]
    have count := countP_set at_ ⟨r.task, stage⟩ (Runner.holds repoID)
    rw [same] at count
    rw [Dispatcher.setStage, Nat.add_right_cancel count]
    exact accounted.repo repoID used found
  known r' member := by
    rcases List.mem_or_eq_of_mem_set member with old | rfl
    · exact accounted.known r' old
    · exact accounted.known r (List.mem_of_getElem? at_)
  waits := accounted.waits

theorem Accounted.freedRepo {used : Nat} (at_ : d.runners[i]? = some r)
    (stage : r.stage = .executed) (taken : d.repoSems.lookup r.task.repoID = some used) :
    ({ d.setStage i r .repoFreed with
        repoSems := d.repoSems.insert r.task.repoID (used - 1) } : Dispatcher).Accounted limits where
  global := by
    rw [Dispatcher.setStage, List.length_set]
    exact accounted.global
  within := accounted.within
  repo other count found := by
    have freed : Runner.holds other ⟨r.task, .repoFreed⟩ = false := by simp [Runner.holds]
    have counts := countP_set at_ ⟨r.task, .repoFreed⟩ (Runner.holds other)
    rw [freed] at counts
    by_cases same : other = r.task.repoID
    · subst same
      cases Option.some.inj ((AList.lookup_insert _).symm.trans found)
      have own : Runner.holds r.task.repoID r = true := by simp [Runner.holds, stage]
      obtain ⟨counted, room⟩ := accounted.repo _ _ taken
      rw [own, ← counted] at counts
      simp only [Dispatcher.setStage, if_pos, Bool.false_eq_true, if_false] at counts ⊢
      omega
    · rw [AList.lookup_insert_ne same] at found
      have kept : Runner.holds other r = false := by simp [Runner.holds, Ne.symm same]
      rw [kept] at counts
      rw [Dispatcher.setStage, Nat.add_right_cancel counts]
      exact accounted.repo other count found
  known r' member := by
    apply (AList.mem_insert _).mpr
    rcases List.mem_or_eq_of_mem_set member with old | rfl
    · exact .inr (accounted.known r' old)
    · exact .inl rfl
  waits task waiting := (AList.mem_insert _).mpr (.inr (accounted.waits task waiting))

theorem Accounted.freedGlobal (at_ : d.runners[i]? = some r) (stage : r.stage = .repoFreed) :
    ({ d with runners := d.runners.eraseIdx i, globalSem := d.globalSem - 1 } :
      Dispatcher).Accounted limits where
  global := by
    have held := accounted.global
    have whole := (perm_at at_).length_eq
    rw [List.length_cons] at whole
    simp only
    omega
  within := (Nat.sub_le _ _).trans accounted.within
  repo repoID used found := by
    have other : Runner.holds repoID r = false := by simp [Runner.holds, stage]
    have count := (perm_at at_).countP_eq (Runner.holds repoID)
    rw [List.countP_cons_of_neg (by simp [other])] at count
    rw [← count]
    exact accounted.repo repoID used found
  known r' member := accounted.known r' (List.mem_of_mem_eraseIdx member)
  waits := accounted.waits

end

theorem accounted_next {e : DispatchEvent} (accounted : d.Accounted limits)
    (moved : d.next limits sort e = some d') : d'.Accounted limits := by
  have idle : ∀ {loop : LoopState} {task : SyncTask}, loop.slots = 0 →
      (∀ task, loop ≠ .wantGlobal task) → loop = .wantGlobal task ∨ loop = .wantRepo task →
      task.repoID ∈ d.repoSems := by
    intro loop task free other waiting
    rcases waiting with h | h
    · exact absurd h (other task)
    · rw [h] at free
      cases free
  cases moved_of_next moved with
  | pushed | removed | stopped => exact { accounted with }
  | known => exact accounted
  | added fresh => exact accounted.added fresh
  | checked at_ | ended at_ | slept at_ =>
    exact accounted.turn _ _ _ (by rw [at_]; rfl) accounted.within
      (fun _ => idle rfl (fun _ => LoopState.noConfusion))
  | popped at_ | missed at_ | gaveBack at_ =>
    exact accounted.turn _ _ _ (by rw [at_]; rfl) accounted.within
      (fun _ => idle rfl (fun _ => LoopState.noConfusion))
  | found at_ known =>
    refine accounted.turn _ _ _ (by rw [at_]; rfl) accounted.within ?_
    rintro other (h | h)
    · cases h
      exact known
    · cases h
  | gotGlobal at_ room =>
    refine accounted.turn _ _ _ (by rw [at_]; rfl) room ?_
    rintro other (h | h)
    · cases h
    · cases h
      exact accounted.waits _ (.inl at_)
  | gotRepo at_ taken room => exact accounted.gotRepo at_ taken room
  | quitGlobal at_ =>
    exact accounted.turn _ _ _ (by rw [at_]; rfl) accounted.within
      (fun _ => idle rfl (fun _ => LoopState.noConfusion))
  | quitRepo at_ _ held =>
    refine accounted.turn _ _ _ ?_ ((Nat.sub_le _ _).trans accounted.within)
      (fun _ => idle rfl (fun _ => LoopState.noConfusion))
    rw [at_]
    exact Nat.sub_add_cancel held
  | wentBack at_ stage | executed at_ stage =>
    exact accounted.setStage at_ (by rw [stage]; decide) (by decide)
  | freedRepo at_ stage taken => exact accounted.freedRepo at_ stage taken
  | freedGlobal at_ stage => exact accounted.freedGlobal at_ stage

theorem accounted_reach (reached : Reach Initial (Runs (next limits sort)) d) :
    d.Accounted limits := by
  refine reach_invariant (Accounted limits) ?_ ?_ reached
  · rintro d rfl
    exact accounted_new limits
  · intro d e d' accounted moved
    exact accounted_next accounted moved

def pending (d : Dispatcher) : List SyncTask :=
  d.queue.queued ++ (d.loop.inHand ++ d.runners.filterMap Runner.running)

def Conserved (d : Dispatcher) : Prop :=
  d.entered.Perm (d.pending ++ (d.finished ++ d.removed))

/-- How often a task is pending, finished or removed. -/
def count (d : Dispatcher) (t : SyncTask) : Nat :=
  d.queue.queued.count t + d.loop.inHand.count t +
    (d.runners.filterMap Runner.running).count t + d.finished.count t + d.removed.count t

theorem count_eq (d : Dispatcher) (t : SyncTask) :
    d.count t = (d.pending ++ (d.finished ++ d.removed)).count t := by
  simp only [count, pending, List.count_append, Nat.add_assoc]

section

variable {i : Nat} {r : Runner} (at_ : d.runners[i]? = some r)

include at_

theorem running_at (stage : r.stage = .executing) : (d.runners.filterMap Runner.running).Perm
      (r.task :: (d.setStage i r .executed).runners.filterMap Runner.running) := by
  have before := (perm_at at_).filterMap Runner.running
  have after := (perm_set at_ ⟨r.task, .executed⟩).filterMap Runner.running
  rw [List.filterMap_cons_some (b := r.task) (by rw [Runner.running, if_pos stage])] at before
  rw [List.filterMap_cons_none (by rfl)] at after
  exact before.trans (after.symm.cons _)

theorem running_same (stage : r.stage ≠ .executing) : (d.runners.filterMap Runner.running).Perm
      ((d.runners.eraseIdx i).filterMap Runner.running) := by
  have before := (perm_at at_).filterMap Runner.running
  rwa [List.filterMap_cons_none (by rw [Runner.running, if_neg stage])] at before

theorem running_set (stage : r.stage ≠ .executing) : (d.runners.filterMap Runner.running).Perm
      ((d.runners.set i ⟨r.task, .repoFreed⟩).filterMap Runner.running) := by
  have after := (perm_set at_ ⟨r.task, .repoFreed⟩).filterMap Runner.running
  rw [List.filterMap_cons_none (by rfl)] at after
  exact (running_same at_ stage).trans after.symm

end

theorem count_next {e : DispatchEvent} (moved : d.next limits sort e = some d') (t : SyncTask) :
    d'.count t + d.entered.count t = d.count t + d'.entered.count t := by
  unfold count
  cases moved_of_next moved with
  | known | added | stopped => rfl
  | pushed task =>
    cases known : d.queue.holds task with
    | true =>
      rw [if_pos rfl, SyncQueue.push_holds sort known]
    | false =>
      have grown := (SyncQueue.push_fresh sort known).count_eq t
      simp only [Bool.false_eq_true, if_false, List.count_cons] at grown ⊢
      omega
  | removed repoID =>
    have parted := (d.queue.queued_perm repoID).count_eq t
    have rest : (d.queue.removeRepository repoID).queued =
      (d.queue.queues.erase repoID).entries.flatMap (·.2) := rfl
    simp only [rest, List.count_append] at parted ⊢
    omega
  | checked at_ | ended at_ | slept at_ | found at_ | missed at_ | gotGlobal at_
  | quitGlobal at_ | quitRepo at_ =>
    rw [at_]
    rfl
  | popped at_ head =>
    have taken := (SyncQueue.queued_pop head).count_eq t
    simp only [at_, LoopState.inHand, List.count_cons, List.count_nil] at taken ⊢
    omega
  | @gaveBack task at_ =>
    have back := (d.queue.queued_requeue task).count_eq t
    simp only [at_, LoopState.inHand, List.count_cons, List.count_nil] at back ⊢
    omega
  | gotRepo at_ =>
    simp only [at_, LoopState.inHand, List.count_nil, List.filterMap_append, List.count_append,
      Runner.running, List.filterMap_cons, if_true, List.filterMap_nil]
    omega
  | @wentBack i r at_ stage =>
    have back := (d.queue.queued_requeue r.task).count_eq t
    have ended := (running_at at_ stage).count_eq t
    simp only [setStage, List.count_cons] at back ended ⊢
    omega
  | executed at_ stage =>
    have ended := (running_at at_ stage).count_eq t
    simp only [setStage, List.count_cons] at ended ⊢
    omega
  | freedRepo at_ stage =>
    rw [setStage, ← (running_set at_ (by rw [stage]; decide)).count_eq t]
  | freedGlobal at_ stage =>
    rw [← (running_same at_ (by rw [stage]; decide)).count_eq t]

theorem conserved_next {e : DispatchEvent} (conserved : d.Conserved)
    (moved : d.next limits sort e = some d') : d'.Conserved := by
  refine List.perm_iff_count.mpr (fun t => ?_)
  have before := conserved.count_eq t
  have step := count_next moved t
  rw [count_eq, count_eq] at step
  omega

theorem conserved_reach (reached : Reach Initial (Runs (next limits sort)) d) : d.Conserved := by
  refine reach_invariant Conserved ?_ ?_ reached
  · rintro d rfl
    exact List.Perm.refl _
  · intro d e d' conserved moved
    exact conserved_next conserved moved

end Dispatcher

section Results

variable {limits : Limits} {sort : TaskSort} {d : Dispatcher}

/-- Whatever is pushed, added, removed, retried and stopped, and however the goroutines
interleave: never more tasks run than there are slots, for all repositories and for each,
and no slot is lost. -/
theorem dispatch_slots (reached : Reach Dispatcher.Initial (Runs (Dispatcher.next limits sort)) d) :
    d.globalSem = d.runners.length + d.loop.slots ∧
      d.globalSem ≤ limits.globalConcurrency ∧
      ∀ repoID used, d.repoSems.lookup repoID = some used →
        used = d.runners.countP (Runner.holds repoID) ∧ used ≤ limits.repoConcurrency := by
  have accounted := Dispatcher.accounted_reach reached
  exact ⟨accounted.global, accounted.within, accounted.repo⟩

def busyRun : List DispatchEvent :=
  [.addRepository "r", .addRepository "s", .push (sampleTask "r" "f"), .push (sampleTask "r" "g"),
    .push (sampleTask "r" "h"), .check, .pop, .lookUp, .acquireGlobal, .acquireRepo, .check, .pop,
    .lookUp, .acquireGlobal, .acquireRepo, .push (sampleTask "s" "f"), .check, .pop, .lookUp,
    .acquireGlobal]

theorem busyRun_reached (P : Dispatcher → Prop) [DecidablePred P]
    (holds : (replay (Dispatcher.next (.fromEnv "" "") .stable) (fun _ _ => True) .new
      busyRun).any (fun d => decide (P d)) = true) : ∃ d, Reach Dispatcher.Initial
      (Runs (Dispatcher.next (.fromEnv "" "") .stable)) d ∧ P d := by
  obtain ⟨d, reached, holds⟩ := reach_of_replay (Dispatcher.next (.fromEnv "" "") .stable)
    (fun _ _ => True) (.start Dispatcher.new_initial) busyRun P holds
  exact ⟨d, reach_mono (fun _ _ _ step => step.1) reached, holds⟩

theorem dispatch_slots_busyRun : ∃ d : Dispatcher, d.globalSem = 3 ∧ d.runners.length = 2 ∧
    d.globalSem ≤ 16 := by
  obtain ⟨d, reached, three, two⟩ := busyRun_reached
    (fun d => d.globalSem = 3 ∧ d.runners.length = 2) (by decide)
  exact ⟨d, three, two, (dispatch_slots reached).2.1⟩

/-- A task that came into the queue is in one place: queued, held by the loop, executed now,
executed before, or deleted with its repository. -/
theorem dispatch_conserves
    (reached : Reach Dispatcher.Initial (Runs (Dispatcher.next limits sort)) d) :
    d.entered.Perm (d.pending ++ (d.finished ++ d.removed)) :=
  Dispatcher.conserved_reach reached

theorem dispatch_conserves_busyRun : ∃ d : Dispatcher, d.entered.length = 4 ∧
    d.runners.length = 2 ∧ d.entered.Perm (d.pending ++ (d.finished ++ d.removed)) := by
  obtain ⟨d, reached, four, two⟩ := busyRun_reached
    (fun d => d.entered.length = 4 ∧ d.runners.length = 2) (by decide)
  exact ⟨d, four, two, dispatch_conserves reached⟩

end Results

end P2PSync
