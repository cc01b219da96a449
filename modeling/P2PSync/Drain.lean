import P2PSync.Library.Transition
import P2PSync.Queue

/-! Whole runs of the queue: what is waiting in it can be popped. -/
namespace P2PSync

open Transition

inductive QueueOp where
  | push (task : SyncTask)
  | pop
  | requeue (task : SyncTask)
  | removeRepository (repoID : String)

structure QueueRun where
  queue : SyncQueue
  popped : List SyncTask

def QueueRun.start : QueueRun := ⟨.new, []⟩

def QueueRun.next (s : TaskSort) (r : QueueRun) : QueueOp → Option QueueRun
  | .push task => some ⟨r.queue.push s task, r.popped⟩
  | .pop =>
    match r.queue.pop with
    | none => some r
    | some (task, queue) => some ⟨queue, task :: r.popped⟩
  | .requeue task => if task ∈ r.popped then some ⟨r.queue.requeue task, r.popped⟩ else none
  | .removeRepository repoID => some ⟨r.queue.removeRepository repoID, r.popped⟩

namespace SyncQueue

def queued (q : SyncQueue) : List SyncTask := q.queues.entries.flatMap (·.2)

def pops : Nat → SyncQueue → List (Option SyncTask)
  | 0, _ => []
  | n + 1, q =>
    match q.pop with
    | none => none :: pops n q
    | some (task, q') => some task :: pops n q'

def Drains (q : SyncQueue) : Prop :=
  ∃ ts : List SyncTask, ts.Perm q.queued ∧ q.pops (q.size + 1) = ts.map some ++ [none]

def Listed (q : SyncQueue) : Prop := ∀ repoID, q.tasks repoID ≠ [] → repoID ∈ q.repos

theorem size_eq (q : SyncQueue) : q.size = q.queued.length := by
  have sum : ∀ (es : List (Sigma fun _ : String => List SyncTask)) (n : Nat),
      es.foldl (fun total e => total + e.2.length) n = n + (es.flatMap (·.2)).length := by
    intro es
    induction es with
    | nil => simp
    | cons e es ih =>
      intro n
      simp only [List.foldl_cons, ih, List.flatMap_cons, List.length_append]
      omega
  have whole := sum q.queues.entries 0
  rwa [Nat.zero_add] at whole

theorem entries_perm {V : Type} {table : AList fun _ : String => V} {key : String} {value : V}
    (found : table.lookup key = some value) :
    table.entries.Perm (⟨key, value⟩ :: (table.erase key).entries) := by
  obtain ⟨other, front, back, fresh, split, rest⟩ :=
    List.exists_of_kerase (AList.mem_keys.mp (AList.lookup_isSome.mp (by rw [found]; rfl)))
  have here : other = value := by
    have entry : table.lookup key = some other := AList.mem_lookup_iff.mpr (by simp [split])
    exact Option.some.inj (entry.symm.trans found)
  have erased : (table.erase key).entries = front ++ back := rest
  rw [split, erased, here]
  exact List.perm_middle

theorem queued_perm (q : SyncQueue) (repoID : String) :
    q.queued.Perm (q.tasks repoID ++ (q.queues.erase repoID).entries.flatMap (·.2)) := by
  cases found : q.queues.lookup repoID with
  | some ts =>
    rw [tasks, found]
    exact (entries_perm found).flatMap_right (fun e => e.2)
  | none =>
    have same : (q.queues.erase repoID).entries = q.queues.entries :=
      List.kerase_of_notMem_keys (AList.lookup_eq_none.mp found)
    rw [tasks, found, same]
    exact List.Perm.refl _

theorem queued_insert (q : SyncQueue) (repoID : String) (ts : List SyncTask) (nextRepo : Nat) :
    ({ q with queues := q.queues.insert repoID ts, nextRepo := nextRepo } : SyncQueue).queued =
      ts ++ (q.queues.erase repoID).entries.flatMap (·.2) :=
  List.flatMap_cons

section

variable {q q' : SyncQueue} {task : SyncTask}

theorem queued_pop (popped : q.pop = some (task, q')) : q.queued.Perm (task :: q'.queued) := by
  obtain ⟨repoID, -, rest, nextRepo, waiting, rfl⟩ := pop_some popped
  rw [queued_insert]
  have all := q.queued_perm repoID
  rwa [waiting] at all

theorem queued_requeue (q : SyncQueue) (task : SyncTask) :
    (q.requeue task).queued.Perm (task :: q.queued) := by
  have whole : (q.requeue task).queued = _ := q.queued_insert task.repoID _ q.nextRepo
  rw [whole]
  exact (q.queued_perm task.repoID).symm.cons task

theorem queued_push (s : TaskSort) (q : SyncQueue) (task : SyncTask) :
    q.push s task = q ∨ (q.push s task).queued.Perm (task :: q.queued) := by
  have all := q.queued_perm task.repoID
  unfold push
  split
  · rename_i missing
    right
    have empty : q.tasks task.repoID = [] := by rw [tasks, missing, Option.getD_none]
    rw [empty] at all
    exact (List.Perm.append_right _ (s.perm [task])).trans (all.symm.cons task)
  · rename_i ts found
    have known : q.tasks task.repoID = ts := by rw [tasks, found, Option.getD_some]
    rw [known] at all
    split
    · exact Or.inl rfl
    · right
      have sorted := (s.perm (ts ++ [task])).trans List.perm_append_comm
      have whole := q.queued_insert task.repoID (s.sortSlice (ts ++ [task])) q.nextRepo
      rw [whole]
      exact (List.Perm.append_right _ sorted).trans (all.symm.cons task)

theorem Listed.pop (listed : q.Listed) (popped : q.pop = some (task, q')) : q'.Listed := by
  obtain ⟨repoID, -, rest, nextRepo, waiting, rfl⟩ := pop_some popped
  intro other some
  by_cases same : other = repoID
  · apply listed other
    rw [same, waiting]
    exact List.cons_ne_nil _ _
  · apply listed other
    rwa [← tasks_insert_other q same rest]

theorem queued_nil (listed : q.Listed) (empty : q.pop = none) : q.queued = [] := by
  apply List.flatMap_eq_nil_iff.mpr
  rintro ⟨repoID, ts⟩ entry
  have found : q.tasks repoID = ts := by
    rw [tasks, AList.mem_lookup_iff.mpr entry, Option.getD_some]
  by_contra waiting
  rw [← found] at waiting
  exact waiting (pop_none empty (listed repoID waiting))

theorem pops_listed (listed : q.Listed) (n : Nat) (length : q.queued.length = n) :
    ∃ ts : List SyncTask, ts.Perm q.queued ∧ q.pops (n + 1) = ts.map some ++ [none] := by
  induction n generalizing q with
  | zero =>
    have none_waits : q.queued = [] := List.length_eq_zero_iff.mp length
    refine ⟨[], none_waits ▸ List.Perm.refl _, ?_⟩
    cases popped : q.pop with
    | none => simp [pops, popped]
    | some x =>
      have taken := (queued_pop popped).length_eq
      simp [none_waits] at taken
  | succ n ih =>
    cases popped : q.pop with
    | none =>
      rw [queued_nil listed popped] at length
      cases length
    | some x =>
      obtain ⟨task, q'⟩ := x
      have taken := queued_pop popped
      have shorter : q'.queued.length = n := by
        have lengths := taken.length_eq
        simp only [List.length_cons] at lengths
        omega
      obtain ⟨ts, perm, rest⟩ := ih (listed.pop popped) shorter
      refine ⟨task :: ts, (perm.cons task).trans taken.symm, ?_⟩
      rw [pops, popped]
      simp [rest]

theorem pops_repos (placed : q.Placed) {n : Nat} {task : SyncTask}
    (returned : some task ∈ q.pops n) : task.repoID ∈ q.repos := by
  induction n generalizing q with
  | zero => cases returned
  | succ n ih =>
    rw [pops] at returned
    split at returned
    · rename_i empty
      rcases List.mem_cons.mp returned with eq | later
      · cases eq
      · exact ih placed later
    · rename_i first q' popped
      obtain ⟨repoID, inside, rest, nextRepo, waiting, new⟩ := pop_some popped
      rcases List.mem_cons.mp returned with eq | later
      · cases eq
        have own := placed repoID task (waiting ▸ List.mem_cons_self)
        rwa [own]
      · have listed := ih (placed.pop popped).1 later
        rwa [new] at listed

theorem drains_iff (placed : q.Placed) : q.Drains ↔ q.Listed := by
  constructor
  · rintro ⟨ts, perm, returned⟩ repoID waiting
    obtain ⟨task, member⟩ := List.exists_mem_of_ne_nil _ waiting
    have queued : task ∈ q.queued :=
      (q.queued_perm repoID).mem_iff.mpr (List.mem_append_left _ member)
    have popped : some task ∈ q.pops (q.size + 1) := by
      rw [returned]
      exact List.mem_append_left _ (List.mem_map_of_mem (perm.mem_iff.mpr queued))
    have inside := pops_repos placed popped
    rwa [placed repoID task member] at inside
  · intro listed
    rw [Drains, size_eq]
    exact pops_listed listed _ rfl

def Entered (q : SyncQueue) : Prop := ∀ repoID ∈ q.queues, repoID ∈ q.repos

theorem Entered.listed (entered : q.Entered) : q.Listed := by
  intro repoID waiting
  apply entered
  by_contra missing
  apply waiting
  rw [tasks, AList.lookup_eq_none.mpr missing, Option.getD_none]

theorem Entered.insert (entered : q.Entered) {repoID : String} (known : repoID ∈ q.repos)
    (ts : List SyncTask) (nextRepo : Nat) :
    ({ q with queues := q.queues.insert repoID ts, nextRepo := nextRepo } : SyncQueue).Entered := by
  intro other member
  rcases (AList.mem_insert _).mp member with rfl | old
  · exact known
  · exact entered other old

theorem Entered.push (entered : q.Entered) (s : TaskSort) (task : SyncTask) :
    (q.push s task).Entered := by
  unfold SyncQueue.push
  split
  · intro other member
    rcases (AList.mem_insert _).mp member with rfl | old
    · exact List.mem_append_right _ List.mem_cons_self
    · exact List.mem_append_left _ (entered other old)
  · rename_i ts found
    have known : task.repoID ∈ q.queues := AList.lookup_isSome.mp (by rw [found]; rfl)
    split
    · exact entered
    · exact entered.insert (entered _ known) _ _

theorem Entered.removeRepository (entered : q.Entered) (repoID : String) :
    (q.removeRepository repoID).Entered := by
  intro other member
  obtain ⟨ne, old⟩ := AList.mem_erase.mp member
  exact (List.mem_erase_of_ne ne).mpr (entered other old)

theorem Placed.removeRepository (placed : q.Placed) (repoID : String) :
    (q.removeRepository repoID).Placed := by
  intro other t member
  by_cases same : other = repoID
  · subst same
    simp [SyncQueue.removeRepository, tasks] at member
  · apply placed other
    simpa [SyncQueue.removeRepository, tasks, AList.lookup_erase_ne same] using member

end

end SyncQueue

def requeuesEntered (r : QueueRun) : QueueOp → Bool
  | .requeue task => task.repoID ∈ r.queue.queues
  | _ => true

theorem placed_next {s : TaskSort} {r r' : QueueRun} {op : QueueOp} (placed : r.queue.Placed)
    (moved : r.next s op = some r') : r'.queue.Placed := by
  cases op with
  | push task =>
    cases moved
    exact placed.push s task
  | pop =>
    simp only [QueueRun.next] at moved
    split at moved
    · cases moved
      exact placed
    · rename_i popped
      cases moved
      exact (placed.pop popped).1
  | requeue task =>
    simp only [QueueRun.next, Option.ite_none_right_eq_some, Option.some.injEq] at moved
    obtain ⟨-, rfl⟩ := moved
    exact placed.requeue task
  | removeRepository repoID =>
    cases moved
    exact placed.removeRepository repoID

theorem entered_next {s : TaskSort} {r r' : QueueRun} {op : QueueOp} (entered : r.queue.Entered)
    (moved : r.next s op = some r') (allowed : requeuesEntered r op = true) : r'.queue.Entered := by
  cases op with
  | push task =>
    cases moved
    exact entered.push s task
  | pop =>
    simp only [QueueRun.next] at moved
    split at moved
    · cases moved
      exact entered
    · rename_i popped
      cases moved
      obtain ⟨repoID, inside, rest, nextRepo, -, rfl⟩ := SyncQueue.pop_some popped
      exact entered.insert inside rest nextRepo
  | requeue task =>
    simp only [QueueRun.next, Option.ite_none_right_eq_some, Option.some.injEq] at moved
    obtain ⟨-, rfl⟩ := moved
    exact entered.insert (entered _ (of_decide_eq_true allowed)) _ _
  | removeRepository repoID =>
    cases moved
    exact entered.removeRepository repoID

/-- Whatever is pushed, popped, requeued and removed, the queue strands no task
as long as no task is requeued after the removal of its repository. -/
theorem queue_drains (s : TaskSort) {r : QueueRun} (reached : Reach (QueueRun.start = ·)
      (Guarded (Runs (QueueRun.next s))
        (fun r op => requeuesEntered r op = true)) r) : r.queue.Drains := by
  have invariant : r.queue.Placed ∧ r.queue.Entered := by
    refine reach_invariant (fun r => r.queue.Placed ∧ r.queue.Entered) ?_ ?_ reached
    · rintro r rfl
      exact ⟨fun _ t member => absurd member (by simp [QueueRun.start]),
        fun repoID member => absurd member (AList.notMem_empty repoID)⟩
    · rintro r op r' ⟨placed, entered⟩ ⟨moved, allowed⟩
      exact ⟨placed_next placed moved, entered_next entered moved allowed⟩
  exact (SyncQueue.drains_iff invariant.1).mpr invariant.2.listed

def sampleTask (repoID path : String) :
    SyncTask := ⟨repoID, path, .download, "h", 1, 0, "b", 420, 0⟩

def readdedRun : List QueueOp :=
  [.push (sampleTask "r" "f"), .push (sampleTask "s" "f"), .pop, .removeRepository "r",
    .push (sampleTask "r" "g"), .requeue (sampleTask "r" "f")]

theorem queue_drains_readdedRun : ∃ r : QueueRun, r.queue.size = 3 ∧ r.queue.Drains := by
  obtain ⟨r, reached, three⟩ := reach_of_replay (QueueRun.next .stable)
    (fun r op => requeuesEntered r op = true) (.start (rfl : QueueRun.start = _)) readdedRun
    (fun r => r.queue.size = 3) (by decide)
  exact ⟨r, three, queue_drains .stable reached⟩

def lateRequeue : List QueueOp :=
  [.push (sampleTask "r" "f"), .pop, .removeRepository "r", .requeue (sampleTask "r" "f"),
    .push (sampleTask "r" "g")]

theorem late_requeue_strands : ∃ r, Reach (QueueRun.start = ·)
      (Guarded (Runs (QueueRun.next .stable)) (fun _ _ => True)) r ∧
      ¬ r.queue.Drains := by
  obtain ⟨r, reached, size, stuck⟩ := reach_of_replay (QueueRun.next .stable)
    (fun _ _ => True) (.start (rfl : QueueRun.start = _)) lateRequeue
    (fun r => r.queue.size = 2 ∧ r.queue.pops 3 = [none, none, none]) (by decide)
  refine ⟨r, reached, ?_⟩
  rintro ⟨ts, perm, returned⟩
  have two : ts.length = 2 := by
    rw [perm.length_eq, ← SyncQueue.size_eq, size]
  rw [size, stuck] at returned
  match ts, two with
  | [first, second], _ => cases returned

end P2PSync
