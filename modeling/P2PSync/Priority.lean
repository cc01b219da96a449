import Mathlib.Data.Prod.Lex
import P2PSync.Turns

/-! The order within one repository: small files first, then older ones, and no
task twice. A requeued task goes to the front whatever its size, so this is about
runs without Requeue. -/
namespace P2PSync

def SyncTask.key (t : SyncTask) : Int ×ₗ Int := toLex (t.size, t.timestamp)

theorem SyncTask.less_iff (a b : SyncTask) : a.less b = true ↔ a.key < b.key := by
  rw [key, key, Prod.Lex.toLex_lt_toLex, less, priority, priority]
  by_cases same : a.size = b.size
  · simp [same]
  · simp [same]

theorem SyncTask.less_false_iff (a b : SyncTask) : b.less a = false ↔ a.key ≤ b.key := by
  rw [← not_lt, ← less_iff, Bool.not_eq_true]

namespace SyncQueue

theorem duplicate_comm (a b : SyncTask) : duplicate a b = duplicate b a := by
  simp only [duplicate, eq_comm]

theorem tasks_push_cases (s : TaskSort) (q : SyncQueue) (task : SyncTask) (repoID : String) :
    (q.push s task).tasks repoID = q.tasks repoID ∨
      (q.tasks repoID).all (!duplicate · task) = true ∧
        (q.push s task).tasks repoID = s.sortSlice (q.tasks repoID ++ [task]) := by
  by_cases own : repoID = task.repoID
  · subst own
    rcases push_cases s q task with ⟨missing, opened⟩ | ⟨-, fresh, added⟩ | ⟨-, same⟩
    · have empty : q.tasks task.repoID = [] := by rw [tasks, missing, Option.getD_none]
      right
      rw [opened, empty]
      exact ⟨rfl, by rw [tasks, AList.lookup_insert, Option.getD_some, List.nil_append]⟩
    · right
      rw [added]
      exact ⟨fresh, tasks_insert_self q _ _⟩
    · exact Or.inl (by rw [same])
  · left
    rcases push_cases s q task with ⟨-, opened⟩ | ⟨-, -, added⟩ | ⟨-, same⟩
    · rw [opened, tasks, AList.lookup_insert_ne own, tasks]
    · rw [added]
      exact tasks_insert_other q own _
    · rw [same]

structure Sorted (q : SyncQueue) : Prop where
  ordered : ∀ repoID, (q.tasks repoID).Pairwise (fun a b => a.key ≤ b.key)
  distinct : ∀ repoID, (q.tasks repoID).Pairwise (fun a b => duplicate a b = false)

namespace Sorted

variable {q : SyncQueue}

theorem new : SyncQueue.new.Sorted := ⟨fun _ => List.Pairwise.nil, fun _ => List.Pairwise.nil⟩

section

variable (sorted : q.Sorted) (s : TaskSort)

include sorted

theorem push (task : SyncTask) : (q.push s task).Sorted := by
  constructor
  · intro repoID
    rcases tasks_push_cases s q task repoID with same | ⟨-, added⟩
    · rw [same]
      exact sorted.ordered repoID
    · rw [added]
      exact (s.sorted _).imp (fun h => (SyncTask.less_false_iff _ _).mp h)
  · intro repoID
    rcases tasks_push_cases s q task repoID with same | ⟨fresh, added⟩
    · rw [same]
      exact sorted.distinct repoID
    · have symm : ∀ {a b}, duplicate a b = false → duplicate b a = false := fun h =>
        duplicate_comm _ _ ▸ h
      rw [added, (s.perm _).pairwise_iff symm, List.pairwise_append]
      refine ⟨sorted.distinct repoID, List.pairwise_singleton _ _, ?_⟩
      intro t member t' last
      rw [List.mem_singleton.mp last]
      simpa using List.all_eq_true.mp fresh t member

theorem pop {q' : SyncQueue} {task : SyncTask} (popped : q.pop = some (task, q')) : q'.Sorted := by
  obtain ⟨r, first, others⟩ := tasks_pop popped
  have part : ∀ repoID, (q'.tasks repoID).Sublist (q.tasks repoID) := by
    intro repoID
    by_cases same : repoID = r
    · rw [same, first]
      exact List.sublist_cons_self _ _
    · rw [others repoID same]
  exact ⟨fun r => (sorted.ordered r).sublist (part r), fun r => (sorted.distinct r).sublist (part r)⟩

theorem removeRepository (repoID : String) : (q.removeRepository repoID).Sorted := by
  have part : ∀ r, ((q.removeRepository repoID).tasks r).Sublist (q.tasks r) := by
    intro r
    by_cases same : r = repoID
    · have gone : (q.removeRepository repoID).tasks r = [] := by
        rw [same, tasks, SyncQueue.removeRepository, AList.lookup_erase, Option.getD_none]
      rw [gone]
      exact List.nil_sublist _
    · rw [tasks_removeRepository q same]
  exact ⟨fun r => (sorted.ordered r).sublist (part r), fun r => (sorted.distinct r).sublist (part r)⟩

theorem call {op : QueueOp} (allowed : ∀ task, op ≠ .requeue task) : (q.call s op).1.Sorted := by
  cases op with
  | push task => exact sorted.push s task
  | requeue task => exact absurd rfl (allowed task)
  | removeRepository repoID => exact sorted.removeRepository repoID
  | pop =>
    cases popped : q.pop with
    | none =>
      rw [call_pop_none s popped]
      exact sorted
    | some x =>
      rw [call_pop s popped]
      exact sorted.pop popped

theorem runs {ops : List QueueOp} (allowed : ∀ op ∈ ops, ∀ task, op ≠ .requeue task) :
    (q.runs s ops).Sorted := by
  induction ops generalizing q with
  | nil => exact sorted
  | cons op ops ih =>
    obtain ⟨first, rest⟩ := List.forall_mem_cons.mp allowed
    exact ih (sorted.call s first) rest

end

end Sorted

theorem Entered.runs {q : SyncQueue} (entered : q.Entered) (s : TaskSort) {ops : List QueueOp}
    (allowed : ∀ op ∈ ops, ∀ task, op ≠ .requeue task) : (q.runs s ops).Entered := by
  induction ops generalizing q with
  | nil => exact entered
  | cons op ops ih =>
    obtain ⟨first, rest⟩ := List.forall_mem_cons.mp allowed
    refine ih (entered_next entered (next_call s q [] ?_) ?_) rest
    · exact fun task same => absurd same (first task)
    · cases op with
      | requeue task => exact absurd rfl (first task)
      | _ => rfl

theorem drained_own {q : SyncQueue} (orderly : q.Orderly) (listed : q.Listed) {ts : List SyncTask}
    (drained : q.pops (q.size + 1) = ts.map some ++ [none]) (repoID : String) :
    ts.filter (fun t => t.repoID = repoID) = q.tasks repoID := by
  have whole : ts = RoundRobin.order (q.size + 1) q.tasks q.line := by
    rw [← pops_order, drained, List.reduceOption, List.filterMap_append, List.filterMap_map]
    simp
  by_cases inside : repoID ∈ q.repos
  · rw [whole]
    exact RoundRobin.order_filter_owner orderly.owned orderly.line_nodup (mem_line.mpr inside)
      (orderly.load_le.trans (Nat.le_succ _))
  · have empty : q.tasks repoID = [] := by
      by_contra waiting
      exact inside (listed repoID waiting)
    rw [empty, List.filter_eq_nil_iff]
    intro t member own
    have returned : some t ∈ q.pops (q.size + 1) :=
      drained ▸ List.mem_append_left _ (List.mem_map_of_mem member)
    have known := pops_repos orderly.placed returned
    rw [of_decide_eq_true own] at known
    exact inside known

end SyncQueue

/-- No duplicates wait, Pop returns a smallest task of its repository, and what the
queue returns until it is empty is every waiting task once, each repository's in
order. -/
theorem queue_priority (s : TaskSort) (ops : List QueueOp)
    (allowed : ∀ op ∈ ops, ∀ task, op ≠ .requeue task) :
    (∀ repoID, ((SyncQueue.new.runs s ops).tasks repoID).Pairwise (fun a b =>
      ¬ (a.filePath = b.filePath ∧ a.type = b.type ∧ a.hash = b.hash))) ∧
    (∀ task q', (SyncQueue.new.runs s ops).pop = some (task, q') →
      task ∈ (SyncQueue.new.runs s ops).tasks task.repoID ∧
        ∀ t ∈ (SyncQueue.new.runs s ops).tasks task.repoID, task.key ≤ t.key) ∧
    ∃ ts : List SyncTask,
      (SyncQueue.new.runs s ops).pops ((SyncQueue.new.runs s ops).size + 1) =
        ts.map some ++ [none] ∧
      ts.Perm (SyncQueue.new.runs s ops).queued ∧
      ∀ repoID, ts.filter (fun t => t.repoID = repoID) = (SyncQueue.new.runs s ops).tasks repoID ∧
        ((SyncQueue.new.runs s ops).tasks repoID).Pairwise (fun a b => a.key ≤ b.key) := by
  have sorted := SyncQueue.Sorted.new.runs s allowed
  have orderly := SyncQueue.Orderly.new.runs s ops
  have entered : (SyncQueue.new.runs s ops).Entered :=
    SyncQueue.Entered.runs (fun r member => absurd member (AList.notMem_empty r)) s allowed
  generalize SyncQueue.new.runs s ops = q at *
  refine ⟨?_, ?_, ?_⟩
  · intro repoID
    refine (sorted.distinct repoID).imp (fun differ same => ?_)
    simp [SyncQueue.duplicate, same] at differ
  · intro task q' popped
    obtain ⟨repoID, -, rest, nextRepo, waiting, -⟩ := SyncQueue.pop_some popped
    have own := orderly.placed repoID task (waiting ▸ List.mem_cons_self)
    have least := sorted.ordered repoID
    rw [waiting] at least
    rw [own, waiting]
    refine ⟨List.mem_cons_self, ?_⟩
    intro t member
    rcases List.mem_cons.mp member with rfl | later
    · exact le_refl _
    · exact (List.pairwise_cons.mp least).1 t later
  · obtain ⟨ts, perm, drained⟩ := (SyncQueue.drains_iff orderly.placed).mpr entered.listed
    refine ⟨ts, drained, perm, fun repoID => ⟨?_, sorted.ordered repoID⟩⟩
    exact SyncQueue.drained_own orderly entered.listed drained repoID

def sizedRun : List QueueOp :=
  [.push { sampleTask "r" "big" with size := 9 }, .push (sampleTask "r" "small"),
    .push (sampleTask "r" "small"), .push (sampleTask "s" "f"), .removeRepository "s"]

theorem queue_priority_sizedRun : ∃ ts : List SyncTask,
      (SyncQueue.new.runs .stable sizedRun).pops 3 = ts.map some ++ [none] ∧
      ts.filter (fun t => t.repoID = "r") =
        [sampleTask "r" "small", { sampleTask "r" "big" with size := 9 }] := by
  obtain ⟨-, -, ts, drained, -, own⟩ := queue_priority .stable sizedRun (by simp [sizedRun])
  have two : (SyncQueue.new.runs .stable sizedRun).size = 2 := by decide
  rw [two] at drained
  exact ⟨ts, drained, (own "r").1.trans (by decide)⟩

end P2PSync
