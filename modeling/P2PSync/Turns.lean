import Mathlib.Data.List.ReduceOption
import Mathlib.Data.List.Rotate
import P2PSync.Drain
import P2PSync.Library.RoundRobin

/-! Whose turn it is. The list of repositories, read from the next one on, is a line
that is served round-robin; new repositories join it somewhere. -/
namespace P2PSync

namespace SyncQueue

/-- One operation, and the task it returns. Any task may be requeued. -/
def call (s : TaskSort) (q : SyncQueue) : QueueOp → SyncQueue × Option SyncTask
  | .push task => (q.push s task, none)
  | .pop =>
    match q.pop with
    | none => (q, none)
    | some (task, q') => (q', some task)
  | .requeue task => (q.requeue task, none)
  | .removeRepository repoID => (q.removeRepository repoID, none)

def runs (s : TaskSort) : SyncQueue → List QueueOp → SyncQueue
  | q, [] => q
  | q, op :: ops => runs s (q.call s op).1 ops

def returns (s : TaskSort) : SyncQueue → List QueueOp → List SyncTask
  | _, [] => []
  | q, op :: ops => (q.call s op).2.toList ++ returns s (q.call s op).1 ops

def line (q : SyncQueue) : List String := q.repos.rotate q.nextRepo

theorem call_pop {q q' : SyncQueue} {task : SyncTask} (s : TaskSort)
    (popped : q.pop = some (task, q')) : q.call s .pop = (q', some task) := by
  rw [call, popped]

theorem call_pop_none {q : SyncQueue} (s : TaskSort) (empty : q.pop = none) :
    q.call s .pop = (q, none) := by
  rw [call, empty]

section

variable (s : TaskSort) (q : SyncQueue) (ops ops' : List QueueOp)

theorem next_call (popped : List SyncTask) {op : QueueOp}
    (gives : ∀ task, op = .requeue task → task ∈ popped) : QueueRun.next s ⟨q, popped⟩ op =
      some ⟨(q.call s op).1, (q.call s op).2.toList ++ popped⟩ := by
  cases op with
  | push task => rfl
  | requeue task => exact if_pos (gives task rfl)
  | removeRepository repoID => rfl
  | pop =>
    cases found : q.pop with
    | none => simp only [QueueRun.next, found, call_pop_none s found]; rfl
    | some x => simp only [QueueRun.next, found, call_pop s found]; rfl

theorem runs_append : q.runs s (ops ++ ops') = (q.runs s ops).runs s ops' := by
  induction ops generalizing q with
  | nil => rfl
  | cons op ops ih => exact ih _

theorem returns_append :
    q.returns s (ops ++ ops') = q.returns s ops ++ (q.runs s ops).returns s ops' := by
  induction ops generalizing q with
  | nil => rfl
  | cons op ops ih => rw [List.cons_append, returns, ih, returns, runs, List.append_assoc]

theorem push_cases (task : SyncTask) :
    (q.queues.lookup task.repoID = none ∧ q.push s task = { q with
      queues := q.queues.insert task.repoID (s.sortSlice [task])
      repos := q.repos ++ [task.repoID] }) ∨
    (task.repoID ∈ q.queues ∧ (q.tasks task.repoID).all (!duplicate · task) = true ∧
      q.push s task = { q with
        queues := q.queues.insert task.repoID (s.sortSlice (q.tasks task.repoID ++ [task])) }) ∨
    (task.repoID ∈ q.queues ∧ q.push s task = q) := by
  unfold push
  split
  · rename_i missing
    exact Or.inl ⟨missing, rfl⟩
  · rename_i ts found
    have known : task.repoID ∈ q.queues := AList.lookup_isSome.mp (by rw [found]; rfl)
    right
    split
    · exact Or.inr ⟨known, rfl⟩
    · rename_i fresh
      rw [tasks, found]
      exact Or.inl ⟨known, by simpa [List.any_eq_true] using fresh, rfl⟩

end

section Line

section

variable {q : SyncQueue} {front behind : List String} {repoID : String}

theorem repos_round {i : Nat} (inside : i < q.repos.length) :
    q.repos[(q.nextRepo + i) % q.repos.length]? = q.line[i]? := by
  rw [line, List.getElem?_rotate inside, Nat.add_comm]

theorem popAt_idle {i : Nat} (inside : i < q.repos.length) {repoID : String}
    (at_ : q.line[i]? = some repoID) (empty : q.tasks repoID = []) :
    q.popAt ((q.nextRepo + i) % q.repos.length) = none := by
  simp only [popAt, repos_round inside, at_, empty]

theorem popAt_served {i : Nat} (inside : i < q.repos.length) {repoID : String}
    (at_ : q.line[i]? = some repoID) {task : SyncTask} {rest : List SyncTask}
    (first : q.tasks repoID = task :: rest) :
    q.popAt ((q.nextRepo + i) % q.repos.length) = some (task, { q with
      queues := q.queues.insert repoID rest
      nextRepo := ((q.nextRepo + i) % q.repos.length + 1) % q.repos.length }) := by
  simp only [popAt, repos_round inside, at_, first]

theorem length_line (q : SyncQueue) : q.line.length = q.repos.length := List.length_rotate _ _

theorem mem_line : repoID ∈ q.line ↔ repoID ∈ q.repos :=
  List.mem_rotate

theorem rounds_idle (split : q.line = front ++ behind) (all : RoundRobin.Idle q.tasks front) :
    (List.range front.length).findSome?
      (fun i => q.popAt ((q.nextRepo + i) % q.repos.length)) = none := by
  apply List.findSome?_eq_none_iff.mpr
  intro i member
  have low := List.mem_range.mp member
  have inside : i < q.repos.length := by
    rw [← length_line, split, List.length_append]
    omega
  have at_ : q.line[i]? = some front[i] := by
    rw [split, List.getElem?_append_left low, List.getElem?_eq_getElem low]
  exact popAt_idle inside at_ (all _ (List.getElem_mem low))

theorem pop_idle (all : RoundRobin.Idle q.tasks q.line) : q.pop = none := by
  have none_found := rounds_idle (List.append_nil q.line).symm all
  rwa [length_line] at none_found

theorem pop_served {task : SyncTask} {rest : List SyncTask}
    (split : q.line = front ++ repoID :: behind) (all : RoundRobin.Idle q.tasks front)
    (first : q.tasks repoID = task :: rest) :
    ∃ q', q.pop = some (task, q') ∧ q'.tasks = Function.update q.tasks repoID rest ∧
      q'.line = behind ++ front ++ [repoID] ∧ q'.repos = q.repos := by
  have length : q.repos.length = front.length + (behind.length + 1) := by
    rw [← length_line, split, List.length_append, List.length_cons]
  have inside : front.length < q.repos.length := by omega
  have at_ : q.line[front.length]? = some repoID := by
    rw [split, List.getElem?_append_right (Nat.le_refl _), Nat.sub_self, List.getElem?_cons_zero]
  refine ⟨{ q with
    queues := q.queues.insert repoID rest
    nextRepo := ((q.nextRepo + front.length) % q.repos.length + 1) % q.repos.length },
    ?_, ?_, ?_, rfl⟩
  · have rounds : List.range q.repos.length =
        List.range front.length ++ (List.range (behind.length + 1)).map (front.length + ·) := by
      rw [length, List.range_add]
    rw [pop, rounds, List.findSome?_append, rounds_idle split all, Option.none_or,
      List.range_succ_eq_map, List.map_cons, List.findSome?_cons, Nat.add_zero,
      popAt_served inside at_ first]
  · funext other
    by_cases same : other = repoID
    · rw [same, Function.update_self]
      exact tasks_insert_self q repoID rest
    · rw [Function.update_of_ne same]
      exact tasks_insert_other q same rest
  · change q.repos.rotate _ = _
    have turned : (front ++ [repoID] ++ behind).rotate (front ++ [repoID]).length =
        behind ++ (front ++ [repoID]) := List.rotate_append_length_eq _ _
    rw [List.rotate_mod, ← List.rotate_rotate, List.rotate_mod, ← List.rotate_rotate]
    change (q.line.rotate front.length).rotate 1 = _
    rw [List.rotate_rotate, split, List.append_cons, List.append_assoc behind, ← turned,
      List.length_append, List.length_singleton]

theorem pop_turn {q' : SyncQueue} {task : SyncTask} (popped : q.pop = some (task, q')) :
    ∃ turn, RoundRobin.next q.tasks [] q.line = some turn ∧ turn.served = task ∧
      q'.tasks = turn.waiting ∧ q'.line = turn.line ∧ q'.repos = q.repos := by
  rcases RoundRobin.line_cases q.tasks q.line with
    all | ⟨front, repoID, behind, t, rest, split, all, first⟩
  · rw [pop_idle all] at popped
    cases popped
  · obtain ⟨q₁, returned, tasks, line, repos⟩ := pop_served split all first
    rw [returned] at popped
    cases popped
    exact ⟨_, split ▸ RoundRobin.next_served all first, rfl, tasks, line, repos⟩

end

theorem pops_order (n : Nat) (q : SyncQueue) :
    (q.pops n).reduceOption = RoundRobin.order n q.tasks q.line := by
  induction n generalizing q with
  | zero => rfl
  | succ n ih =>
    rcases RoundRobin.line_cases q.tasks q.line with
      all | ⟨front, repoID, behind, t, rest, split, all, first⟩
    · have later := ih q
      rw [RoundRobin.order_idle all] at later ⊢
      rw [pops, pop_idle all, List.reduceOption_cons_of_none, later]
    · obtain ⟨q', returned, tasks, line, -⟩ := pop_served split all first
      rw [pops, returned, List.reduceOption_cons_of_some, ih, split,
        RoundRobin.order_served all first, tasks, line]

theorem load_le_entries (rs : List String) (once : rs.Nodup)
    (queues : AList fun _ : String => List SyncTask) :
    RoundRobin.load (fun r => (queues.lookup r).getD []) rs ≤
      (queues.entries.flatMap (·.2)).length := by
  induction rs generalizing queues with
  | nil => exact Nat.zero_le _
  | cons r rs ih =>
    obtain ⟨fresh, rest⟩ := List.nodup_cons.mp once
    have whole := (queued_perm ⟨queues, [], 0⟩ r).length_eq
    have others : RoundRobin.load (fun r => (queues.lookup r).getD []) rs =
        RoundRobin.load (fun x => ((queues.erase r).lookup x).getD []) rs := by
      apply RoundRobin.load_agree
      intro x member
      have apart : x ≠ r := by
        rintro rfl
        exact fresh member
      rw [AList.lookup_erase_ne apart]
    have bound := ih rest (queues.erase r)
    rw [List.length_append] at whole
    simp only [queued, tasks] at whole
    rw [RoundRobin.load_cons]
    omega

end Line

structure Orderly (q : SyncQueue) : Prop where
  once : q.repos.Nodup
  known : ∀ repoID ∈ q.repos, repoID ∈ q.queues
  cursor : q.nextRepo = 0 ∨ q.nextRepo < q.repos.length
  placed : q.Placed

namespace Orderly

variable {q : SyncQueue}

theorem new : SyncQueue.new.Orderly where
  once := List.nodup_nil
  known := fun _ member => absurd member List.not_mem_nil
  cursor := Or.inl rfl
  placed := fun _ t member => absurd member (by simp)

section

variable (orderly : q.Orderly) (s : TaskSort) (task : SyncTask)

include orderly

theorem line_nodup : q.line.Nodup := List.nodup_rotate.mpr orderly.once

theorem owned : RoundRobin.Owned SyncTask.repoID q.tasks := orderly.placed

theorem load_le : RoundRobin.load q.tasks q.line ≤ q.size := by
  rw [line, RoundRobin.load_perm q.tasks (List.rotate_perm q.repos q.nextRepo), size_eq]
  exact load_le_entries q.repos orderly.once q.queues

theorem insert (repoID : String) (ts : List SyncTask)
    (placed : ({ q with queues := q.queues.insert repoID ts } : SyncQueue).Placed) :
    ({ q with queues := q.queues.insert repoID ts } : SyncQueue).Orderly where
  once := orderly.once
  known := fun r member => (AList.mem_insert _).mpr (Or.inr (orderly.known r member))
  cursor := orderly.cursor
  placed := placed

theorem push : (q.push s task).Orderly := by
  have placed := orderly.placed.push s task
  rcases push_cases s q task with ⟨missing, opened⟩ | ⟨-, -, added⟩ | ⟨-, same⟩
  · have absent : task.repoID ∉ q.repos := fun member =>
      AList.lookup_eq_none.mp missing (orderly.known _ member)
    rw [opened] at placed ⊢
    constructor
    · rw [← List.concat_eq_append]
      exact List.Nodup.concat absent orderly.once
    · intro r member
      apply (AList.mem_insert _).mpr
      rcases List.mem_append.mp member with old | new
      · exact Or.inr (orderly.known r old)
      · exact Or.inl (List.mem_singleton.mp new)
    · refine orderly.cursor.imp id (fun low => ?_)
      simp only [List.length_append]
      omega
    · exact placed
  · rw [added] at placed ⊢
    exact orderly.insert _ _ placed
  · rwa [same]

theorem requeue : (q.requeue task).Orderly :=
  orderly.insert _ _ (orderly.placed.requeue task)

theorem pop {q' : SyncQueue} {task : SyncTask} (popped : q.pop = some (task, q')) : q'.Orderly := by
  have placed := (orderly.placed.pop popped).1
  obtain ⟨i, low, found⟩ := List.exists_of_findSome?_eq_some popped
  have inside : 0 < q.repos.length := by
    have := List.mem_range.mp low
    omega
  unfold popAt at found
  split at found
  · cases found
  · split at found
    · cases found
    · cases found
      exact ⟨orderly.once, fun r member => (AList.mem_insert _).mpr (Or.inr (orderly.known r member)),
        Or.inr (Nat.mod_lt _ inside), placed⟩

theorem removeRepository (repoID : String) : (q.removeRepository repoID).Orderly where
  once := orderly.once.erase _
  known := by
    intro r member
    obtain ⟨apart, old⟩ := orderly.once.mem_erase_iff.mp member
    exact AList.mem_erase.mpr ⟨apart, orderly.known r old⟩
  cursor := by
    have cursor := orderly.cursor
    have shorter := List.length_erase_le (l := q.repos) (a := repoID)
    have almost : q.repos.length ≤ (q.repos.erase repoID).length + 1 := by
      have := List.le_length_erase (l := q.repos) (a := repoID)
      omega
    simp only [SyncQueue.removeRepository]
    split <;> omega
  placed := orderly.placed.removeRepository repoID

theorem call (op : QueueOp) : (q.call s op).1.Orderly := by
  cases op with
  | push task => exact orderly.push s task
  | requeue task => exact orderly.requeue task
  | removeRepository repoID => exact orderly.removeRepository repoID
  | pop =>
    cases popped : q.pop with
    | none =>
      rw [call_pop_none s popped]
      exact orderly
    | some x =>
      rw [call_pop s popped]
      exact orderly.pop popped

theorem runs (ops : List QueueOp) : (q.runs s ops).Orderly := by
  induction ops generalizing q with
  | nil => exact orderly
  | cons op ops ih => exact ih (orderly.call s op)

end

end Orderly

section Fairness

variable {q : SyncQueue}

theorem line_push (orderly : q.Orderly) (s : TaskSort) (task : SyncTask) :
    q.line.Sublist (q.push s task).line := by
  rcases push_cases s q task with ⟨-, opened⟩ | ⟨-, -, added⟩ | ⟨-, same⟩
  · have low : q.nextRepo ≤ q.repos.length := by
      have cursor := orderly.cursor
      omega
    have longer : q.nextRepo ≤ (q.repos ++ [task.repoID]).length := by
      rw [List.length_append]
      omega
    rw [opened, line, line, List.rotate_eq_drop_append_take low,
      List.rotate_eq_drop_append_take longer, List.drop_append_of_le_length low,
      List.take_append_of_le_length low]
    exact (List.sublist_append_left _ _).append (List.Sublist.refl _)
  · rw [added]
    exact List.Sublist.refl _
  · rw [same]

theorem pop_client (orderly : q.Orderly) {q' : SyncQueue} {task : SyncTask}
    (popped : q.pop = some (task, q')) :
    ∃ turn, RoundRobin.next q.tasks [] q.line = some turn ∧ turn.client = task.repoID ∧
      q'.line = turn.line := by
  obtain ⟨turn, taken, served, -, line, -⟩ := pop_turn popped
  have own := (orderly.owned.next taken).2
  exact ⟨turn, taken, by rw [← own, served], line⟩

section

variable (orderly : q.Orderly) (s : TaskSort) {op : QueueOp}
  (keeps : ∀ repoID, op ≠ .removeRepository repoID) {r r' : String}

include orderly keeps

theorem ahead_call (ahead : [r, r'].Sublist q.line) (waiting : q.tasks r ≠ []) :
    (∃ task ∈ (q.call s op).2, task.repoID = r) ∨ [r, r'].Sublist (q.call s op).1.line := by
  cases op with
  | push task => exact Or.inr (ahead.trans (line_push orderly s task))
  | requeue task => exact Or.inr ahead
  | removeRepository repoID => exact absurd rfl (keeps repoID)
  | pop =>
    cases popped : q.pop with
    | none =>
      rw [call_pop_none s popped]
      exact Or.inr ahead
    | some x =>
      obtain ⟨task, q'⟩ := x
      rw [call_pop s popped]
      obtain ⟨turn, taken, client, line⟩ := pop_client orderly popped
      rcases RoundRobin.ahead_next orderly.line_nodup taken ahead waiting with own | ⟨-, still⟩
      · exact Or.inl ⟨task, rfl, client ▸ own⟩
      · exact Or.inr (line ▸ still)

omit keeps in
theorem ahead_runs {ops : List QueueOp}
    (keeps : ∀ op ∈ ops, ∀ repoID, op ≠ .removeRepository repoID) {r r' : String}
    (ahead : [r, r'].Sublist q.line) (waiting : ∀ n, (q.runs s (ops.take n)).tasks r ≠ []) :
    (∃ task ∈ q.returns s ops, task.repoID = r) ∨ [r, r'].Sublist (q.runs s ops).line := by
  induction ops generalizing q with
  | nil => exact Or.inr ahead
  | cons op ops ih =>
    obtain ⟨first, rest⟩ := List.forall_mem_cons.mp keeps
    rcases ahead_call orderly s first ahead (waiting 0) with ⟨task, returned, own⟩ | still
    · left
      refine ⟨task, List.mem_append_left _ ?_, own⟩
      exact Option.mem_toList.mpr returned
    · rcases ih (orderly.call s op) rest still (fun n => waiting (n + 1)) with
        ⟨task, later, own⟩ | whole
      · exact Or.inl ⟨task, List.mem_append_right _ later, own⟩
      · exact Or.inr whole

omit orderly in
theorem queues_call (entry : r ∈ q.queues) : r ∈ (q.call s op).1.queues := by
  cases op with
  | push task =>
    change r ∈ (q.push s task).queues
    rcases push_cases s q task with ⟨-, opened⟩ | ⟨-, -, added⟩ | ⟨-, same⟩
    · rw [opened]
      exact (AList.mem_insert _).mpr (Or.inr entry)
    · rw [added]
      exact (AList.mem_insert _).mpr (Or.inr entry)
    · rwa [same]
  | requeue task => exact (AList.mem_insert _).mpr (Or.inr entry)
  | removeRepository repoID => exact absurd rfl (keeps repoID)
  | pop =>
    cases popped : q.pop with
    | none => rwa [call_pop_none s popped]
    | some x =>
      rw [call_pop s popped]
      obtain ⟨repoID, -, rest, nextRepo, -, new⟩ := pop_some popped
      rw [new]
      exact (AList.mem_insert _).mpr (Or.inr entry)

theorem returned_entry {task : SyncTask} (returned : (q.call s op).2 = some task) :
    task.repoID ∈ (q.call s op).1.queues := by
  apply queues_call s keeps
  cases op with
  | pop =>
    cases popped : q.pop with
    | none =>
      rw [call_pop_none s popped] at returned
      cases returned
    | some x =>
      obtain ⟨t, q'⟩ := x
      rw [call_pop s popped] at returned
      cases returned
      obtain ⟨repoID, inside, rest, nextRepo, waiting, -⟩ := pop_some popped
      rw [orderly.placed repoID task (waiting ▸ List.mem_cons_self)]
      exact orderly.known repoID inside
  | push task => cases returned
  | requeue task => cases returned
  | removeRepository repoID => cases returned

end

def GivesBack (s : TaskSort) (ops : List QueueOp) : Prop :=
  ∀ front task back, ops = front ++ .requeue task :: back → task ∈ new.returns s front

theorem entered_runs (s : TaskSort) {ops : List QueueOp}
    (keeps : ∀ op ∈ ops, ∀ repoID, op ≠ .removeRepository repoID) (gives : GivesBack s ops) :
    (new.runs s ops).Entered ∧
      ∀ task ∈ new.returns s ops, task.repoID ∈ (new.runs s ops).queues := by
  induction ops using List.reverseRecOn with
  | nil => exact ⟨fun r member => absurd member (AList.notMem_empty r), by simp [returns]⟩
  | append_singleton ops op ih =>
    obtain ⟨before, last⟩ := List.forall_mem_append.mp keeps
    have keep := List.forall_mem_singleton.mp last
    have gives' : GivesBack s ops := by
      intro front task back split
      exact gives front task (back ++ [op]) (by rw [split, List.append_assoc, List.cons_append])
    obtain ⟨entered, returned⟩ := ih before gives'
    have orderly := Orderly.new.runs s ops
    rw [runs_append, returns_append]
    have given : ∀ task, op = .requeue task → task ∈ new.returns s ops := by
      rintro task rfl
      exact gives ops task [] rfl
    have moved := next_call s (new.runs s ops) (new.returns s ops) given
    constructor
    · apply entered_next entered moved
      cases op with
      | requeue task => exact decide_eq_true (returned task (given task rfl))
      | _ => rfl
    · intro task member
      rcases List.mem_append.mp member with old | now
      · exact queues_call s keep (returned task old)
      · exact returned_entry orderly s keep (by simpa [returns] using now)

/-- A repository with a task that is not in the list gets no turn and stays out of it:
Requeue does not enter it, and Push finds its queue and does not enter it either. -/
theorem unlisted_call (orderly : q.Orderly) (s : TaskSort) {op : QueueOp}
    (keeps : ∀ repoID, op ≠ .removeRepository repoID) {r : String} (unlisted : r ∉ q.repos)
    (waiting : q.tasks r ≠ []) :
    (∀ task ∈ (q.call s op).2, task.repoID ≠ r) ∧ r ∉ (q.call s op).1.repos := by
  cases op with
  | push task =>
    refine ⟨fun _ none => absurd none (Option.not_mem_none _), ?_⟩
    change r ∉ (q.push s task).repos
    rcases push_cases s q task with ⟨missing, opened⟩ | ⟨-, -, added⟩ | ⟨-, same⟩
    · have apart : r ≠ task.repoID := by
        rintro rfl
        exact waiting (by rw [tasks, missing]; rfl)
      rw [opened]
      simp [unlisted, apart]
    · rw [added]
      exact unlisted
    · rwa [same]
  | requeue task => exact ⟨fun _ none => absurd none (Option.not_mem_none _), unlisted⟩
  | removeRepository repoID => exact absurd rfl (keeps repoID)
  | pop =>
    cases popped : q.pop with
    | none =>
      rw [call_pop_none s popped]
      exact ⟨fun _ none => absurd none (Option.not_mem_none _), unlisted⟩
    | some x =>
      obtain ⟨task, q'⟩ := x
      rw [call_pop s popped]
      obtain ⟨repoID, inside, rest, nextRepo, first, new⟩ := pop_some popped
      refine ⟨?_, by rwa [new]⟩
      intro task' returned own
      cases returned
      rw [orderly.placed repoID task (first ▸ List.mem_cons_self)] at own
      exact unlisted (own ▸ inside)

theorem unlisted_runs (orderly : q.Orderly) (s : TaskSort) {ops : List QueueOp}
    (keeps : ∀ op ∈ ops, ∀ repoID, op ≠ .removeRepository repoID) {r : String}
    (unlisted : r ∉ q.repos) (waiting : ∀ n, (q.runs s (ops.take n)).tasks r ≠ []) :
    ∀ task ∈ q.returns s ops, task.repoID ≠ r := by
  induction ops generalizing q with
  | nil => exact fun _ none => absurd none List.not_mem_nil
  | cons op ops ih =>
    obtain ⟨first, rest⟩ := List.forall_mem_cons.mp keeps
    obtain ⟨other, still⟩ := unlisted_call orderly s first unlisted (waiting 0)
    intro task returned
    rcases List.mem_append.mp returned with now | later
    · exact other task (Option.mem_toList.mp now)
    · exact ih (orderly.call s op) rest still (fun n => waiting (n + 1)) task later

theorem listed_of_givesBack (s : TaskSort) {ops : List QueueOp}
    (keeps : ∀ op ∈ ops, ∀ repoID, op ≠ .removeRepository repoID) (gives : GivesBack s ops)
    {task : SyncTask} {q : SyncQueue} (popped : (new.runs s ops).pop = some (task, q)) {r : String}
    (waiting : q.tasks r ≠ []) : r ∈ q.repos :=
  (entered_runs s keeps gives).1.listed.pop popped r waiting

end Fairness

end SyncQueue

/-- Between two returned tasks of one repository, another one that has a task all the
while has one returned exactly if it is in the list that Pop goes round. -/
theorem round_robin_fair_iff (s : TaskSort) (ops between : List QueueOp)
    (keeps : ∀ op ∈ ops ++ between, ∀ repoID, op ≠ .removeRepository repoID)
    {task task' : SyncTask} {q q' : SyncQueue}
    (first : (SyncQueue.new.runs s ops).pop = some (task, q))
    (second : (q.runs s between).pop = some (task', q')) (same : task'.repoID = task.repoID)
    {r : String} (other : r ≠ task.repoID)
    (waiting : ∀ n, (q.runs s (between.take n)).tasks r ≠ []) :
    (∃ t ∈ q.returns s between, t.repoID = r) ↔ r ∈ q.repos := by
  obtain ⟨-, keepsBetween⟩ := List.forall_mem_append.mp keeps
  have orderly := SyncQueue.Orderly.new.runs s ops
  have orderly' := orderly.pop first
  constructor
  · rintro ⟨t, returned, own⟩
    by_contra unlisted
    exact SyncQueue.unlisted_runs orderly' s keepsBetween unlisted waiting t returned own
  intro listed
  -- after its turn the repository stands behind all others
  obtain ⟨turn, taken, client, line⟩ := SyncQueue.pop_client orderly first
  have ahead : [r, task.repoID].Sublist q.line := by
    obtain ⟨-, -, -, -, -, repos⟩ := SyncQueue.pop_turn first
    have inLine := SyncQueue.mem_line.mpr (repos ▸ listed)
    rw [line, ← client]
    exact RoundRobin.served_last taken inLine (client ▸ other)
  rcases SyncQueue.ahead_runs orderly' s keepsBetween ahead waiting with served | still
  · exact served
  · -- it cannot have its next turn before one that is ahead of it
    obtain ⟨turn', taken', client', -⟩ := SyncQueue.pop_client (orderly'.runs s between) second
    have busy : (q.runs s between).tasks r ≠ [] := by
      have last := waiting between.length
      rwa [List.take_length] at last
    rcases RoundRobin.ahead_next (orderly'.runs s between).line_nodup taken' still busy with
      own | ⟨apart, -⟩
    · rw [client', same] at own
      exact absurd own.symm other
    · rw [client', same] at apart
      exact absurd rfl apart

/-- Where only popped tasks are requeued, that is every other repository with a task. -/
theorem round_robin_fair (s : TaskSort) (ops between : List QueueOp)
    (keeps : ∀ op ∈ ops ++ between, ∀ repoID, op ≠ .removeRepository repoID)
    (gives : SyncQueue.GivesBack s (ops ++ .pop :: between))
    {task task' : SyncTask} {q q' : SyncQueue}
    (first : (SyncQueue.new.runs s ops).pop = some (task, q))
    (second : (q.runs s between).pop = some (task', q')) (same : task'.repoID = task.repoID)
    {r : String} (other : r ≠ task.repoID)
    (waiting : ∀ n, (q.runs s (between.take n)).tasks r ≠ []) :
    ∃ t ∈ q.returns s between, t.repoID = r := by
  have before : SyncQueue.GivesBack s ops := by
    intro front given back split
    exact gives front given (back ++ .pop :: between) (by rw [split, List.append_assoc,
      List.cons_append])
  apply (round_robin_fair_iff s ops between keeps first second same other waiting).mpr
  exact SyncQueue.listed_of_givesBack s (List.forall_mem_append.mp keeps).1 before first (waiting 0)

def pairedRun : List QueueOp :=
  [.push (sampleTask "a" "f"), .push (sampleTask "a" "g"), .push (sampleTask "b" "f"),
    .push (sampleTask "b" "g")]

theorem round_robin_fair_pairedRun :
    ∃ t ∈ (SyncQueue.new.runs .stable (pairedRun ++ [.pop])).returns .stable [.pop],
      t.repoID = "b" := by
  have waiting : ∀ n, ((SyncQueue.new.runs .stable (pairedRun ++ [.pop])).runs .stable
      ([QueueOp.pop].take n)).tasks "b" ≠ [] := by
    intro n
    cases n with
    | zero => decide
    | succ n =>
      rw [List.take_succ_cons, List.take_nil]
      decide
  have gives : SyncQueue.GivesBack .stable (pairedRun ++ .pop :: [.pop]) := by
    intro front task back split
    have member : .requeue task ∈ pairedRun ++ .pop :: [.pop] := by
      rw [split]
      exact List.mem_append_right _ List.mem_cons_self
    simp [pairedRun] at member
  exact round_robin_fair .stable pairedRun [.pop] (by simp [pairedRun]) gives
    (show _ = some (sampleTask "a" "f", _) from rfl) (show _ = some (sampleTask "a" "g", _) from rfl)
    rfl (by decide) waiting

namespace SyncQueue

/-- The removal shows exactly if it passes over a repository: the removed one stands
earlier in the list than the one whose turn it is, that one has a task, and so has
a third. -/
def KeepsTurns (q : SyncQueue) (repoID : String) : Prop :=
  repoID ∈ q.repos → q.repos.idxOf repoID < q.nextRepo →
    ∀ due, q.repos[q.nextRepo]? = some due →
      q.tasks due = [] ∨ ∀ r ∈ q.repos, r ≠ repoID → r ≠ due → q.tasks r = []

section Removal

variable {q : SyncQueue}

theorem tasks_removeRepository (q : SyncQueue) {repoID other : String} (ne : other ≠ repoID) :
    (q.removeRepository repoID).tasks other = q.tasks other := by
  simp only [removeRepository, tasks, AList.lookup_erase_ne ne]

theorem line_removeRepository (orderly : q.Orderly) (repoID : String) :
    (q.removeRepository repoID).line = (q.repos.erase repoID).rotate q.nextRepo := by
  simp only [line, removeRepository]
  split
  · rename_i out
    have almost := List.le_length_erase (l := q.repos) (a := repoID)
    have cursor := orderly.cursor
    have whole : q.nextRepo = (q.repos.erase repoID).length := by omega
    rw [whole, List.rotate_length, List.rotate_zero]
  · rfl

theorem filter_apart {repoID : String} {rs : List String} (apart : repoID ∉ rs) :
    rs.filter (· ≠ repoID) = rs := by
  apply List.filter_eq_self.mpr
  intro r member
  exact decide_eq_true (fun same => apart (same ▸ member))

section

variable (orderly : q.Orderly) {repoID : String}

include orderly

theorem repos_split (inside : repoID ∈ q.repos) :
    ∃ front back, q.repos = front ++ repoID :: back ∧ q.repos.idxOf repoID = front.length ∧
      q.repos.erase repoID = front ++ back ∧ repoID ∉ front ∧ repoID ∉ back := by
  obtain ⟨front, back, split, before⟩ := List.eq_append_cons_of_mem inside
  have once := orderly.once
  rw [split] at once ⊢
  have after : repoID ∉ back := (List.nodup_cons.mp (List.nodup_append.mp once).2.1).1
  refine ⟨front, back, rfl, ?_, ?_, before, after⟩
  · rw [List.idxOf_append_of_notMem before, List.idxOf_cons_self, Nat.add_zero]
  · rw [List.erase_append_right _ before, List.erase_cons_head]

theorem line_leaves (later : repoID ∈ q.repos → q.nextRepo ≤ q.repos.idxOf repoID) :
    (q.removeRepository repoID).line = q.line.filter (· ≠ repoID) := by
  rw [line_removeRepository orderly]
  by_cases inside : repoID ∈ q.repos
  · obtain ⟨front, back, split, index, erased, before, after⟩ := repos_split orderly inside
    have low : q.nextRepo ≤ front.length := index ▸ later inside
    have ahead : repoID ∉ front.drop q.nextRepo := fun member =>
      before (List.drop_subset _ _ member)
    have behind : repoID ∉ front.take q.nextRepo := fun member =>
      before (List.take_subset _ _ member)
    rw [erased, line, split, List.rotate_eq_drop_append_take (by rw [List.length_append]; omega),
      List.rotate_eq_drop_append_take (by rw [List.length_append]; omega),
      List.drop_append_of_le_length low, List.take_append_of_le_length low,
      List.drop_append_of_le_length low, List.take_append_of_le_length low]
    rw [List.filter_append, List.filter_append, List.filter_cons_of_neg (by simp),
      filter_apart ahead, filter_apart after, filter_apart behind]
  · rw [List.erase_of_not_mem inside, line, filter_apart]
    exact fun member => inside (List.mem_rotate.mp member)

/-- One before the cursor shifts the list under it: the repository whose turn it is
goes to the end of the line. -/
theorem line_passes (inside : repoID ∈ q.repos) (earlier : q.repos.idxOf repoID < q.nextRepo) :
    ∃ due rest, q.repos[q.nextRepo]? = some due ∧ q.line.filter (· ≠ repoID) = due :: rest ∧
      (q.removeRepository repoID).line = rest ++ [due] := by
  obtain ⟨front, back, split, index, erased, before, after⟩ := repos_split orderly inside
  have cursor : q.nextRepo < q.repos.length := by
    have range := orderly.cursor
    omega
  obtain ⟨j, place⟩ : ∃ j, q.nextRepo = front.length + 1 + j :=
    Nat.exists_eq_add_of_lt (index ▸ earlier) |>.imp (fun _ h => by omega)
  have short : j < back.length := by
    rw [split, List.length_append, List.length_cons] at cursor
    omega
  -- the list is front, the removed one, middle, the one whose turn it is, last
  obtain ⟨middle, due, last, parts, long⟩ : ∃ middle due last, back = middle ++ due :: last ∧
      middle.length = j :=
    ⟨back.take j, back[j], back.drop (j + 1), by simp, by simp; omega⟩
  have whole : q.repos = (front ++ repoID :: middle) ++ due :: last := by
    rw [split, parts, List.append_assoc, List.cons_append]
  have here : q.nextRepo = (front ++ repoID :: middle).length := by
    rw [place, ← long, List.length_append, List.length_cons]
    omega
  have left : q.repos.erase repoID = (front ++ middle ++ [due]) ++ last := by
    rw [erased, parts, List.append_assoc, List.append_assoc, List.singleton_append]
  have there : q.nextRepo = (front ++ middle ++ [due]).length := by
    rw [here]
    simp only [List.length_append, List.length_cons, List.length_nil]
    omega
  have turned : q.line = (due :: last) ++ (front ++ repoID :: middle) := by
    rw [line, here, whole, List.rotate_append_length_eq]
  refine ⟨due, last ++ (front ++ middle), ?_, ?_, ?_⟩
  · rw [here, whole, List.getElem?_append_right (Nat.le_refl _), Nat.sub_self,
      List.getElem?_cons_zero]
  · rw [parts] at after
    have ahead : repoID ∉ due :: last := fun member => after (List.mem_append_right _ member)
    have between : repoID ∉ middle := fun member => after (List.mem_append_left _ member)
    rw [turned, List.filter_append, filter_apart ahead, List.filter_append, filter_apart before,
      List.filter_cons_of_neg (by simp), filter_apart between, List.cons_append]
  · rw [line_removeRepository orderly, left, there, List.rotate_append_length_eq,
      List.append_assoc last]

theorem pops_removeRepository (repoID : String) (n : Nat) :
    ((q.removeRepository repoID).pops n).reduceOption =
      RoundRobin.order n q.tasks (q.removeRepository repoID).line := by
  rw [pops_order]
  apply RoundRobin.order_agree
  intro r member
  apply tasks_removeRepository
  exact (orderly.once.mem_erase_iff.mp (mem_line.mp member)).1

theorem pops_filter (repoID : String) {n : Nat} (enough : q.size ≤ n) :
    (q.pops n).reduceOption.filter (·.repoID ≠ repoID) =
      RoundRobin.order n q.tasks (q.line.filter (· ≠ repoID)) := by
  have load := orderly.load_le.trans enough
  rw [pops_order]
  exact RoundRobin.order_leave orderly.owned orderly.line_nodup repoID load
    ((RoundRobin.load_filter_le _ _ _).trans load)

end

end Removal

end SyncQueue

/-- The tasks that Pop returns after the removal of a repository are the ones it
returns without it, less that repository's own. -/
theorem removal_keeps_turns_iff (s : TaskSort) (ops : List QueueOp) (repoID : String) :
    (∀ n, (SyncQueue.new.runs s ops).size ≤ n →
      (((SyncQueue.new.runs s ops).removeRepository repoID).pops n).reduceOption =
        ((SyncQueue.new.runs s ops).pops n).reduceOption.filter (·.repoID ≠ repoID)) ↔
      (SyncQueue.new.runs s ops).KeepsTurns repoID := by
  have orderly := SyncQueue.Orderly.new.runs s ops
  generalize SyncQueue.new.runs s ops = q at orderly
  have removed := fun n => SyncQueue.pops_removeRepository orderly repoID n
  have leave := fun n (enough : q.size ≤ n) => SyncQueue.pops_filter orderly repoID enough
  by_cases passes : repoID ∈ q.repos ∧ q.repos.idxOf repoID < q.nextRepo
  · obtain ⟨due, rest, at_, short, line⟩ := SyncQueue.line_passes orderly passes.1 passes.2
    have once : (due :: rest).Nodup := short ▸ orderly.line_nodup.filter _
    have skip := RoundRobin.order_skip_iff orderly.owned once
    have others : RoundRobin.Idle q.tasks rest ↔
        ∀ r ∈ q.repos, r ≠ repoID → r ≠ due → q.tasks r = [] := by
      have who : ∀ r, r ∈ rest ↔ r ∈ q.repos ∧ r ≠ repoID ∧ r ≠ due := by
        intro r
        have member : r ∈ due :: rest ↔ r ∈ q.repos ∧ r ≠ repoID := by
          rw [← short, List.mem_filter, SyncQueue.mem_line, decide_eq_true_iff]
        have out := (List.nodup_cons.mp once).1
        rw [List.mem_cons] at member
        constructor
        · intro inRest
          obtain ⟨listed, apart⟩ := member.mp (Or.inr inRest)
          exact ⟨listed, apart, fun same => out (same ▸ inRest)⟩
        · rintro ⟨listed, apart, other⟩
          exact (member.mpr ⟨listed, apart⟩).resolve_left other
      simp only [RoundRobin.Idle, who, and_imp]
    constructor
    · intro same _ _ due' at_'
      rw [at_] at at_'
      cases at_'
      have equal := same (q.size + 1) (Nat.le_succ _)
      rw [removed, leave _ (Nat.le_succ _), line, short] at equal
      exact ((skip _).mp equal).imp id others.mp
    · intro keeps n enough
      have idle := (keeps passes.1 passes.2 due at_).imp id others.mpr
      rw [removed, leave n enough, line, short]
      cases n with
      | zero => rfl
      | succ n => exact (skip n).mpr idle
  · have later : repoID ∈ q.repos → q.nextRepo ≤ q.repos.idxOf repoID := by
      intro inside
      by_contra low
      exact passes ⟨inside, Nat.lt_of_not_le low⟩
    constructor
    · intro _ inside earlier
      exact absurd ⟨inside, earlier⟩ passes
    · intro _ n enough
      rw [removed, leave n enough, SyncQueue.line_leaves orderly later]

def removalRun : List QueueOp :=
  [.push (sampleTask "a" "f"), .push (sampleTask "b" "f"), .push (sampleTask "c" "f"), .pop]

theorem removal_passes_over : ¬ ∀ n, (SyncQueue.new.runs .stable removalRun).size ≤ n →
      (((SyncQueue.new.runs .stable removalRun).removeRepository "a").pops n).reduceOption =
        ((SyncQueue.new.runs .stable removalRun).pops n).reduceOption.filter (·.repoID ≠ "a") := by
  intro same
  have two := same 2 (by decide)
  have without : ((SyncQueue.new.runs .stable removalRun).pops 2).reduceOption.filter
      (·.repoID ≠ "a") = [sampleTask "b" "f", sampleTask "c" "f"] := by decide
  have removed : (((SyncQueue.new.runs .stable removalRun).removeRepository "a").pops 2).reduceOption
      = [sampleTask "c" "f", sampleTask "b" "f"] := by decide
  rw [without, removed] at two
  exact absurd two (by decide)

end P2PSync
