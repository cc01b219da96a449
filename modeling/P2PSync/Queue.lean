import Mathlib.Data.List.AList
import Mathlib.Data.List.Sort

/-! The round-robin queue of download and upload tasks. -/
namespace P2PSync

inductive TaskType where
  | upload | download
  deriving DecidableEq, Repr

def maxDownloadRetries : Nat := 3

structure SyncTask where
  repoID : String
  filePath : String
  type : TaskType
  hash : String
  size : Int
  /-- Unix milliseconds. -/
  timestamp : Int
  peerID : String
  mode : Nat
  retries : Nat
  deriving DecidableEq, Repr

def SyncTask.priority (t : SyncTask) : Int := t.size

/-- Smaller size first, tie-break by older timestamp. -/
def SyncTask.less (a b : SyncTask) : Bool :=
  if a.priority = b.priority then decide (a.timestamp < b.timestamp)
  else decide (a.priority < b.priority)

/-- The library sort. It is not stable: nothing is promised about tasks that
compare equal, so the order it gives them stays a parameter. -/
structure TaskSort where
  sortSlice : List SyncTask → List SyncTask
  perm : ∀ tasks, (sortSlice tasks).Perm tasks
  sorted : ∀ tasks, (sortSlice tasks).Pairwise (fun a b => b.less a = false)

theorem SyncTask.less_trans {a b c : SyncTask} (ab : b.less a = false) (bc : c.less b = false) :
    c.less a = false := by
  unfold less at *
  split at ab <;> split at bc <;> split <;> simp only [decide_eq_false_iff_not, not_lt] at * <;>
    omega

theorem SyncTask.less_total (a b : SyncTask) : b.less a = false ∨ a.less b = false := by
  unfold less
  split <;> split <;> simp only [decide_eq_false_iff_not, not_lt] at * <;> omega

instance : Std.Total (fun a b : SyncTask => b.less a = false) := ⟨SyncTask.less_total⟩

instance : IsTrans SyncTask (fun a b => b.less a = false) :=
  ⟨fun _ _ _ => SyncTask.less_trans⟩

def TaskSort.stable : TaskSort where
  sortSlice tasks := tasks.insertionSort (fun a b => b.less a = false)
  perm tasks := List.perm_insertionSort _ tasks
  sorted tasks := List.pairwise_insertionSort _ tasks

structure SyncQueue where
  queues : AList fun _ : String => List SyncTask
  repos : List String
  nextRepo : Nat
  deriving DecidableEq

namespace SyncQueue

def new : SyncQueue := ⟨∅, [], 0⟩

def tasks (q : SyncQueue) (repoID : String) : List SyncTask := (q.queues.lookup repoID).getD []

def duplicate (t task : SyncTask) : Bool :=
  t.filePath = task.filePath ∧ t.type = task.type ∧ t.hash = task.hash

def push (s : TaskSort) (q : SyncQueue) (task : SyncTask) : SyncQueue :=
  match q.queues.lookup task.repoID with
  | none =>
    { q with
      queues := q.queues.insert task.repoID (s.sortSlice [task])
      repos := q.repos ++ [task.repoID] }
  | some ts =>
    if ts.any (duplicate · task) then q
    else { q with queues := q.queues.insert task.repoID (s.sortSlice (ts ++ [task])) }

def popAt (q : SyncQueue) (idx : Nat) : Option (SyncTask × SyncQueue) :=
  match q.repos[idx]? with
  | none => none
  | some repoID =>
    match q.tasks repoID with
    | [] => none
    | task :: rest =>
      some (task, { q with
        queues := q.queues.insert repoID rest
        nextRepo := (idx + 1) % q.repos.length })

def pop (q : SyncQueue) : Option (SyncTask × SyncQueue) :=
  (List.range q.repos.length).findSome? (fun i => q.popAt ((q.nextRepo + i) % q.repos.length))

def requeue (q : SyncQueue) (task : SyncTask) : SyncQueue :=
  { q with queues := q.queues.insert task.repoID (task :: q.tasks task.repoID) }

def hasPending (q : SyncQueue) (repoID path hash : String) : Bool :=
  (q.tasks repoID).any
    (fun t => t.filePath = path ∧ t.type = .download ∧ t.hash = hash)

def removeRepository (q : SyncQueue) (repoID : String) : SyncQueue :=
  let repos := q.repos.erase repoID
  { queues := q.queues.erase repoID
    repos := repos
    nextRepo := if 0 < repos.length ∧ repos.length ≤ q.nextRepo then 0 else q.nextRepo }

def size (q : SyncQueue) : Nat := q.queues.entries.foldl (fun total e => total + e.2.length) 0

@[simp] theorem tasks_new (repoID : String) : new.tasks repoID = [] := rfl

theorem tasks_insert_self (q : SyncQueue) (repoID : String) (ts : List SyncTask) :
    ({ q with queues := q.queues.insert repoID ts } : SyncQueue).tasks repoID = ts := by
  simp only [tasks, AList.lookup_insert, Option.getD_some]

section

variable (s : TaskSort) (q : SyncQueue) (task : SyncTask) (repoID : String)

theorem tasks_insert_other {repoID other : String} (ne : other ≠ repoID) (ts : List SyncTask) :
    ({ q with queues := q.queues.insert repoID ts } : SyncQueue).tasks other = q.tasks other := by
  simp only [tasks, AList.lookup_insert_ne ne]

theorem tasks_push : q.tasks repoID ⊆ (q.push s task).tasks repoID ∧
    (∀ t, t ∈ (q.push s task).tasks repoID → t ∈ q.tasks repoID ∨
      t = task ∧ repoID = task.repoID) := by
  by_cases same : repoID = task.repoID
  · subst same
    unfold push
    split
    · rename_i missing
      have empty : q.tasks task.repoID = [] := by simp [tasks, missing]
      have one := fun t => (s.perm [task]).mem_iff (a := t)
      constructor
      · intro t h
        rw [empty] at h
        cases h
      · intro t h
        simp only [tasks, AList.lookup_insert, Option.getD_some] at h
        exact Or.inr ⟨List.mem_singleton.mp ((one t).mp h), rfl⟩
    · rename_i ts found
      have known : q.tasks task.repoID = ts := by simp [tasks, found]
      split
      · exact ⟨fun t h => h, fun t h => Or.inl h⟩
      · have all := fun t => (s.perm (ts ++ [task])).mem_iff (a := t)
        rw [tasks_insert_self, known]
        constructor
        · exact fun t h => (all t).mpr (List.mem_append_left _ h)
        · intro t h
          exact (List.mem_append.mp ((all t).mp h)).imp id
            (fun last => ⟨List.mem_singleton.mp last, rfl⟩)
  · have unchanged : (q.push s task).tasks repoID = q.tasks repoID := by
      unfold push
      split
      · simp only [tasks, AList.lookup_insert_ne same]
      · split
        · rfl
        · exact tasks_insert_other q same _
    rw [unchanged]
    exact ⟨fun t h => h, fun t h => Or.inl h⟩

theorem tasks_requeue : (q.requeue task).tasks repoID =
      if repoID = task.repoID then task :: q.tasks repoID else q.tasks repoID := by
  split
  · rename_i same
    rw [same]
    exact tasks_insert_self q task.repoID _
  · rename_i other
    exact tasks_insert_other q other _

theorem mem_requeue : task ∈ (q.requeue task).tasks task.repoID := by
  rw [tasks_requeue, if_pos rfl]
  exact List.mem_cons_self

theorem subset_requeue : q.tasks repoID ⊆ (q.requeue task).tasks repoID := by
  rw [tasks_requeue]
  split
  · exact List.subset_cons_self _ _
  · exact fun _ => id

def Placed (q : SyncQueue) : Prop := ∀ repoID, ∀ t ∈ q.tasks repoID, t.repoID = repoID

theorem Placed.push {q : SyncQueue} (placed : q.Placed) (s : TaskSort) (task : SyncTask) :
    (q.push s task).Placed := by
  intro repoID t member
  rcases (tasks_push s q task repoID).2 t member with old | ⟨rfl, own⟩
  · exact placed repoID t old
  · exact own.symm

theorem Placed.requeue {q : SyncQueue} (placed : q.Placed) (task : SyncTask) :
    (q.requeue task).Placed := by
  intro repoID t member
  rw [tasks_requeue] at member
  split at member
  · rename_i own
    rcases List.mem_cons.mp member with rfl | old
    · exact own.symm
    · exact placed repoID t old
  · exact placed repoID t member

theorem pop_some {q q' : SyncQueue} {task : SyncTask} (popped : q.pop = some (task, q')) :
    ∃ repoID ∈ q.repos, ∃ rest nextRepo, q.tasks repoID = task :: rest ∧
      q' = { q with queues := q.queues.insert repoID rest, nextRepo := nextRepo } := by
  obtain ⟨i, -, found⟩ := List.exists_of_findSome?_eq_some popped
  unfold popAt at found
  split at found
  · cases found
  · rename_i repoID at_
    split at found
    · cases found
    · rename_i first rest waiting
      cases found
      exact ⟨repoID, List.mem_of_getElem? at_, rest, _, waiting, rfl⟩

theorem pop_none {q : SyncQueue} (empty : q.pop = none) {repoID : String}
    (listed : repoID ∈ q.repos) : q.tasks repoID = [] := by
  obtain ⟨j, inside, here⟩ := List.mem_iff_getElem.mp listed
  -- the round in which the loop looks at index j
  have round : ∃ i < q.repos.length, (q.nextRepo + i) % q.repos.length = j := by
    refine ⟨(j + (q.repos.length - q.nextRepo % q.repos.length)) % q.repos.length,
      Nat.mod_lt _ (by omega), ?_⟩
    have below := Nat.mod_lt q.nextRepo (show 0 < q.repos.length by omega)
    rw [Nat.add_mod_mod, ← Nat.mod_add_mod,
      show q.nextRepo % q.repos.length + (j + (q.repos.length - q.nextRepo % q.repos.length)) =
        j + q.repos.length by omega]
    simp [Nat.mod_eq_of_lt inside]
  obtain ⟨i, low, same⟩ := round
  have looked := List.findSome?_eq_none_iff.mp empty i (List.mem_range.mpr low)
  rw [same] at looked
  simp only [popAt, List.getElem?_eq_getElem inside, here] at looked
  cases waiting : q.tasks repoID with
  | nil => rfl
  | cons task rest => simp [waiting] at looked

theorem tasks_pop {q q' : SyncQueue} {task : SyncTask} (popped : q.pop = some (task, q')) :
    ∃ repoID, q.tasks repoID = task :: q'.tasks repoID ∧
      ∀ other, other ≠ repoID → q'.tasks other = q.tasks other := by
  obtain ⟨repoID, -, rest, nextRepo, waiting, rfl⟩ := pop_some popped
  refine ⟨repoID, ?_, fun other ne => tasks_insert_other q ne rest⟩
  rw [waiting]
  exact congrArg (task :: ·) (tasks_insert_self q repoID rest).symm

theorem Placed.pop {q q' : SyncQueue} {task : SyncTask} (placed : q.Placed)
    (popped : q.pop = some (task, q')) : q'.Placed ∧
      ∀ repoID, ∀ t ∈ q.tasks repoID, t = task ∧ repoID = task.repoID ∨ t ∈ q'.tasks repoID := by
  obtain ⟨r, first, others⟩ := tasks_pop popped
  have own := placed r task (first ▸ List.mem_cons_self)
  constructor
  · intro repoID t member
    by_cases same : repoID = r
    · subst same
      exact placed repoID t (first ▸ List.mem_cons_of_mem _ member)
    · exact placed repoID t (others repoID same ▸ member)
  · intro repoID t member
    by_cases same : repoID = r
    · subst same
      rw [first] at member
      exact (List.mem_cons.mp member).imp (fun eq => ⟨eq, own.symm⟩) id
    · exact Or.inr (others repoID same ▸ member)

theorem push_present : ∃ t ∈ (q.push s task).tasks task.repoID, duplicate t task = true := by
  unfold push
  split
  · have member : task ∈ s.sortSlice [task] := (s.perm [task]).mem_iff.mpr List.mem_cons_self
    refine ⟨task, ?_, by simp [duplicate]⟩
    simpa only [tasks, AList.lookup_insert, Option.getD_some] using member
  · rename_i ts found
    split
    · rename_i dup
      obtain ⟨t, member, same⟩ := List.any_eq_true.mp dup
      exact ⟨t, by simpa [tasks, found] using member, same⟩
    · have member : task ∈ s.sortSlice (ts ++ [task]) :=
        (s.perm (ts ++ [task])).mem_iff.mpr (List.mem_append_right _ List.mem_cons_self)
      exact ⟨task, by rw [tasks_insert_self]; exact member, by simp [duplicate]⟩

theorem push_pending {q : SyncQueue} {task : SyncTask} (type : task.type = .download)
    (waiting : q.hasPending task.repoID task.filePath task.hash = true) : q.push s task = q := by
  unfold hasPending tasks at waiting
  unfold push
  cases found : q.queues.lookup task.repoID with
  | none => simp [found] at waiting
  | some ts =>
    rw [found, Option.getD_some] at waiting
    simp only [duplicate, type, waiting, if_true]

theorem push_added {q : SyncQueue} {task : SyncTask} (type : task.type = .download)
    (absent : q.hasPending task.repoID task.filePath task.hash = false) :
    task ∈ (q.push s task).tasks task.repoID ∧ task ∉ q.tasks task.repoID := by
  have unlike : ∀ t ∈ q.tasks task.repoID, duplicate t task = false := by
    intro t member
    have differs := List.any_eq_false.mp absent t member
    simpa only [duplicate, type, Bool.not_eq_true] using differs
  constructor
  · obtain ⟨t, member, same⟩ := push_present s q task
    rcases (tasks_push s q task task.repoID).2 t member with old | ⟨rfl, -⟩
    · rw [unlike t old] at same
      cases same
    · exact member
  · intro member
    have same := unlike task member
    simp [duplicate] at same

end

end SyncQueue

end P2PSync
