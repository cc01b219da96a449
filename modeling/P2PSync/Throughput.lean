import Mathlib.Algebra.BigOperators.Group.List.Basic
import Mathlib.Tactic.Ring
import P2PSync.Dispatch
import P2PSync.Library.Progress

/-! How far the loop comes. Tasks that do not go back are all executed; but the loop
waits for one task at a time, so a repository that has no slot left holds up every
other. A stopped loop returns within five steps. -/
namespace P2PSync

open Transition

def LoopState.work : LoopState → Nat
  | .top => 1
  | .polling | .returned _ => 0
  | .popped _ => 7
  | .unknown _ => 10
  | .wantGlobal _ => 6
  | .wantRepo _ => 5

def LoopState.left : LoopState → Nat
  | .returned _ => 0
  | .top => 1
  | .unknown _ | .wantRepo _ => 2
  | .wantGlobal _ => 3
  | .popped _ => 4
  | .polling => 5

theorem LoopState.left_le (loop : LoopState) : loop.left ≤ 5 := by
  unfold left
  split <;> decide

def LoopState.starts : LoopState → Nat
  | .polling | .popped _ | .wantGlobal _ | .wantRepo _ => 1
  | .top | .unknown _ | .returned _ => 0

theorem LoopState.starts_le (loop : LoopState) : loop.starts ≤ 1 := by
  unfold starts
  split <;> decide

def Runner.work (r : Runner) : Nat :=
  match r.stage with
  | .executing => 3
  | .executed => 2
  | .repoFreed => 1

def DispatchEvent.works : DispatchEvent → Bool
  | .check | .pop | .lookUp | .giveBack | .acquireGlobal | .acquireRepo => true
  | .execute _ again => !again
  | .freeRepo _ | .freeGlobal _ => true
  | _ => false

def DispatchEvent.ofLoop : DispatchEvent → Bool
  | .check | .sleep | .pop | .lookUp | .giveBack | .acquireGlobal | .acquireRepo | .quit => true
  | _ => false

namespace Dispatcher

variable {limits : Limits} {sort : TaskSort} {d d' : Dispatcher}

structure Orderly (d : Dispatcher) : Prop where
  placed : d.queue.Placed
  returned : ∀ task, d.loop = .returned task → d.stopped = true

theorem orderly_next {e : DispatchEvent} (orderly : d.Orderly)
    (moved : d.next limits sort e = some d') : d'.Orderly := by
  obtain ⟨placed, returned⟩ := orderly
  cases moved_of_next moved with
  | known | added | freedRepo | freedGlobal => exact ⟨placed, returned⟩
  | pushed task => exact ⟨placed.push sort task, returned⟩
  | removed repoID => exact ⟨placed.removeRepository repoID, returned⟩
  | checked | slept | found | missed | gotGlobal | gotRepo =>
    exact ⟨placed, fun _ other => LoopState.noConfusion other⟩
  | ended _ closed | quitGlobal _ closed | quitRepo _ closed => exact ⟨placed, fun _ _ => closed⟩
  | popped _ head => exact ⟨(placed.pop head).1, fun _ other => LoopState.noConfusion other⟩
  | gaveBack => exact ⟨placed.requeue _, fun _ other => LoopState.noConfusion other⟩
  | wentBack => exact ⟨placed.requeue _, returned⟩
  | executed => exact ⟨placed, returned⟩
  | stopped => exact ⟨placed, fun _ _ => rfl⟩

theorem orderly_reach (reached : Reach Initial (Runs (next limits sort)) d) : d.Orderly := by
  refine reach_invariant Orderly ?_ ?_ reached
  · rintro d rfl
    exact ⟨fun _ _ member => absurd member List.not_mem_nil,
      fun _ other => LoopState.noConfusion other⟩
  · intro d e d' orderly moved
    exact orderly_next orderly moved

section Working

/-- The steps that are left before the loop polls an empty queue: a task that waits costs
eight, down to the two slots its goroutine gives back. -/
def work (d : Dispatcher) : Nat :=
  8 * d.queue.queued.length + d.loop.work + (d.runners.map Runner.work).sum

def Serviceable (d : Dispatcher) : Prop :=
  ∀ t ∈ d.pending, t.repoID ∈ d.queue.repos ∧ t.repoID ∈ d.repoSems

def Works (limits : Limits) (sort : TaskSort) : Dispatcher → DispatchEvent → Dispatcher → Prop :=
  Guarded (Runs (next limits sort)) (fun _ e => e.works = true)

theorem work_at {i : Nat} {r : Runner} (at_ : d.runners[i]? = some r) :
    (d.runners.map Runner.work).sum = r.work + ((d.runners.eraseIdx i).map Runner.work).sum := by
  have before := ((perm_at at_).map Runner.work).sum_eq
  rwa [List.map_cons, List.sum_cons] at before

theorem work_set {i : Nat} {r : Runner} (at_ : d.runners[i]? = some r) (r' : Runner) :
    ((d.runners.set i r').map Runner.work).sum =
      r'.work + ((d.runners.eraseIdx i).map Runner.work).sum := by
  have after := ((perm_set at_ r').map Runner.work).sum_eq
  rwa [List.map_cons, List.sum_cons] at after

theorem work_next {e : DispatchEvent} (serviceable : d.Serviceable)
    (moved : Works limits sort d e d') : d'.work < d.work := by
  obtain ⟨moved, works⟩ := moved
  unfold work
  cases moved_of_next moved with
  | pushed | known | added | removed | slept | quitGlobal | quitRepo | wentBack | stopped =>
    cases works
  | checked at_ | ended at_ | found at_ | gotGlobal at_ =>
    simp only [at_, LoopState.work]
    omega
  | popped at_ head =>
    have taken := (SyncQueue.queued_pop head).length_eq
    simp only [at_, LoopState.work, List.length_cons] at taken ⊢
    omega
  | missed at_ unknown =>
    refine absurd (serviceable _ ?_).2 unknown
    simp [pending, at_, LoopState.inHand]
  | @gaveBack task at_ =>
    have back := (d.queue.queued_requeue task).length_eq
    simp only [at_, LoopState.work, List.length_cons] at back ⊢
    omega
  | gotRepo at_ =>
    simp only [at_, LoopState.work, List.map_append, List.sum_append, List.map_cons, List.map_nil,
      List.sum_cons, List.sum_nil, Runner.work]
    omega
  | executed at_ stage | freedRepo at_ stage =>
    rw [setStage, work_set at_, work_at at_]
    simp only [Runner.work, stage]
    omega
  | freedGlobal at_ stage =>
    rw [work_at at_]
    simp only [Runner.work, stage]
    omega

structure Steady (d d' : Dispatcher) : Prop where
  repos : d'.queue.repos = d.queue.repos
  known : ∀ repoID ∈ d.repoSems, repoID ∈ d'.repoSems
  stopped : d'.stopped = d.stopped
  entered : d'.entered = d.entered
  removed : d'.removed = d.removed

theorem Steady.refl (d : Dispatcher) : Steady d d := ⟨rfl, fun _ known => known, rfl, rfl, rfl⟩

theorem steady_works {e : DispatchEvent} (moved : Works limits sort d e d') : Steady d d' := by
  obtain ⟨moved, works⟩ := moved
  cases moved_of_next moved with
  | pushed | known | added | removed | slept | quitGlobal | quitRepo | wentBack | stopped =>
    cases works
  | checked | ended | found | missed | gotGlobal | gaveBack | executed | freedGlobal =>
    exact ⟨rfl, fun _ known => known, rfl, rfl, rfl⟩
  | popped _ head =>
    obtain ⟨_, _, _, _, _, rfl⟩ := SyncQueue.pop_some head
    exact ⟨rfl, fun _ known => known, rfl, rfl, rfl⟩
  | gotRepo | freedRepo =>
    exact ⟨rfl, fun _ known => (AList.mem_insert _).mpr (.inr known), rfl, rfl, rfl⟩

theorem pending_works {e : DispatchEvent} (moved : Works limits sort d e d') :
    d'.pending ⊆ d.pending := by
  intro t member
  have here := List.count_pos_iff.mpr member
  have step := count_next moved.1 t
  have grown : d.finished.count t ≤ d'.finished.count t := by
    cases moved_of_next moved.1 with
    | executed => exact List.count_le_count_cons
    | _ => exact le_refl _
  rw [count_eq, count_eq, (steady_works moved).entered, (steady_works moved).removed] at step
  simp only [List.count_append] at step
  exact List.count_pos_iff.mp (by omega)

theorem Steady.works {d'' : Dispatcher} {e : DispatchEvent} (steady : Steady d d')
    (moved : Works limits sort d' e d'') : Steady d d'' where
  repos := (steady_works moved).repos.trans steady.repos
  known repoID known := (steady_works moved).known repoID (steady.known repoID known)
  stopped := (steady_works moved).stopped.trans steady.stopped
  entered := (steady_works moved).entered.trans steady.entered
  removed := (steady_works moved).removed.trans steady.removed

theorem serviceable_works {e : DispatchEvent} (serviceable : d.Serviceable)
    (moved : Works limits sort d e d') : d'.Serviceable := by
  intro t member
  have steady := steady_works moved
  obtain ⟨listed, known⟩ := serviceable t (pending_works moved member)
  exact ⟨steady.repos ▸ listed, steady.known _ known⟩

theorem Serviceable.listed (serviceable : d.Serviceable) (placed : d.queue.Placed) :
    d.queue.Listed := by
  intro repoID some
  obtain ⟨t, member⟩ := List.exists_mem_of_ne_nil _ some
  have waits : t ∈ d.queue.queued :=
    (d.queue.queued_perm repoID).mem_iff.mpr (List.mem_append_left _ member)
  have listed := (serviceable t (List.mem_append_left _ waits)).1
  rwa [placed repoID t member] at listed

theorem works_of_isSome (e : DispatchEvent) (works : e.works = true)
    (enabled : (d.next limits sort e).isSome) : ∃ e d', Works limits sort d e d' := by
  obtain ⟨d', moved⟩ := Option.isSome_iff_exists.mp enabled
  exact ⟨e, d', moved, works⟩

theorem runner_works (accounted : d.Accounted limits) {r : Runner} (at_ : d.runners[0]? = some r) :
    ∃ e d', Works limits sort d e d' := by
  have member := List.mem_of_getElem? at_
  cases stage : r.stage with
  | executing => exact works_of_isSome (.execute 0 false) rfl (by simp [next, at_, stage])
  | executed =>
    obtain ⟨used, taken⟩ := Option.isSome_iff_exists.mp
      (AList.lookup_isSome.mpr (accounted.known r member))
    have held : 0 < used := by
      rw [(accounted.repo _ _ taken).1]
      exact List.countP_pos_iff.mpr ⟨r, member, by simp [Runner.holds, stage]⟩
    exact works_of_isSome (.freeRepo 0) rfl (by simp [next, at_, stage, taken, held])
  | repoFreed =>
    have held : 0 < d.globalSem := by
      have length := List.length_pos_of_mem member
      have global := accounted.global
      omega
    exact works_of_isSome (.freeGlobal 0) rfl (by simp [next, at_, stage, held])

theorem loop_works (accounted : d.Accounted limits) (idle : d.runners = [])
    (orderly : d.Orderly) (open_ : d.stopped = false)
    (waiting : d.loop ≠ .polling ∨ d.queue.pop ≠ none) : ∃ e d', Works limits sort d e d' := by
  have global := accounted.global
  have room := limits.global_pos
  cases at_ : d.loop with
  | top => exact works_of_isSome .check rfl (by simp [next, at_])
  | polling =>
    obtain ⟨⟨task, queue⟩, head⟩ := Option.ne_none_iff_exists'.mp (waiting.resolve_left (· at_))
    exact works_of_isSome .pop rfl (by simp [next, at_, head])
  | popped task => exact works_of_isSome .lookUp rfl (by simp [next, at_])
  | unknown task => exact works_of_isSome .giveBack rfl (by simp [next, at_])
  | wantGlobal task =>
    have free : d.globalSem < limits.globalConcurrency := by
      rw [global, idle, at_]
      exact room
    exact works_of_isSome .acquireGlobal rfl (by simp [next, at_, free])
  | wantRepo task =>
    obtain ⟨used, taken⟩ := Option.isSome_iff_exists.mp
      (AList.lookup_isSome.mpr (accounted.waits task (.inr at_)))
    have free : used < limits.repoConcurrency := by
      rw [(accounted.repo _ _ taken).1, idle]
      exact limits.repo_pos
    exact works_of_isSome .acquireRepo rfl (by simp [next, at_, taken, free])
  | returned task =>
    have closed := orderly.returned task at_
    rw [open_] at closed
    cases closed

theorem done_of_stuck (accounted : d.Accounted limits) (orderly : d.Orderly)
    (open_ : d.stopped = false) (serviceable : d.Serviceable)
    (stuck : ∀ e d', ¬ Works limits sort d e d') :
    d.runners = [] ∧ d.loop = .polling ∧ d.queue.queued = [] := by
  have idle : d.runners = [] := by
    cases runners : d.runners with
    | nil => rfl
    | cons r rest =>
      have first : d.runners[0]? = some r := by
        rw [runners]
        rfl
      have moves : ∃ e d', Works limits sort d e d' := runner_works accounted first
      obtain ⟨e, d', moved⟩ := moves
      exact absurd moved (stuck e d')
  have polls : d.loop = .polling ∧ d.queue.pop = none := by
    by_contra other
    have moves : ∃ e d', Works limits sort d e d' :=
      loop_works accounted idle orderly open_ (Decidable.not_and_iff_not_or_not.mp other)
    obtain ⟨e, d', moved⟩ := moves
    exact stuck e d' moved
  exact ⟨idle, polls.1, SyncQueue.queued_nil (serviceable.listed orderly.placed) polls.2⟩

end Working

section Blocked

def frees (d : Dispatcher) (repoID : String) : DispatchEvent → Bool
  | .freeRepo i => d.runners[i]?.any (fun r => r.task.repoID = repoID)
  | _ => false

/-- The loop waits for a slot of a repository that has none left, or has returned from
there; nothing was handed out since. -/
structure Blocked (limits : Limits) (task : SyncTask) (started : Nat) (d : Dispatcher) : Prop where
  started : d.started = started
  waits : (d.loop = .wantRepo task ∧
      d.repoSems.lookup task.repoID = some limits.repoConcurrency) ∨
    d.loop = .returned (some task)

theorem Blocked.loop {task : SyncTask} {started : Nat} (blocked : d.Blocked limits task started)
    (P : LoopState → Prop) (wantRepo : ¬ P (.wantRepo task))
    (returned : ¬ P (.returned (some task))) : ¬ P d.loop := by
  rcases blocked.waits with ⟨at_, -⟩ | at_
  · rwa [at_]
  · rwa [at_]

theorem blocked_next {e : DispatchEvent} {task : SyncTask} {started : Nat}
    (blocked : d.Blocked limits task started) (moved : d.next limits sort e = some d')
    (kept : d.frees task.repoID e = false) : d'.Blocked limits task started := by
  have elsewhere := blocked.loop
  cases moved_of_next moved with
  | pushed | known | removed | wentBack | executed | freedGlobal | stopped =>
    exact ⟨blocked.started, blocked.waits⟩
  | @added repoID fresh =>
    refine ⟨blocked.started, blocked.waits.imp_left ?_⟩
    rintro ⟨at_, full⟩
    have other : task.repoID ≠ repoID := by
      rintro rfl
      exact fresh (AList.lookup_isSome.mp (by rw [full]; rfl))
    exact ⟨at_, (AList.lookup_insert_ne other).trans full⟩
  | checked at_ | ended at_ => exact absurd at_ (elsewhere (· = .top) nofun nofun)
  | slept at_ | popped at_ => exact absurd at_ (elsewhere (· = .polling) nofun nofun)
  | @found t at_ | @missed t at_ => exact absurd at_ (elsewhere (· = .popped t) nofun nofun)
  | @gaveBack t at_ => exact absurd at_ (elsewhere (· = .unknown t) nofun nofun)
  | @gotGlobal t at_ | @quitGlobal t at_ =>
    exact absurd at_ (elsewhere (· = .wantGlobal t) nofun nofun)
  | gotRepo at_ taken room =>
    rcases blocked.waits with ⟨waits, full⟩ | returned
    · cases at_.symm.trans waits
      cases Option.some.inj (taken.symm.trans full)
      exact absurd room (lt_irrefl _)
    · cases at_.symm.trans returned
  | quitRepo at_ =>
    rcases blocked.waits with ⟨waits, -⟩ | returned
    · cases at_.symm.trans waits
      exact ⟨blocked.started, .inr rfl⟩
    · cases at_.symm.trans returned
  | @freedRepo i r used at_ =>
    refine ⟨blocked.started, blocked.waits.imp_left ?_⟩
    rintro ⟨waits, full⟩
    have other : task.repoID ≠ r.task.repoID := by
      intro same
      simp [frees, at_, same] at kept
    exact ⟨waits, (AList.lookup_insert_ne other).trans full⟩

end Blocked

section Stopping

variable {e : DispatchEvent} (closed : d.stopped = true) (moved : d.next limits sort e = some d')

include closed moved in
theorem closing_next : (if e.ofLoop then 1 else 0) + d'.loop.left ≤ d.loop.left ∧
    d'.started + d'.loop.starts ≤ d.started + d.loop.starts := by
  cases moved_of_next moved with
  | pushed | known | added | removed | wentBack | executed | freedRepo | freedGlobal | stopped =>
    exact ⟨(Nat.zero_add _).le, le_refl _⟩
  | checked _ open_ =>
    rw [closed] at open_
    cases open_
  | ended at_ | slept at_ | popped at_ | found at_ | missed at_ | gaveBack at_ | gotGlobal at_
  | gotRepo at_ | quitGlobal at_ | quitRepo at_ =>
    simp [at_, LoopState.left, LoopState.starts, DispatchEvent.ofLoop]

include closed moved in
theorem stopped_next : d'.stopped = true := by
  cases moved_of_next moved
  all_goals first | exact closed | rfl

theorem loop_enabled (accounted : d.Accounted limits) (closed : d.stopped = true)
    (inside : ∀ task, d.loop ≠ .returned task) :
    ∃ e : DispatchEvent, e.ofLoop = true ∧ (d.next limits sort e).isSome := by
  cases at_ : d.loop with
  | top => exact ⟨.check, rfl, by simp [next, at_]⟩
  | polling =>
    cases head : d.queue.pop with
    | none => exact ⟨.sleep, rfl, by simp [next, at_, head]⟩
    | some popped => exact ⟨.pop, rfl, by simp [next, at_, head]⟩
  | popped task => exact ⟨.lookUp, rfl, by simp [next, at_]⟩
  | unknown task => exact ⟨.giveBack, rfl, by simp [next, at_]⟩
  | wantGlobal task => exact ⟨.quit, rfl, by simp [next, at_, closed]⟩
  | wantRepo task =>
    have held : 0 < d.globalSem := by
      rw [accounted.global, at_]
      exact Nat.succ_pos _
    exact ⟨.quit, rfl, by simp [next, at_, closed, held]⟩
  | returned task => exact absurd at_ (inside task)

end Stopping

instance : DecidablePred Serviceable := fun d =>
  inferInstanceAs (Decidable (∀ t ∈ d.pending, t.repoID ∈ d.queue.repos ∧ t.repoID ∈ d.repoSems))

end Dispatcher

section Results

variable {limits : Limits} {sort : TaskSort} {d : Dispatcher}

/-- Where every task that is left can be served, the runs in which no task goes back end, and
they end with all tasks executed and every slot free. -/
theorem dispatch_finishes
    (reached : Reach Dispatcher.Initial (Runs (Dispatcher.next limits sort)) d)
    (open_ : d.stopped = false) (serviceable : d.Serviceable) :
    (∃ events d', Path (Dispatcher.Works limits sort) d events d' ∧
      ∀ e d'', ¬ Dispatcher.Works limits sort d' e d'') ∧
    ∀ events d', Path (Dispatcher.Works limits sort) d events d' →
      events.length ≤ d.work ∧
      ((∀ e d'', ¬ Dispatcher.Works limits sort d' e d'') →
        d'.pending = [] ∧ d'.runners = [] ∧ d'.globalSem = 0 ∧
          (∀ repoID used, d'.repoSems.lookup repoID = some used → used = 0) ∧
          d.entered.Perm (d'.finished ++ d.removed)) := by
  have keep : ∀ s e t, s.Serviceable → Dispatcher.Works limits sort s e t → t.Serviceable :=
    fun _ _ _ serviceable moved => Dispatcher.serviceable_works serviceable moved
  have lower : ∀ s e t, s.Serviceable → Dispatcher.Works limits sort s e t → t.work < s.work :=
    fun _ _ _ serviceable moved => Dispatcher.work_next serviceable moved
  refine ⟨Path.exists_stuck keep Dispatcher.work lower serviceable, ?_⟩
  intro events d' path
  refine ⟨path.length_le keep Dispatcher.work lower serviceable, ?_⟩
  intro stuck
  have steady : Dispatcher.Steady d d' :=
    path.invariant (I := Dispatcher.Steady d) (fun _ _ _ => Dispatcher.Steady.works)
      (Dispatcher.Steady.refl d)
  have reached' := (path.weaken (fun _ _ _ moved => moved.1)).reach reached
  have accounted := Dispatcher.accounted_reach reached'
  obtain ⟨idle, polls, empty⟩ := Dispatcher.done_of_stuck accounted
    (Dispatcher.orderly_reach reached') (steady.stopped.trans open_)
    (path.invariant keep serviceable) stuck
  have none_left : d'.pending = [] := by
    rw [Dispatcher.pending, empty, polls, idle]
    rfl
  have conserved := Dispatcher.conserved_reach reached'
  rw [Dispatcher.Conserved, none_left, steady.entered, steady.removed] at conserved
  refine ⟨none_left, idle, ?_, ?_, conserved⟩
  · rw [accounted.global, idle, polls]
    rfl
  · intro repoID used found
    rw [(accounted.repo repoID used found).1, idle]
    rfl

theorem dispatch_finishes_busyRun : ∃ d d' : Dispatcher, d.pending.length = 4 ∧
    d.runners.length = 2 ∧ d'.runners = [] ∧ d.entered.Perm (d'.finished ++ d.removed) := by
  obtain ⟨d, reached, four, two, open_, serviceable⟩ := busyRun_reached
    (fun d => d.pending.length = 4 ∧ d.runners.length = 2 ∧ d.stopped = false ∧ d.Serviceable)
    (by decide)
  obtain ⟨⟨events, d', path, stuck⟩, all⟩ := dispatch_finishes reached open_ serviceable
  obtain ⟨-, idle, -, -, done⟩ := (all events d' path).2 stuck
  exact ⟨d, d', four, two, idle, done⟩

/-- While the loop waits for a slot of a repository that has none left, nothing is started,
for whatever repository, until a slot of that one is given back. -/
theorem full_repository_holds_loop {task : SyncTask} (at_ : d.loop = .wantRepo task)
    (full : d.repoSems.lookup task.repoID = some limits.repoConcurrency) :
    ∀ events d', Path (Guarded (Runs (Dispatcher.next limits sort))
        (fun d e => d.frees task.repoID e = false)) d events d' →
      d'.started = d.started ∧ (d'.loop = .wantRepo task ∨ d'.loop = .returned (some task)) := by
  intro events d' path
  have blocked : d'.Blocked limits task d.started := by
    refine path.invariant ?_ ⟨rfl, .inl ⟨at_, full⟩⟩
    intro s e t blocked moved
    exact Dispatcher.blocked_next blocked moved.1 moved.2
  exact ⟨blocked.started, blocked.waits.imp_left And.left⟩

theorem full_repository_holds_loop_busyRun : ∃ d : Dispatcher, d.globalSem = 3 ∧
    d.queue.tasks "s" = [sampleTask "s" "f"] ∧ d.repoSems.lookup "s" = some 0 ∧
    ∀ events d', Path (Guarded
        (Runs (Dispatcher.next (.fromEnv "" "") .stable))
        (fun d e => d.frees "r" e = false)) d events d' → d'.started = d.started := by
  obtain ⟨d, -, three, other, free, at_, full⟩ := busyRun_reached
    (fun d => d.globalSem = 3 ∧ d.queue.tasks "s" = [sampleTask "s" "f"] ∧
      d.repoSems.lookup "s" = some 0 ∧ d.loop = .wantRepo (sampleTask "r" "h") ∧
      d.repoSems.lookup "r" = some (Limits.fromEnv "" "").repoConcurrency) (by decide)
  refine ⟨d, three, other, free, fun events d' path => ?_⟩
  exact (full_repository_holds_loop at_ full events d' path).1

/-- However long the program runs after Stop: the loop takes at most five more steps and
hands out at most one more task, and until it has returned it can always take its next step,
so that Stop does not wait for it for ever. -/
theorem stopped_loop_returns
    (reached : Reach Dispatcher.Initial (Runs (Dispatcher.next limits sort)) d)
    (closed : d.stopped = true) :
    ∀ events d', Path (Runs (Dispatcher.next limits sort)) d events d' →
      events.countP DispatchEvent.ofLoop ≤ 5 ∧ d'.started ≤ d.started + 1 ∧
      ((∃ task, d'.loop = .returned task) ∨
        ∃ e : DispatchEvent, e.ofLoop = true ∧ (d'.next limits sort e).isSome) := by
  intro events d' path
  have keep : ∀ s e t, s.stopped = true → Runs (Dispatcher.next limits sort) s e t →
      t.stopped = true := fun _ _ _ closed moved => Dispatcher.stopped_next closed moved
  have steps := path.countP_le keep DispatchEvent.ofLoop (fun s => s.loop.left)
    (fun _ _ _ closed moved => (Dispatcher.closing_next closed moved).1) closed
  have handed : d'.stopped = true ∧ d'.started + d'.loop.starts ≤ d.started + d.loop.starts := by
    refine path.invariant (I := fun s => s.stopped = true ∧
      s.started + s.loop.starts ≤ d.started + d.loop.starts) ?_ ⟨closed, le_refl _⟩
    rintro s e t ⟨closed, handed⟩ moved
    exact ⟨keep s e t closed moved, (Dispatcher.closing_next closed moved).2.trans handed⟩
  refine ⟨?_, ?_, ?_⟩
  · have most := d.loop.left_le
    omega
  · have most := d.loop.starts_le
    omega
  · by_cases inside : ∃ task, d'.loop = .returned task
    · exact .inl inside
    · push Not at inside
      exact .inr (Dispatcher.loop_enabled (Dispatcher.accounted_reach (path.reach reached))
        handed.1 inside)

theorem stopped_loop_returns_busyRun : ∃ d : Dispatcher, d.loop = .wantRepo (sampleTask "r" "h") ∧
    ∃ e : DispatchEvent, e.ofLoop = true ∧ (d.next (.fromEnv "" "") .stable e).isSome := by
  obtain ⟨d, reached, at_, open_⟩ := busyRun_reached
    (fun d => d.loop = .wantRepo (sampleTask "r" "h") ∧ d.stopped = false) (by decide)
  have moved : Runs (Dispatcher.next (.fromEnv "" "") .stable) d .stop
      { d with stopped := true } := by simp [Runs, Dispatcher.next, open_]
  obtain ⟨-, -, returned | enabled⟩ := stopped_loop_returns (.next reached moved) rfl [] _ (.nil _)
  · obtain ⟨task, returned⟩ := returned
    cases at_.symm.trans returned
  · exact ⟨{ d with stopped := true }, at_, enabled⟩

end Results

end P2PSync
