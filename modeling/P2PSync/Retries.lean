import P2PSync.Authority

/-! Attempts to fetch a file. A download that cannot be started is tried again by a
timer, three times; the fourth failure gives the row up. The failures are kept beside
the machine, under the text that the requests are filed under. -/
namespace P2PSync

open Transition

/-- The attempt that an event ends in vain: a response without content finds its request,
and no connection to the transfer port is made. -/
def Host.failure (h : Host) : HostEvent → Option (String × Nat)
  | .message _ peerID (.fileResponse payload) env =>
    let key := pendingKey (clean payload.path) payload.hash
    (h.sc.pendingDownloads.lookup key).bind fun details =>
      if payload.validate = none ∧ payload.error = "" ∧ peerID ∈ h.sc.connections ∧
          payload.contentBase64 = "" ∧ streamRefused (clean payload.path) = false ∧
          env.dialed = false then some (key, details.retries)
      else none
  | _ => none

structure RetryLog where
  host : Host
  failures : List (String × Nat)

namespace RetryLog

def next (rt : Runtime) (l : RetryLog) (e : HostEvent) : Option RetryLog :=
  (l.host.next rt e).map (fun host => ⟨host, (l.host.failure e).toList ++ l.failures⟩)

def Initial (l : RetryLog) : Prop := l.host.Initial ∧ l.failures = []

end RetryLog

def SyncTask.requestKey (t : SyncTask) : String := pendingKey t.filePath t.hash

def Host.tasks (h : Host) : List SyncTask := h.sc.queue.queued ++ (h.running ++ h.timers)

section Origin

variable {rt : Runtime} {h after : Host} {e : HostEvent} {t : SyncTask}

/-- Where a task comes from: it was there, it is the first of an update, or it follows an
attempt that has just failed. -/
inductive Origin (h : Host) (e : HostEvent) (t : SyncTask) : Prop where
  | kept (old : SyncTask) : old ∈ h.tasks → old.requestKey = t.requestKey →
      old.retries = t.retries → Origin h e t
  | first : t.retries = 0 → Origin h e t
  | again (details : PendingDownload) :
      h.sc.pendingDownloads.lookup t.requestKey = some details → details.retries < maxDownloadRetries →
      t.retries = details.retries + 1 → h.failure e = some (t.requestKey, details.retries) → Origin h e t

theorem Origin.same (member : t ∈ h.tasks) : Origin h e t := .kept t member rfl rfl

theorem mem_tasks : t ∈ h.tasks ↔ t ∈ h.sc.queue.queued ∨ t ∈ h.running ∨ t ∈ h.timers := by
  rw [Host.tasks, List.mem_append, List.mem_append]

theorem mem_push {s : TaskSort} {q : SyncQueue} {task : SyncTask}
    (member : t ∈ (q.push s task).queued) : t = task ∨ t ∈ q.queued := by
  rcases q.queued_push s task with same | grown
  · rw [same] at member
    exact .inr member
  · exact List.mem_cons.mp (grown.mem_iff.mp member)

theorem origin_tame (base : Host) (out : List Output) (same : after = base.performAll out)
    (quiet : tame out) (running : base.running = h.running) (timers : base.timers = h.timers)
    (queue : ∀ t ∈ base.sc.queue.queued, t ∈ h.sc.queue.queued ∨ t.retries = 0)
    (member : t ∈ after.tasks) : Origin h e t := by
  subst same
  obtain ⟨running', timers', -⟩ := base.performAll_rest out
  rw [mem_tasks, Host.performAll_sc, running', timers', quiet.timers, List.append_nil, running,
    timers] at member
  rcases member with queued | other
  · rcases queue t queued with old | new
    · exact .same (mem_tasks.mpr (.inl old))
    · exact .first new
  · exact .same (mem_tasks.mpr (.inr other))

theorem origin_response {now : Int} {peerID : String} {payload : FileResponsePayload} {env : Env}
    (moved : h.next rt (.message now peerID (.fileResponse payload) env) = some after)
    (member : t ∈ after.tasks) : Origin h (.message now peerID (.fileResponse payload) env) t := by
  by_cases consumed : ∃ details, Consumes h.sc peerID payload details
  · obtain ⟨details, consumed⟩ := consumed
    by_cases inline : payload.contentBase64 = ""
    · rw [Host.next_stream now env consumed inline] at moved
      cases moved
      split_ifs at member with refused dialed again
      · exact .same member
      · exact .same member
      · -- the timer's task is the only new one
        have parts := mem_tasks.mp member
        simp only [Host.matched, Host.answered, SyncCoordinator.taken, List.mem_append,
          List.mem_singleton] at parts
        rcases parts with queued | running | timer | rfl
        · exact .same (mem_tasks.mpr (.inl queued))
        · exact .same (mem_tasks.mpr (.inr (.inl running)))
        · exact .same (mem_tasks.mpr (.inr (.inr timer)))
        · refine .again details consumed.2.2.2 again rfl ?_
          obtain ⟨valid, noError, connected, found⟩ := consumed
          simp only [Host.failure, found, Option.bind_some, valid, noError, connected, inline,
            Bool.eq_false_iff.mpr refused, Bool.eq_false_iff.mpr dialed, and_self, if_true]
          rfl
      · exact .same member
    · rw [Host.next_inline now env consumed inline] at moved
      cases moved
      split at member
      · exact .same member
      · split at member
        · exact .same member
        · rw [mem_tasks, Host.perform_sc, (Host.perform_rest _ _).1,
            (Host.perform_rest _ _).2.1] at member
          simp only [Output.timers, List.append_nil] at member
          exact .same (mem_tasks.mpr member)
  · rw [Host.next_ignored now env (fun details c => consumed ⟨details, c⟩)] at moved
    cases moved
    exact .same member

theorem origin_execute {i : Nat} {sent : Bool} (moved : h.next rt (.execute i sent) = some after)
    (member : t ∈ after.tasks) : Origin h (.execute i sent) t := by
  obtain ⟨task, at_, rfl⟩ := Option.map_eq_some_iff.mp moved
  have left : t ∈ h.running.eraseIdx i → Origin h (.execute i sent) t := fun rest =>
    .same (mem_tasks.mpr (.inr (.inl (List.mem_of_mem_eraseIdx rest))))
  have timer : t ∈ h.timers → Origin h (.execute i sent) t := fun timer =>
    .same (mem_tasks.mpr (.inr (.inr timer)))
  have queue : t ∈ h.sc.queue.queued → Origin h (.execute i sent) t := fun queued =>
    .same (mem_tasks.mpr (.inl queued))
  rcases executeSyncTask_cases h.sc sent task with done | ⟨pending, -, back⟩ | request
  · rw [done] at member
    rcases mem_tasks.mp member with queued | running | timers
    · exact queue queued
    · exact left running
    · exact timer timers
  · rw [back] at member
    rcases mem_tasks.mp member with queued | running | timers
    · rcases List.mem_cons.mp ((h.sc.queue.queued_requeue task).mem_iff.mp queued) with rfl | old
      · exact .same (mem_tasks.mpr (.inr (.inl (List.mem_of_getElem? at_))))
      · exact queue old
    · exact left running
    · exact timer timers
  · rw [request] at member
    rcases mem_tasks.mp member with queued | running | timers
    · exact queue queued
    · exact left running
    · exact timer timers

theorem origin_queueRound (moved : h.next rt .queueRound = some after) (member : t ∈ after.tasks) :
    Origin h .queueRound t := by
  rw [Host.next_queueRound moved, mem_tasks] at member
  refine .same (mem_tasks.mpr ?_)
  unfold queueRound at member
  split at member
  · simpa using member
  · rename_i task queue popped
    have taken : ∀ {x}, x ∈ task :: queue.queued → x ∈ h.sc.queue.queued :=
      fun inside => (SyncQueue.queued_pop popped).mem_iff.mpr inside
    split at member
    · rcases member with queued | running | timer
      · exact .inl (taken (List.mem_cons_of_mem _ queued))
      · rcases List.mem_append.mp running with old | new
        · exact .inr (.inl old)
        · cases List.mem_singleton.mp new
          exact .inl (taken List.mem_cons_self)
      · exact .inr (.inr timer)
    · rcases member with queued | running | timer
      · exact .inl (taken ((queue.queued_requeue task).mem_iff.mp queued))
      · exact .inr (.inl (by simpa using running))
      · exact .inr (.inr timer)

theorem origin_retry {i : Nat} {now : Int} (moved : h.next rt (.retry i now) = some after)
    (member : t ∈ after.tasks) : Origin h (.retry i now) t := by
  obtain ⟨task, at_, rfl⟩ := Option.map_eq_some_iff.mp moved
  rcases mem_tasks.mp member with queued | running | timer
  · rcases mem_push queued with rfl | old
    · exact .kept task (mem_tasks.mpr (.inr (.inr (List.mem_of_getElem? at_)))) rfl rfl
    · exact .same (mem_tasks.mpr (.inl old))
  · exact .same (mem_tasks.mpr (.inr (.inl running)))
  · exact .same (mem_tasks.mpr (.inr (.inr (List.mem_of_mem_eraseIdx timer))))

theorem origin_fileChanged {now : Int} {repoID : String} {payload : FileChangedPayload}
    {content : Option Content}
    (moved : h.next rt (.fileChanged now repoID payload content) = some after)
    (member : t ∈ after.tasks) : Origin h (.fileChanged now repoID payload content) t := by
  simp only [Host.next] at moved
  split at moved
  · obtain ⟨-, -, running, timers, -⟩ :=
      h.edit_frame repoID (relativePath h.sc repoID payload.path) content
    refine origin_tame _ _ (Option.some.inj moved).symm (tame_local h.sc now repoID payload) running
      timers ?_ member
    intro t queued
    rw [(local_queue h.sc now repoID payload).1] at queued
    exact .inl queued
  · cases moved

theorem origin_update {now : Int} {peerID repoID : String} {u : Update} {env : Env}
    (moved : h.next rt (.message now peerID (.fileMetadataUpdate repoID u) env) = some after)
    (member : t ∈ after.tasks) :
    Origin h (.message now peerID (.fileMetadataUpdate repoID u) env) t := by
  refine origin_tame _ _ (Option.some.inj moved).symm
    (tame_update h.sc now env.missing peerID repoID u) rfl rfl ?_ member
  intro t queued
  have grown : (handlePeerMetadataUpdate rt h.sc now env.missing peerID repoID u).1.queue =
      h.sc.queue ∨ _ := (peer_queue rt h.sc now env.missing peerID repoID u).2
  simp only [handleP2PMessage] at queued
  rcases grown with same | pushed
  · rw [same] at queued
    exact .inl queued
  · rw [pushed] at queued
    rcases mem_push queued with rfl | old
    · exact .inr rfl
    · exact .inl old

theorem origin_request {now : Int} {peerID : String} {payload : FileRequestPayload} {env : Env}
    (moved : h.next rt (.message now peerID (.fileRequest payload) env) = some after)
    (member : t ∈ after.tasks) : Origin h (.message now peerID (.fileRequest payload) env) t := by
  refine origin_tame _ _ (Option.some.inj moved).symm (tame_request h.sc env peerID payload) rfl rfl
    ?_ member
  intro t queued
  simp only [handleP2PMessage, (handleFileRequest_spec h.sc env peerID payload).1] at queued
  exact .inl queued

theorem origin_resolve {repoID path resolution peerID : String} {removed : Bool}
    (moved : h.next rt (.resolve repoID path resolution peerID removed) = some after)
    (member : t ∈ after.tasks) : Origin h (.resolve repoID path resolution peerID removed) t := by
  refine origin_tame _ _ (Option.some.inj moved).symm ?_ rfl rfl ?_ member
  · exact fun o out => tame_resolution h.sc repoID path resolution peerID o (List.mem_of_mem_filter out)
  · intro t queued
    obtain ⟨db, eq, -⟩ := resolution_touches h.sc repoID path resolution peerID
    rw [eq] at queued
    exact .inl queued

theorem origin_next (moved : h.next rt e = some after) (member : t ∈ after.tasks) :
    Origin h e t := by
  cases e with
  | fileChanged => exact origin_fileChanged moved member
  | message now peerID msg env =>
    cases msg with
    | fileMetadataUpdate => exact origin_update moved member
    | fileRequest => exact origin_request moved member
    | fileResponse => exact origin_response moved member
  | queueRound => exact origin_queueRound moved member
  | execute => exact origin_execute moved member
  | retry => exact origin_retry moved member
  | resolve => exact origin_resolve moved member
  | daemon i env =>
    obtain ⟨x, -, rfl⟩ := Option.map_eq_some_iff.mp moved
    obtain ⟨sc, -, running, timers, -⟩ := Host.applyEffect_frame
      { h with inbox := h.inbox.eraseIdx i } (handleIpcMessage rt x.1 env x.2).2
    rw [mem_tasks, sc, running, timers] at member
    exact .same (mem_tasks.mpr member)
  | connect peerID =>
    exact origin_tame _ _ (Option.some.inj moved).symm (tame_connect _ peerID) rfl rfl
      (fun _ queued => .inl queued) member
  | disconnect =>
    cases moved
    exact .same member

theorem pending_origin (moved : h.next rt e = some after) {key : String} {details : PendingDownload}
    (found : after.sc.pendingDownloads.lookup key = some details) :
    h.sc.pendingDownloads.lookup key = some details ∨
      ∃ task ∈ h.running, task.requestKey = key ∧ task.retries = details.retries := by
  by_cases response : ∃ now peerID payload env, e = .message now peerID (.fileResponse payload) env
  · obtain ⟨now, peerID, payload, env, rfl⟩ := response
    exact .inl (pending_response moved found).1
  · by_cases execute : ∃ i sent, e = .execute i sent
    · obtain ⟨i, sent, rfl⟩ := execute
      exact (pending_execute moved found).imp_right fun ⟨task, runs, own, _, retries, _⟩ =>
        ⟨task, runs, own, retries⟩
    · have same := pending_same moved ⟨fun i sent is => execute ⟨i, sent, is⟩,
        fun now peerID payload env is => response ⟨now, peerID, payload, env, is⟩⟩
      rw [same] at found
      exact .inl found

end Origin

def Tried (failures : List (String × Nat)) (key : String) (retries : Nat) : Prop :=
  retries ≤ maxDownloadRetries ∧ ∀ k < retries, (key, k) ∈ failures

theorem Tried.append {failures : List (String × Nat)} {key : String} {retries : Nat}
    (tried : Tried failures key retries) (new : List (String × Nat)) :
    Tried (new ++ failures) key retries :=
  ⟨tried.1, fun k less => List.mem_append_right new (tried.2 k less)⟩

theorem Tried.succ {failures : List (String × Nat)} {key : String} {retries : Nat}
    (tried : Tried failures key retries) (more : retries < maxDownloadRetries) :
    Tried ((key, retries) :: failures) key (retries + 1) := by
  refine ⟨more, fun k less => ?_⟩
  rcases Nat.lt_succ_iff_lt_or_eq.mp less with before | rfl
  · exact List.mem_cons_of_mem _ (tried.2 k before)
  · exact List.mem_cons_self

namespace RetryLog

structure Numbered (l : RetryLog) : Prop where
  task : ∀ t ∈ l.host.tasks, Tried l.failures t.requestKey t.retries
  pending : ∀ key details, l.host.sc.pendingDownloads.lookup key = some details →
    Tried l.failures key details.retries

theorem numbered_initial {l : RetryLog} (initial : l.Initial) : l.Numbered := by
  obtain ⟨⟨⟨running, timers, -⟩, ⟨queue, pending⟩, -⟩, -⟩ := initial
  refine ⟨fun t member => ?_, fun key details found => ?_⟩
  · rw [Host.tasks, queue, running, timers] at member
    cases member
  · rw [pending] at found
    cases found

theorem numbered_next {rt : Runtime} {l after : RetryLog} {e : HostEvent} (numbered : l.Numbered)
    (moved : l.next rt e = some after) : after.Numbered := by
  obtain ⟨host, step, rfl⟩ := Option.map_eq_some_iff.mp moved
  refine ⟨fun t member => ?_, fun key details found => ?_⟩
  · cases origin_next step member with
    | kept old there key retries =>
      have tried := numbered.task old there
      rw [key, retries] at tried
      exact tried.append _
    | first none =>
      rw [none]
      exact ⟨Nat.zero_le _, fun k less => absurd less (Nat.not_lt_zero k)⟩
    | again details found more number failed =>
      rw [failed, number]
      exact (numbered.pending _ details found).succ more
  · rcases pending_origin step found with old | ⟨task, running, rfl, retries⟩
    · exact (numbered.pending key details old).append _
    · rw [← retries]
      exact (numbered.task task (mem_tasks.mpr (.inr (.inl running)))).append _

theorem numbered_reach {rt : Runtime} {l : RetryLog}
    (reached : Reach Initial (Runs (next rt)) l) : l.Numbered := by
  refine reach_invariant Numbered (fun _ => numbered_initial) ?_ reached
  intro l e after numbered moved
  exact numbered_next numbered moved

end RetryLog

theorem save_keeps {db : DB} {now : Int} {m : FileMetadata} {repoID path : String}
    (gone : ((db.save now m).getD db).get repoID path = none) : db.get repoID path = none := by
  cases saved : db.save now m with
  | none =>
    rw [saved] at gone
    exact gone
  | some db' =>
    rw [saved, Option.getD_some] at gone
    by_cases own : (repoID, path) = (m.repositoryID, m.filepath)
    · cases own
      rw [DB.get_save_self saved] at gone
      cases gone
    · rwa [DB.get_save_other saved own] at gone

theorem row_given_up {rt : Runtime} {h after : Host} {now : Int} {peerID : String}
    {payload : FileResponsePayload} {env : Env}
    (moved : h.next rt (.message now peerID (.fileResponse payload) env) = some after)
    {repoID path : String} (there : h.sc.db.get repoID path ≠ none)
    (gone : after.sc.db.get repoID path = none) : path = clean payload.path ∧ ∃ details,
      h.sc.pendingDownloads.lookup (pendingKey path payload.hash) = some details ∧
      details.repoID = repoID ∧ maxDownloadRetries ≤ details.retries ∧
      h.failure (.message now peerID (.fileResponse payload) env) =
        some (pendingKey path payload.hash, details.retries) := by
  by_cases consumed : ∃ details, Consumes h.sc peerID payload details
  · obtain ⟨details, consumed⟩ := consumed
    by_cases inline : payload.contentBase64 = ""
    · rw [Host.next_stream now env consumed inline] at moved
      cases moved
      split_ifs at gone with refused dialed again
      · exact absurd gone there
      · exact absurd gone there
      · exact absurd gone there
      · have own : repoID = details.repoID ∧ path = clean payload.path := by
          by_contra other
          have kept : (h.sc.db.hardDelete details.repoID (clean payload.path)).get repoID path =
              h.sc.db.get repoID path := by
            apply DB.get_hardDelete_other
            simpa using other
          exact there (kept.symm.trans gone)
        obtain ⟨rfl, rfl⟩ := own
        refine ⟨rfl, details, consumed.2.2.2, rfl, not_lt.mp again, ?_⟩
        obtain ⟨valid, noError, connected, found⟩ := consumed
        simp only [Host.failure, found, Option.bind_some, valid, noError, connected, inline,
          Bool.eq_false_iff.mpr refused, Bool.eq_false_iff.mpr dialed, and_self, if_true]
    · rw [Host.next_inline now env consumed inline] at moved
      cases moved
      split at gone
      · exact absurd gone there
      · split at gone
        · exact absurd (save_keeps gone) there
        · rw [Host.perform_sc] at gone
          exact absurd gone there
  · rw [Host.next_ignored now env (fun details c => consumed ⟨details, c⟩)] at moved
    cases moved
    exact absurd gone there

/-- A task or a request with a number has failed under its path and hash as often, and a row
is given up by a response only where the fourth attempt under the hash of the response
fails by it, whatever hash the row has by then. -/
theorem row_given_up_after_four_failures {rt : Runtime} {l : RetryLog}
    (reached : Reach RetryLog.Initial (Runs (RetryLog.next rt)) l) :
    ((∀ t ∈ l.host.tasks, Tried l.failures t.requestKey t.retries) ∧
      ∀ key details, l.host.sc.pendingDownloads.lookup key = some details →
        Tried l.failures key details.retries) ∧
    ∀ now peerID payload env after repoID path,
      l.next rt (.message now peerID (.fileResponse payload) env) = some after →
      l.host.sc.db.get repoID path ≠ none → after.host.sc.db.get repoID path = none →
      path = clean payload.path ∧
        (∀ k < 3, (pendingKey path payload.hash, k) ∈ l.failures) ∧
        after.failures = (pendingKey path payload.hash, 3) :: l.failures := by
  obtain ⟨task, pending⟩ := RetryLog.numbered_reach reached
  refine ⟨⟨task, pending⟩, ?_⟩
  intro now peerID payload env after repoID path moved there gone
  obtain ⟨host, step, rfl⟩ := Option.map_eq_some_iff.mp moved
  obtain ⟨own, details, found, -, last, failed⟩ := row_given_up step there gone
  obtain ⟨most, before⟩ := pending _ details found
  have third : details.retries = 3 := le_antisymm most last
  rw [third] at before failed
  refine ⟨own, before, ?_⟩
  rw [failed]
  rfl

def startedLog : RetryLog := ⟨Host.started "b" "r" "/r" ["a"], []⟩

theorem startedLog_initial : startedLog.Initial := ⟨Host.started_initial "b" "r" "/r" ["a"], rfl⟩

def deadPort (now : Int) : HostEvent :=
  .message now "a" (.fileResponse ⟨"f", "h", "", "", 40000, ""⟩) { Env.fine with dialed := false }

def vainRun : List HostEvent :=
  [.message 5 "a" (.fileMetadataUpdate "r" ⟨"f", "h", 2000, 1, 4, false, 420, none⟩) Env.fine,
    .queueRound, .execute 0 true, deadPort 6, .retry 0 1006, .queueRound, .execute 0 true,
    deadPort 1007, .retry 0 3007, .queueRound, .execute 0 true, deadPort 3008, .retry 0 7008,
    .queueRound, .execute 0 true]

theorem row_given_up_after_four_failures_vainRun : ∃ l : RetryLog,
    l.host.sc.db.get "r" "f" = none ∧ (pendingKey "f" "h", 0) ∈ l.failures ∧
      l.failures.head? = some (pendingKey "f" "h", 3) := by
  obtain ⟨l, reached, there, after⟩ := reach_of_replay (RetryLog.next .plain)
    (fun _ _ => True) (.start startedLog_initial) vainRun
    (fun l => l.host.sc.db.get "r" "f" ≠ none ∧ (l.next .plain (deadPort 7009)).any
      (fun l => (l.host.sc.db.get "r" "f").isNone) = true)
    (by decide +kernel)
  cases moved : l.next .plain (deadPort 7009) with
  | none =>
    rw [moved] at after
    cases after
  | some last =>
    rw [moved, Option.any_some] at after
    have gone : last.host.sc.db.get "r" "f" = none := Option.isNone_iff_eq_none.mp after
    obtain ⟨-, before, now⟩ := (row_given_up_after_four_failures
      (reach_mono (fun _ _ _ step => step.1) reached)).2 _ _ _ _ _ _ _ moved there gone
    refine ⟨last, gone, ?_, by rw [now]; rfl⟩
    rw [now]
    exact List.mem_cons_of_mem _ (before 0 (by decide))

end P2PSync
