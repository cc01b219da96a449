import Mathlib.Data.List.Flatten
import P2PSync.Addressing
import P2PSync.Drain

/-! The download sessions of a machine and the threads of the daemons that write their
temporary files. A download passes from the queue through the list of requests to a
session. -/
namespace P2PSync

open Transition

inductive TransferStatus where
  | preparing | streaming | completed | failed
  deriving DecidableEq, Repr

def TransferStatus.active : TransferStatus → Bool
  | .preparing | .streaming => true
  | .completed | .failed => false

/-- streamDownload waits for the daemon and then copies; both can fail. -/
def TransferStatus.next : TransferStatus → Bool → Option TransferStatus
  | .preparing, true => some .streaming
  | .streaming, true => some .completed
  | .preparing, false | .streaming, false => some .failed
  | .completed, _ | .failed, _ => none

/-- The repository is part of the transfer ID. -/
structure TransferSession where
  repoID : String
  filePath : String
  peerID : String
  expectedSize : Int
  status : TransferStatus
  deriving DecidableEq, Repr

def TransferSession.slot (s : TransferSession) : String × String := (s.repoID, s.filePath)

/-- The session that StartDownload makes before it sends its message. -/
def IpcMessage.startDownload : IpcMessage → List TransferSession
  | .prepareFileTransfer path repoID peerID _ size .download _ =>
    [⟨repoID, path, peerID, size, .preparing⟩]
  | _ => []

def Daemon.temp (d : Daemon) (path : String) : Place := placeOf (d.target path ++ ".tmp")

structure Site where
  host : Host
  sessions : List TransferSession

inductive SiteEvent where
  | host (event : HostEvent)
  | session (i : Nat) (ok : Bool)

def SyncTask.item (t : SyncTask) : (String × String) × String := ((t.repoID, t.filePath), t.hash)

def keyPath (key : String) : String :=
  String.ofList (key.toList.reverse.dropWhile (· ≠ ':')).tail.reverse

theorem keyPath_pendingKey (path : String) {hash : String} (plain : ':' ∉ hash.toList) :
    keyPath (pendingKey path hash) = path := by
  have skipped : ∀ c ∈ hash.toList.reverse, decide (c ≠ ':') = true := by
    intro c mem
    apply decide_eq_true
    rintro rfl
    exact plain (List.mem_reverse.mp mem)
  have chars : (pendingKey path hash).toList.reverse =
      hash.toList.reverse ++ ':' :: path.toList.reverse := by
    simp [pendingKey]
  rw [keyPath, chars, List.dropWhile_append_of_pos skipped]
  simp

def pendingSlot (entry : Sigma fun _ : String => PendingDownload) : String × String :=
  (entry.2.repoID, keyPath entry.1)

namespace Host

def items (h : Host) : List ((String × String) × String) :=
  h.sc.queue.queued.map (·.item) ++ h.running.map (·.item) ++ h.timers.map (·.item)

def awaiting (h : Host) : List (String × String) :=
  h.items.map (·.1) ++ h.sc.pendingDownloads.entries.map pendingSlot

def temps (h : Host) (x : String × String) : List Place :=
  (h.daemons.filter (·.addressed x.1)).map (·.temp x.2)

def writers (h : Host) (place : Place) : List (Daemon × IpcMessage) :=
  h.inbox.filter fun y => y.2.startDownload.any fun session =>
    y.1.addressed session.repoID ∧ y.1.temp session.filePath = place

def meet (h : Host) (x y : String × String) : Bool :=
  (x.1 = y.1 ∧ normalizePath x.2 = normalizePath y.2) ∨ (h.temps x).any (· ∈ h.temps y)

def opened (rt : Runtime) (h : Host) (e : HostEvent) : List (String × String) :=
  ((h.outputs rt e).flatMap Output.mail).flatMap (fun msg => msg.startDownload.map (·.slot))

def scheduled (h : Host) : HostEvent → List ((String × String) × String)
  | .message _ peerID (.fileMetadataUpdate repoID u) env =>
    if downloads h.sc env.missing peerID repoID u then [((repoID, u.path), u.hash)] else []
  | _ => []

end Host

namespace Site

def next (rt : Runtime) (s : Site) : SiteEvent → Option Site
  | .host e => (s.host.next rt e).map (fun host =>
      ⟨host, s.sessions ++
        ((s.host.outputs rt e).flatMap Output.mail).flatMap IpcMessage.startDownload⟩)
  | .session i ok => s.sessions[i]?.bind fun session =>
      (session.status.next ok).map fun status =>
        { s with sessions := s.sessions.set i { session with status := status } }

def Initial (s : Site) : Prop := s.host.Initial ∧ s.sessions = []

def active (s : Site) : List (String × String) :=
  (s.sessions.filter (·.status.active)).map (·.slot)

/-- A download is scheduled only while no other one of the file is on its way, and
no hash has the character that ends the path in a key. -/
def solitary (s : Site) : SiteEvent → Bool
  | .host (.message _ _ (.fileResponse payload) _) => ':' ∉ payload.hash.toList
  | .host e => (s.host.scheduled e).all fun item =>
      ':' ∉ item.2.toList ∧ (s.host.awaiting ++ s.active).all (!s.host.meet item.1 ·) ∧
        (s.host.temps item.1).all (s.host.writers · = [])
  | .session .. => true

end Site

/-! One unit of work, counted. -/

structure Alone (waiting busy room : Nat) : Prop where
  once : waiting ≤ 1
  bounded : busy ≤ room
  apart : 0 < waiting → busy = 0

theorem Alone.step {waiting busy room waiting' busy' opened fresh : Nat}
    (alone : Alone waiting busy room) (flow : waiting' + opened ≤ waiting + fresh)
    (few : fresh ≤ 1) (new : 0 < fresh → waiting = 0 ∧ busy = 0)
    (grows : busy' ≤ busy + opened * room) : Alone waiting' busy' room := by
  obtain ⟨once, bounded, apart⟩ := alone
  have total : waiting + fresh ≤ 1 := by
    rcases Nat.eq_zero_or_pos fresh with none | some
    · omega
    · have := new some
      omega
  have one : opened = 0 ∨ opened = 1 := by omega
  rcases one with rfl | rfl
  · refine ⟨by omega, by omega, ?_⟩
    intro waits
    rcases Nat.eq_zero_or_pos fresh with none | some
    · have := apart (by omega)
      omega
    · have := new some
      omega
  · refine ⟨by omega, ?_, by omega⟩
    rcases Nat.eq_zero_or_pos fresh with none | some
    · have := apart (by omega)
      omega
    · have := new some
      omega

/-! What an event does to the downloads on their way. -/

section Count

variable (x : (String × String) × String)

theorem push_items (sort : TaskSort) (q : SyncQueue) (t : SyncTask) :
    ((q.push sort t).queued.map (·.item)).count x ≤
      (q.queued.map (·.item)).count x + [t.item].count x := by
  rcases q.queued_push sort t with same | perm
  · rw [same]
    omega
  · rw [(perm.map (·.item)).count_eq, List.map_cons, ← List.singleton_append, List.count_append]
    omega

theorem requeue_items (q : SyncQueue) (t : SyncTask) : ((q.requeue t).queued.map (·.item)).count x =
      (q.queued.map (·.item)).count x + [t.item].count x := by
  rw [((q.queued_requeue t).map (·.item)).count_eq, List.map_cons, ← List.singleton_append,
    List.count_append]
  omega

theorem pop_items {q q' : SyncQueue} {t : SyncTask} (popped : q.pop = some (t, q')) :
    (q.queued.map (·.item)).count x = (q'.queued.map (·.item)).count x + [t.item].count x := by
  rw [((SyncQueue.queued_pop popped).map (·.item)).count_eq, List.map_cons, ← List.singleton_append,
    List.count_append]
  omega

theorem erase_items {l : List SyncTask} {i : Nat} {t : SyncTask} (at_ : l[i]? = some t) :
    (l.map (·.item)).count x = ((l.eraseIdx i).map (·.item)).count x + [t.item].count x := by
  obtain ⟨bound, rfl⟩ := List.getElem?_eq_some_iff.mp at_
  rw [← ((List.getElem_cons_eraseIdx_perm bound).map (·.item)).count_eq, List.map_cons,
    ← List.singleton_append, List.count_append]
  omega

theorem Host.items_count (h : Host) : h.items.count x = (h.sc.queue.queued.map (·.item)).count x +
    (h.running.map (·.item)).count x + (h.timers.map (·.item)).count x := by
  rw [items, List.count_append, List.count_append]

end Count

/-- What an event can do: move downloads within the queue, the handed out tasks and
the timers, send a request, or end one by a session or a timer. -/
inductive Progress (rt : Runtime) (h : Host) (e : HostEvent) (after : Host) : Prop where
  | kept : (after.items).Subperm (h.scheduled e ++ h.items) →
      after.sc.pendingDownloads.entries.Sublist h.sc.pendingDownloads.entries →
      h.opened rt e = [] → Progress rt h e after
  | requested (task : SyncTask) (details : PendingDownload) :
      (task.item :: after.items).Subperm h.items → details.repoID = task.repoID →
      after.sc.pendingDownloads =
        h.sc.pendingDownloads.insert (pendingKey task.filePath task.hash) details →
      h.opened rt e = [] → Progress rt h e after
  | answered (now : Int) (peerID : String) (payload : FileResponsePayload) (env : Env)
      (details : PendingDownload) (again : List ((String × String) × String)) :
      e = .message now peerID (.fileResponse payload) env →
      h.sc.pendingDownloads.lookup (pendingKey (clean payload.path) payload.hash) = some details →
      after.sc.pendingDownloads =
        h.sc.pendingDownloads.erase (pendingKey (clean payload.path) payload.hash) →
      after.items.Subperm (again ++ h.items) → (∀ item ∈ again, item.2 = payload.hash) →
      (again.map (·.1) ++ h.opened rt e).Subperm [(details.repoID, clean payload.path)] →
      Progress rt h e after

section Events

variable {rt : Runtime} {h after : Host}

def tame (out : List Output) : Prop :=
  ∀ o ∈ out, o.timers = [] ∧ ∀ msg ∈ o.mail, msg.startDownload = []

theorem tame.timers {out : List Output} (quiet : tame out) : out.flatMap Output.timers = [] :=
  List.flatMap_eq_nil_iff.mpr (fun o mem => (quiet o mem).1)

theorem tame.opened {e : HostEvent} (quiet : tame (h.outputs rt e)) : h.opened rt e = [] := by
  apply List.flatMap_eq_nil_iff.mpr
  intro msg mem
  obtain ⟨o, inside, mail⟩ := List.mem_flatMap.mp mem
  rw [(quiet o inside).2 msg mail, List.map_nil]

theorem progress_tame {e : HostEvent} {base : Host}
    (same : after = base.performAll (h.outputs rt e)) (quiet : tame (h.outputs rt e))
    (running : base.running = h.running) (timers : base.timers = h.timers)
    (pending : base.sc.pendingDownloads = h.sc.pendingDownloads)
    (queue : ∀ x, (base.sc.queue.queued.map (·.item)).count x ≤
      (h.sc.queue.queued.map (·.item)).count x + (h.scheduled e).count x) :
    Progress rt h e after := by
  subst same
  obtain ⟨running', timers', -⟩ := base.performAll_rest (h.outputs rt e)
  refine .kept ?_ ?_ quiet.opened
  · apply List.subperm_ext_iff.mpr
    intro x _
    have more := queue x
    rw [List.count_append, Host.items_count, Host.items_count, Host.performAll_sc, running', timers',
      quiet.timers, List.append_nil, running, timers]
    omega
  · rw [Host.performAll_sc, pending]

theorem tame_local (sc : SyncCoordinator) (now : Int) (repoID : String)
    (payload : FileChangedPayload) : tame (handleLocalFileChanged sc now repoID payload).out := by
  intro o sent
  obtain ⟨-, rfl⟩ := local_out sent
  exact ⟨rfl, fun _ mem => by cases mem⟩

theorem tame_request (sc : SyncCoordinator) (env : Env) (peerID : String)
    (payload : FileRequestPayload) : tame (handleFileRequest sc env peerID payload).out := by
  intro o out
  rcases (handleFileRequest_spec sc env peerID payload).2 o out with
    ⟨response, rfl⟩ | ⟨-, m, base, -, -, rfl | rfl⟩
  · exact ⟨rfl, fun _ mem => by cases mem⟩
  · exact ⟨rfl, fun _ mem => by cases mem⟩
  · refine ⟨rfl, fun msg mem => ?_⟩
    cases List.mem_singleton.mp mem
    rfl

theorem tame_resolution (sc : SyncCoordinator) (repoID path resolution peerID : String) :
    tame (handleConflictResolution sc repoID path resolution peerID).out := by
  intro o out
  rcases resolution_sends out with ⟨file, rfl⟩ | ⟨-, m, -, rfl⟩ | ⟨-, rfl⟩ <;>
    exact ⟨rfl, fun _ mem => by cases mem⟩

section

variable {now : Int} {peerID : String} {payload : FileResponsePayload} {env : Env}

theorem progress_fileChanged {repoID : String} {payload : FileChangedPayload}
    {content : Option Content}
    (moved : h.next rt (.fileChanged now repoID payload content) = some after) :
    Progress rt h (.fileChanged now repoID payload content) after := by
  simp only [Host.next] at moved
  split at moved
  · cases moved
    obtain ⟨-, -, running, timers, -⟩ :=
      h.edit_frame repoID (relativePath h.sc repoID payload.path) content
    obtain ⟨queue, pending⟩ := local_queue h.sc now repoID payload
    refine progress_tame rfl (tame_local h.sc now repoID payload) running timers pending ?_
    intro x
    simp only [queue]
    omega
  · cases moved

theorem tame_update (sc : SyncCoordinator) (now : Int) (missing : Bool) (peerID repoID : String)
    (u : Update) : tame (handlePeerMetadataUpdate rt sc now missing peerID repoID u).2 := by
  intro o sent
  rcases peer_sends rt now missing sent with ⟨msg, rfl⟩ | ⟨-, -, m, -, rfl⟩
  · refine ⟨rfl, fun msg' mem => ?_⟩
    cases List.mem_singleton.mp mem
    rcases peer_ipc rt now missing sent with ⟨versions, rfl⟩ | ⟨-, -, -, rfl⟩ <;> rfl
  · exact ⟨rfl, fun _ mem => by cases mem⟩

theorem progress_update {repoID : String} {u : Update} {env : Env}
    (moved : h.next rt (.message now peerID (.fileMetadataUpdate repoID u) env) = some after) :
    Progress rt h (.message now peerID (.fileMetadataUpdate repoID u) env) after := by
  cases moved
  refine progress_tame rfl (tame_update h.sc now env.missing peerID repoID u) rfl rfl
    (peer_queue rt h.sc now env.missing peerID repoID u).1 ?_
  intro x
  have queue : (handlePeerMetadataUpdate rt h.sc now env.missing peerID repoID u).1.queue = _ :=
    update_queue rt now
  simp only [Host.scheduled, handleP2PMessage, queue]
  split
  · exact push_items x rt.sort h.sc.queue (downloadTask peerID repoID u)
  · omega

theorem progress_request {payload : FileRequestPayload} {env : Env}
    (moved : h.next rt (.message now peerID (.fileRequest payload) env) = some after) :
    Progress rt h (.message now peerID (.fileRequest payload) env) after := by
  cases moved
  have same := (handleFileRequest_spec h.sc env peerID payload).1
  refine progress_tame rfl (tame_request h.sc env peerID payload) rfl rfl
    (congrArg SyncCoordinator.pendingDownloads same) ?_
  intro x
  simp only [handleP2PMessage, same]
  omega

theorem response_ends (rt : Runtime) {sc : SyncCoordinator} {peerID : String}
    {payload : FileResponsePayload} {details : PendingDownload}
    (consumed : Consumes sc peerID payload details) (now : Int) (env : Env) :
    (handleFileResponse rt sc now env peerID payload).sc.queue = sc.queue ∧
    (handleFileResponse rt sc now env peerID payload).sc.pendingDownloads =
      sc.pendingDownloads.erase (pendingKey (clean payload.path) payload.hash) ∧
    (tame (handleFileResponse rt sc now env peerID payload).out ∨
      (handleFileResponse rt sc now env peerID payload).out =
        [.sendIpc (.prepareFileTransfer (clean payload.path) details.repoID peerID payload.hash
          details.size .download details.mode)] ∨
      (handleFileResponse rt sc now env peerID payload).out =
        [.afterFunc (2 ^ details.retries) (retryTask (clean payload.path) payload details)]) := by
  rw [response_consumed consumed rt now env]
  split
  · rw [writeInline_eq]
    split
    · exact ⟨rfl, rfl, Or.inl (fun o mem => by cases mem)⟩
    · refine ⟨by split <;> rfl, by split <;> rfl, Or.inl ?_⟩
      intro o mem
      cases List.mem_singleton.mp mem
      exact ⟨rfl, fun _ mem => by cases mem⟩
  · obtain ⟨state, out⟩ := beginStream_eq (sc.taken (clean payload.path) payload.hash) env peerID
      (clean payload.path) payload details
    rw [state, out]
    refine ⟨by split <;> rfl, by split <;> rfl, ?_⟩
    split_ifs
    · exact Or.inl (fun o mem => by cases mem)
    · exact Or.inr (Or.inl rfl)
    · exact Or.inr (Or.inr rfl)
    · exact Or.inl (fun o mem => by cases mem)

theorem progress_answered {details : PendingDownload}
    (consumed : Consumes h.sc peerID payload details)
    (moved : h.next rt (.message now peerID (.fileResponse payload) env) = some after) :
    Progress rt h (.message now peerID (.fileResponse payload) env) after := by
  obtain ⟨queue, pending, out⟩ := response_ends rt consumed now env
  cases moved
  refine .answered now peerID payload env details
    (((handleFileResponse rt h.sc now env peerID payload).out.flatMap Output.timers).map (·.item))
    rfl consumed.2.2.2 ?_ ?_ ?_ ?_
  · rw [Host.performAll_sc]
    exact pending
  · apply List.subperm_ext_iff.mpr
    intro x _
    obtain ⟨running, timers, -⟩ := Host.performAll_rest
      { h.answered peerID (.fileResponse payload) with
        sc := (handleP2PMessage rt h.sc now env peerID (.fileResponse payload)).sc }
      (handleP2PMessage rt h.sc now env peerID (.fileResponse payload)).out
    rw [List.count_append, Host.items_count, Host.items_count, running, timers, Host.performAll_sc,
      List.map_append, List.count_append]
    simp only [handleP2PMessage, queue, Host.answered]
    omega
  · intro item mem
    rcases out with quiet | start | timer
    · rw [quiet.timers] at mem
      cases mem
    · simp [start, Output.timers] at mem
    · simp only [timer, List.flatMap_cons, List.flatMap_nil, Output.timers, List.append_nil,
        List.map_cons, List.map_nil, List.mem_singleton] at mem
      rw [mem]
      rfl
  · simp only [Host.opened, Host.outputs, handleP2PMessage]
    rcases out with quiet | start | timer
    · have none : h.opened rt (.message now peerID (.fileResponse payload) env) = [] :=
        tame.opened quiet
      simp only [Host.opened, Host.outputs, handleP2PMessage] at none
      rw [quiet.timers, none]
      exact List.nil_subperm
    · simp [start, Output.timers, Output.mail, IpcMessage.startDownload, TransferSession.slot]
    · simp [timer, Output.timers, Output.mail, SyncTask.item, retryTask]

theorem progress_response
    (moved : h.next rt (.message now peerID (.fileResponse payload) env) = some after) :
    Progress rt h (.message now peerID (.fileResponse payload) env) after := by
  by_cases consumed : ∃ details, Consumes h.sc peerID payload details
  · obtain ⟨details, consumed⟩ := consumed
    exact progress_answered consumed moved
  · obtain ⟨same, silent⟩ := response_ignored (fun d c => consumed ⟨d, c⟩) rt now env
    cases moved
    have quiet : tame (h.outputs rt (.message now peerID (.fileResponse payload) env)) := by
      intro o mem
      simp only [Host.outputs, handleP2PMessage, silent] at mem
      cases mem
    refine progress_tame rfl quiet rfl rfl (congrArg SyncCoordinator.pendingDownloads same) ?_
    intro x
    simp only [handleP2PMessage, same]
    omega

theorem progress_queueRound (moved : h.next rt .queueRound = some after) :
    Progress rt h .queueRound after := by
  cases moved
  refine .kept ?_ ?_ rfl
  · apply List.subperm_ext_iff.mpr
    intro x _
    rw [List.count_append, Host.items_count, Host.items_count]
    dsimp only
    split
    · simp [Host.scheduled]
    · rename_i task queue popped
      have first := pop_items x popped
      split
      · simp only [Option.toList_some, List.map_append, List.count_append, List.map_cons, List.map_nil,
          Host.scheduled]
        omega
      · have back := requeue_items x queue task
        simp only [Option.toList_none, List.append_nil]
        omega
  · dsimp only
    split
    · exact List.Sublist.refl _
    · split <;> exact List.Sublist.refl _

theorem progress_retry {i : Nat} {now : Int} (moved : h.next rt (.retry i now) = some after) :
    Progress rt h (.retry i now) after := by
  simp only [Host.next, Option.map_eq_some_iff] at moved
  obtain ⟨task, at_, rfl⟩ := moved
  refine .kept ?_ (List.Sublist.refl _) rfl
  apply List.subperm_ext_iff.mpr
  intro x _
  have pushed := push_items x rt.sort h.sc.queue { task with timestamp := now }
  have taken := erase_items x at_
  rw [List.count_append, Host.items_count, Host.items_count]
  simp only [retryDownload, SyncTask.item] at *
  omega

theorem execute_items {i : Nat} {task : SyncTask} (at_ : h.running[i]? = some task)
    (sc : SyncCoordinator) (out : List Output) (silent : out.flatMap Output.timers = [])
    (x : (String × String) × String) :
    (({ h with sc := sc, running := h.running.eraseIdx i } : Host).performAll out).items.count x +
      [task.item].count x =
    (sc.queue.queued.map (·.item)).count x + (h.running.map (·.item)).count x +
      (h.timers.map (·.item)).count x := by
  have taken := erase_items x at_
  obtain ⟨running, timers, -⟩ := Host.performAll_rest
    { h with sc := sc, running := h.running.eraseIdx i } out
  rw [Host.items_count, running, timers, silent, List.append_nil, Host.performAll_sc]
  dsimp only
  omega

theorem progress_execute {i : Nat} {sent : Bool}
    (moved : h.next rt (.execute i sent) = some after) : Progress rt h (.execute i sent) after := by
  simp only [Host.next, Option.map_eq_some_iff] at moved
  obtain ⟨task, at_, rfl⟩ := moved
  have outputs : h.outputs rt (.execute i sent) = (executeSyncTask h.sc sent task).2 := by
    simp only [Host.outputs, at_, Option.elim_some]
  rcases executeSyncTask_cases h.sc sent task with done | ⟨pending, fewer, back⟩ | request
  · rw [done] at outputs ⊢
    refine .kept ?_ (List.Sublist.refl _) (by rw [Host.opened, outputs]; rfl)
    apply List.subperm_ext_iff.mpr
    intro x _
    have all := execute_items at_ h.sc [] rfl x
    rw [List.count_append, h.items_count]
    dsimp only
    omega
  · rw [back] at outputs ⊢
    refine .kept ?_ fewer (by rw [Host.opened, outputs]; rfl)
    apply List.subperm_ext_iff.mpr
    intro x _
    have all := execute_items at_
      { h.sc with queue := h.sc.queue.requeue task, pendingDownloads := pending } [] rfl x
    have requeued := requeue_items x h.sc.queue task
    rw [List.count_append, h.items_count]
    dsimp only at all ⊢
    omega
  · rw [request] at outputs ⊢
    refine .requested task ⟨task.size, task.repoID, task.mode, task.peerID, task.retries⟩ ?_ rfl rfl
      (by rw [Host.opened, outputs]; rfl)
    apply List.subperm_ext_iff.mpr
    intro x _
    rw [← List.singleton_append, List.count_append, h.items_count, Nat.add_comm]
    exact (execute_items at_ _ [.sendToPeer task.peerID (.fileRequest ⟨task.filePath, task.hash⟩)] rfl
      x).le

theorem progress_resolve {repoID path resolution peerID : String} {removed : Bool}
    (moved : h.next rt (.resolve repoID path resolution peerID removed) = some after) :
    Progress rt h (.resolve repoID path resolution peerID removed) after := by
  cases moved
  obtain ⟨db, eq, -⟩ := resolution_touches h.sc repoID path resolution peerID
  refine progress_tame rfl ?_ rfl rfl (by simp only [eq]) ?_
  · exact fun o out => tame_resolution h.sc repoID path resolution peerID o (List.mem_of_mem_filter out)
  · intro x
    simp only [eq]
    omega

theorem tame_connect (sc : SyncCoordinator) (peerID : String) :
    tame (syncAllRepositoriesWithPeer sc peerID) := by
  intro o out
  obtain ⟨repo, -, sent⟩ := List.mem_flatMap.mp out
  obtain ⟨m, -, rfl⟩ := List.mem_map.mp sent
  exact ⟨rfl, fun _ mem => by cases mem⟩

theorem progress_connect (moved : h.next rt (.connect peerID) = some after) :
    Progress rt h (.connect peerID) after := by
  cases moved
  exact progress_tame rfl (tame_connect _ peerID) rfl rfl rfl (fun x => Nat.le_add_right _ _)

end

theorem progress_next {e : HostEvent} (moved : h.next rt e = some after) :
    Progress rt h e after := by
  cases e with
  | fileChanged now repoID payload content => exact progress_fileChanged moved
  | message now peerID msg env =>
    cases msg with
    | fileMetadataUpdate repoID u => exact progress_update moved
    | fileRequest payload => exact progress_request moved
    | fileResponse payload => exact progress_response moved
  | queueRound => exact progress_queueRound moved
  | execute i sent => exact progress_execute moved
  | retry i now => exact progress_retry moved
  | resolve repoID path resolution peerID removed => exact progress_resolve moved
  | daemon i env =>
    simp only [Host.next, Option.map_eq_some_iff] at moved
    obtain ⟨x, -, rfl⟩ := moved
    obtain ⟨sc, -, running, timers, -⟩ := Host.applyEffect_frame
      { h with inbox := h.inbox.eraseIdx i } (handleIpcMessage rt x.1 env x.2).2
    refine .kept ?_ (by rw [sc]) rfl
    rw [Host.items, Host.items, sc, running, timers]
    exact (List.sublist_append_right _ _).subperm
  | connect peerID => exact progress_connect moved
  | disconnect peerID =>
    cases moved
    exact .kept (List.sublist_append_right _ _).subperm (List.Sublist.refl _) rfl

end Events

/-! The count of the downloads of one file. -/

section Flow

variable {rt : Runtime} {h after : Host} {e : HostEvent}

theorem slots_count {l l' : List ((String × String) × String)} (fewer : l.Subperm l')
    (φ : String × String → Bool) : (l.map (·.1)).countP φ ≤ (l'.map (·.1)).countP φ := by
  obtain ⟨m, perm, inside⟩ := fewer
  rw [← (perm.map (·.1)).countP_eq]
  exact (inside.map (·.1)).countP_le

theorem awaiting_count (h : Host) (φ : String × String → Bool) : h.awaiting.countP φ =
    (h.items.map (·.1)).countP φ + (h.sc.pendingDownloads.entries.map pendingSlot).countP φ := by
  rw [Host.awaiting, List.countP_append]

section

variable (progress : Progress rt h e after) (plain : ∀ item ∈ h.items, ':' ∉ item.2.toList)
  (named : ∀ now peerID payload env, e = .message now peerID (.fileResponse payload) env →
    ':' ∉ payload.hash.toList)

include progress plain named

theorem awaiting_next (φ : String × String → Bool) :
    after.awaiting.countP φ + (h.opened rt e).countP φ ≤
      h.awaiting.countP φ + ((h.scheduled e).map (·.1)).countP φ := by
  rw [awaiting_count, awaiting_count]
  cases progress with
  | kept items pending opened =>
    have moved := slots_count items φ
    have fewer : (after.sc.pendingDownloads.entries.map pendingSlot).countP φ ≤
        (h.sc.pendingDownloads.entries.map pendingSlot).countP φ :=
      (pending.map pendingSlot).countP_le
    rw [List.map_append, List.countP_append] at moved
    rw [opened, List.countP_nil]
    omega
  | requested task details items repo pending opened =>
    have moved := slots_count items φ
    have own : pendingSlot ⟨pendingKey task.filePath task.hash, details⟩ = task.item.1 := by
      have clear : ':' ∉ task.hash.toList := plain task.item (items.subset List.mem_cons_self)
      simp only [pendingSlot, repo, keyPath_pendingKey _ clear, SyncTask.item]
    have fewer : ((List.kerase (pendingKey task.filePath task.hash)
          h.sc.pendingDownloads.entries).map pendingSlot).countP φ ≤
        (h.sc.pendingDownloads.entries.map pendingSlot).countP φ :=
      ((List.kerase_sublist _ _).map pendingSlot).countP_le
    rw [List.map_cons, ← List.singleton_append, List.countP_append] at moved
    rw [opened, List.countP_nil, pending, AList.entries_insert, List.map_cons, own,
      ← List.singleton_append, List.countP_append]
    omega
  | answered now peerID payload env details again event found pending items hashes once =>
    have moved := slots_count items φ
    have one := once.countP_le φ
    have before := ((SyncQueue.entries_perm found).map pendingSlot).countP_eq φ
    have own : pendingSlot ⟨pendingKey (clean payload.path) payload.hash, details⟩ =
        (details.repoID, clean payload.path) := by
      simp only [pendingSlot, keyPath_pendingKey _ (named now peerID payload env event)]
    rw [List.map_append, List.countP_append] at moved
    rw [List.countP_append] at one
    rw [List.map_cons, own, ← List.singleton_append, List.countP_append] at before
    rw [pending]
    omega

theorem plain_next (fresh : ∀ item ∈ h.scheduled e, ':' ∉ item.2.toList) :
    ∀ item ∈ after.items, ':' ∉ item.2.toList := by
  intro item mem
  cases progress with
  | kept items =>
    rcases List.mem_append.mp (items.subset mem) with new | old
    · exact fresh item new
    · exact plain item old
  | requested task details items =>
    exact plain item (items.subset (List.mem_cons_of_mem _ mem))
  | answered now peerID payload env details again event found pending items hashes =>
    rcases List.mem_append.mp (items.subset mem) with new | old
    · rw [hashes item new]
      exact named now peerID payload env event
    · exact plain item old

end

def Daemon.writes (d : Daemon) (place : Place) (x : String × String) : Bool :=
  d.addressed x.1 ∧ d.temp x.2 = place

theorem Host.count_temps (h : Host) (place : Place) (x : String × String) :
    (h.temps x).count place = h.daemons.countP (·.writes place x) := by
  rw [Host.temps, List.count_eq_countP, List.countP_map, List.countP_filter]
  apply List.countP_congr
  intro d _
  simp [Daemon.writes, and_comm]

theorem mail_writers (h : Host) (place : Place) (msgs : List IpcMessage) {room : Nat}
    (few : ∀ x, (h.temps x).count place ≤ room) :
    ((msgs.flatMap (fun msg => h.daemons.map (·, msg))).filter fun y =>
      y.2.startDownload.any fun session => y.1.addressed session.repoID ∧
        y.1.temp session.filePath = place).length ≤
    (msgs.flatMap (fun msg => msg.startDownload.map (·.slot))).countP (place ∈ h.temps ·) *
      room := by
  have one : ∀ msg, ((h.daemons.map (·, msg)).filter fun y : Daemon × IpcMessage =>
      y.2.startDownload.any fun session => y.1.addressed session.repoID ∧
        y.1.temp session.filePath = place).length ≤
      (msg.startDownload.map (·.slot)).countP (place ∈ h.temps ·) * room := by
    intro msg
    rw [← List.countP_eq_length_filter, List.countP_map]
    by_cases starts : ∃ session, msg.startDownload = [session]
    · obtain ⟨session, starts⟩ := starts
      have copies : h.daemons.countP ((fun y : Daemon × IpcMessage =>
          y.2.startDownload.any fun session => y.1.addressed session.repoID ∧
            y.1.temp session.filePath = place) ∘ (·, msg)) = (h.temps session.slot).count place := by
        rw [h.count_temps]
        apply List.countP_congr
        intro d _
        simp only [Function.comp_apply, starts, List.any_cons, List.any_nil, Bool.or_false]
        exact Iff.rfl
      rw [copies, starts, List.map_singleton, List.countP_singleton]
      split
      · rw [Nat.one_mul]
        exact few session.slot
      · rename_i apart
        rw [List.count_eq_zero.mpr (by simpa using apart)]
        exact Nat.zero_le _
    · have none : msg.startDownload = [] := by
        unfold IpcMessage.startDownload at starts ⊢
        split
        · rename_i same
          simp only at starts
          exact absurd ⟨_, rfl⟩ starts
        · rfl
      simp [none]
  induction msgs with
  | nil => simp
  | cons msg rest ih =>
    rw [List.flatMap_cons, List.filter_append, List.length_append, List.flatMap_cons,
      List.countP_append, Nat.add_mul]
    exact Nat.add_le_add (one msg) ih

theorem inbox_next (moved : h.next rt e = some after) : after.daemons = h.daemons ∧
    ∃ old, old.Sublist h.inbox ∧ after.inbox = old ++
      ((h.outputs rt e).flatMap Output.mail).flatMap (fun msg => h.daemons.map (·, msg)) := by
  have performed : ∀ base : Host, base.daemons = h.daemons → base.inbox = h.inbox → ∀ out,
      (base.performAll out).daemons = h.daemons ∧ ∃ old, old.Sublist h.inbox ∧
        (base.performAll out).inbox = old ++
          (out.flatMap Output.mail).flatMap (fun msg => h.daemons.map (·, msg)) := by
    intro base daemons inbox out
    refine ⟨(base.performAll_daemons out).trans daemons, h.inbox, List.Sublist.refl _, ?_⟩
    rw [(base.performAll_rest out).2.2, inbox, daemons]
  cases e with
  | fileChanged now repoID payload content =>
    simp only [Host.next] at moved
    split at moved
    · cases moved
      obtain ⟨-, inbox, -, -, -, daemons⟩ :=
        h.edit_frame repoID (relativePath h.sc repoID payload.path) content
      apply performed
      · exact daemons
      · exact inbox
    · cases moved
  | message now peerID msg env =>
    cases moved
    apply performed
    · cases msg <;> rfl
    · cases msg <;> rfl
  | queueRound =>
    cases moved
    exact ⟨rfl, h.inbox, List.Sublist.refl _, (List.append_nil _).symm⟩
  | execute i sent =>
    simp only [Host.next, Option.map_eq_some_iff] at moved
    obtain ⟨task, at_, rfl⟩ := moved
    simp only [Host.outputs, at_, Option.elim_some]
    apply performed <;> rfl
  | retry i now =>
    simp only [Host.next, Option.map_eq_some_iff] at moved
    obtain ⟨task, -, rfl⟩ := moved
    exact ⟨rfl, h.inbox, List.Sublist.refl _, (List.append_nil _).symm⟩
  | resolve repoID path resolution peerID removed =>
    cases moved
    apply performed <;> rfl
  | daemon i env =>
    simp only [Host.next, Option.map_eq_some_iff] at moved
    obtain ⟨x, -, rfl⟩ := moved
    obtain ⟨-, inbox, -, -, -, daemons⟩ := Host.applyEffect_frame
      { h with inbox := h.inbox.eraseIdx i } (handleIpcMessage rt x.1 env x.2).2
    exact ⟨daemons, h.inbox.eraseIdx i, List.eraseIdx_sublist _ _,
      inbox.trans (List.append_nil _).symm⟩
  | connect peerID =>
    cases moved
    apply performed <;> rfl
  | disconnect peerID =>
    cases moved
    exact ⟨rfl, h.inbox, List.Sublist.refl _, (List.append_nil _).symm⟩

theorem temps_next (moved : h.next rt e = some after) : after.temps = h.temps := by
  funext x
  rw [Host.temps, Host.temps, (inbox_next moved).1]

theorem writers_next (moved : h.next rt e = some after) {place : Place} {room : Nat}
    (few : ∀ x, (h.temps x).count place ≤ room) : (after.writers place).length ≤
      (h.writers place).length + (h.opened rt e).countP (place ∈ h.temps ·) * room := by
  obtain ⟨-, old, inside, inbox⟩ := inbox_next moved
  rw [Host.writers, Host.writers, inbox, List.filter_append, List.length_append, Host.opened]
  exact Nat.add_le_add (inside.filter _).length_le (mail_writers h place _ few)

end Flow

structure Site.Single (s : Site) : Prop where
  plain : ∀ item ∈ s.host.items, ':' ∉ item.2.toList
  sessions : ∀ φ : String × String → Bool, (∀ x y, φ x → φ y → s.host.meet x y = true) →
    Alone (s.host.awaiting.countP φ) (s.active.countP φ) 1
  writers : ∀ place room, (∀ x, (s.host.temps x).count place ≤ room) →
    Alone (s.host.awaiting.countP (place ∈ s.host.temps ·)) (s.host.writers place).length room

theorem Site.single_initial {s : Site} (initial : s.Initial) : s.Single := by
  obtain ⟨⟨⟨running, timers, -, inbox⟩, ⟨queue, pending⟩, -⟩, none⟩ := initial
  have items : s.host.items = [] := by rw [Host.items, queue, running, timers]; rfl
  have awaiting : s.host.awaiting = [] := by rw [Host.awaiting, items, pending]; rfl
  refine ⟨?_, ?_, ?_⟩
  · rw [items]
    exact fun _ mem => by cases mem
  · intro φ _
    rw [awaiting, Site.active, none]
    exact ⟨Nat.zero_le _, Nat.zero_le _, fun _ => rfl⟩
  · intro place room _
    rw [awaiting, Host.writers, inbox]
    exact ⟨Nat.zero_le _, Nat.zero_le _, fun _ => rfl⟩

section Step

variable {rt : Runtime} {s after : Site}

theorem solitary_spec {e : HostEvent} (good : s.solitary (.host e) = true) :
    (∀ now peerID payload env, e = .message now peerID (.fileResponse payload) env →
      ':' ∉ payload.hash.toList) ∧
    ∀ item ∈ s.host.scheduled e, ':' ∉ item.2.toList ∧
      (∀ y ∈ s.host.awaiting ++ s.active, s.host.meet item.1 y = false) ∧
      ∀ place ∈ s.host.temps item.1, s.host.writers place = [] := by
  by_cases response : ∃ now peerID payload env,
      e = .message now peerID (.fileResponse payload) env
  · obtain ⟨now, peerID, payload, env, rfl⟩ := response
    constructor
    · rintro _ _ _ _ ⟨⟩
      exact of_decide_eq_true good
    · intro item mem
      cases mem
  · have items : (s.host.scheduled e).all (fun item =>
        ':' ∉ item.2.toList ∧ (s.host.awaiting ++ s.active).all (!s.host.meet item.1 ·) ∧
          (s.host.temps item.1).all (s.host.writers · = [])) = true := by
      unfold Site.solitary at good
      split at good
      · rename_i now peerID payload env same
        exact absurd ⟨now, peerID, payload, env, SiteEvent.host.inj same⟩ response
      · rename_i same
        rw [SiteEvent.host.inj same]
        exact good
      · rename_i same
        cases same
    constructor
    · intro now peerID payload env same
      exact absurd ⟨now, peerID, payload, env, same⟩ response
    · intro item mem
      obtain ⟨clear, apart, idle⟩ := of_decide_eq_true (List.all_eq_true.mp items item mem)
      refine ⟨clear, fun y inside => ?_, fun place there => ?_⟩
      · simpa using List.all_eq_true.mp apart y inside
      · exact of_decide_eq_true (List.all_eq_true.mp idle place there)

theorem scheduled_once (h : Host) (e : HostEvent) (φ : String × String → Bool) :
    ((h.scheduled e).map (·.1)).countP φ ≤ 1 := by
  apply List.countP_le_length.trans
  rw [List.length_map]
  unfold Host.scheduled
  split
  · split
    · exact le_refl 1
    · exact Nat.zero_le 1
  · exact Nat.zero_le 1

theorem active_append (s : Site) (host : Host) (msgs : List IpcMessage)
    (φ : String × String → Bool) :
    (Site.active ⟨host, s.sessions ++ msgs.flatMap IpcMessage.startDownload⟩).countP φ =
      s.active.countP φ + (msgs.flatMap (fun msg => msg.startDownload.map (·.slot))).countP φ := by
  have new : ∀ msg : IpcMessage, msg.startDownload.filter (·.status.active) = msg.startDownload := by
    intro msg
    unfold IpcMessage.startDownload
    split <;> rfl
  have all : (msgs.flatMap IpcMessage.startDownload).filter (·.status.active) =
      msgs.flatMap IpcMessage.startDownload := by
    rw [List.filter_flatMap]
    simp only [new]
  rw [Site.active, List.filter_append, all, List.map_append, List.countP_append, List.map_flatMap]
  rfl

theorem scheduled_apart {e : HostEvent} {φ : String × String → Bool}
    (alike : ∀ x y, φ x → φ y → s.host.meet x y = true) (fresh : ∀ item ∈ s.host.scheduled e,
      ∀ y ∈ s.host.awaiting ++ s.active, s.host.meet item.1 y = false)
    (new : 0 < ((s.host.scheduled e).map (·.1)).countP φ) :
    s.host.awaiting.countP φ = 0 ∧ s.active.countP φ = 0 := by
  obtain ⟨x, member, is⟩ := List.countP_pos_iff.mp new
  obtain ⟨item, scheduled, rfl⟩ := List.mem_map.mp member
  have none : ∀ y ∈ s.host.awaiting ++ s.active, ¬ φ y = true := by
    intro y inside also
    have apart := fresh item scheduled y inside
    rw [alike item.1 y is also] at apart
    cases apart
  exact ⟨List.countP_eq_zero.mpr fun y inside => none y (List.mem_append_left _ inside),
    List.countP_eq_zero.mpr fun y inside => none y (List.mem_append_right _ inside)⟩

theorem meet_of_temps {h : Host} {place : Place} {x y : String × String} (first : place ∈ h.temps x)
    (second : place ∈ h.temps y) : h.meet x y = true :=
  decide_eq_true (Or.inr (List.any_eq_true.mpr ⟨place, first, decide_eq_true second⟩))

theorem single_host (single : s.Single) {e : HostEvent} (moved : s.next rt (.host e) = some after)
    (good : s.solitary (.host e) = true) : after.Single := by
  simp only [Site.next, Option.map_eq_some_iff] at moved
  obtain ⟨host, moved, rfl⟩ := moved
  obtain ⟨named, fresh⟩ := solitary_spec good
  have progress := progress_next moved
  have flow := awaiting_next progress single.plain named
  have temps := temps_next moved
  have apart := fun item mem => (fresh item mem).2.1
  constructor
  · exact plain_next progress single.plain named (fun item mem => (fresh item mem).1)
  · intro φ alike
    have before : ∀ x y, φ x → φ y → s.host.meet x y = true := by
      intro x y hx hy
      have same := alike x y hx hy
      simp only [Host.meet, temps] at same
      exact same
    refine (single.sessions φ before).step (flow φ) (scheduled_once s.host e φ)
      (scheduled_apart before apart) ?_
    rw [active_append, Nat.mul_one]
    exact le_refl _
  · intro place room few
    simp only [temps] at few ⊢
    refine (single.writers place room few).step (flow _) (scheduled_once s.host e _) ?_
      (writers_next moved few)
    intro new
    have alike : ∀ x y, decide (place ∈ s.host.temps x) = true →
        decide (place ∈ s.host.temps y) = true → s.host.meet x y = true :=
      fun x y hx hy => meet_of_temps (of_decide_eq_true hx) (of_decide_eq_true hy)
    obtain ⟨x, member, is⟩ := List.countP_pos_iff.mp new
    obtain ⟨item, scheduled, rfl⟩ := List.mem_map.mp member
    refine ⟨(scheduled_apart alike apart new).1, ?_⟩
    rw [(fresh item scheduled).2.2 place (of_decide_eq_true is)]
    rfl

theorem active_set {sessions : List TransferSession} {i : Nat} {session : TransferSession}
    (at_ : sessions[i]? = some session) (was : session.status.active = true)
    (status : TransferStatus) :
    (((sessions.set i { session with status := status }).filter (·.status.active)).map
      (·.slot)).Sublist ((sessions.filter (·.status.active)).map (·.slot)) := by
  induction sessions generalizing i with
  | nil => exact List.Sublist.refl _
  | cons first rest ih =>
    cases i with
    | zero =>
      cases Option.some.inj at_
      have kept : (session :: rest).filter (·.status.active) =
          session :: rest.filter (·.status.active) := List.filter_cons_of_pos was
      rw [List.set_cons_zero, kept, List.map_cons, List.filter_cons]
      split
      · exact List.Sublist.refl _
      · exact List.sublist_cons_self _ _
    | succ i =>
      have later := ih at_
      rw [List.set_cons_succ, List.filter_cons, List.filter_cons]
      split
      · exact later.cons_cons _
      · exact later

theorem TransferStatus.active_of_next {status status' : TransferStatus} {ok : Bool}
    (step : status.next ok = some status') : status.active = true := by
  cases status with
  | preparing => rfl
  | streaming => rfl
  | completed => cases step
  | failed => cases step

theorem single_session (single : s.Single) {i : Nat} {ok : Bool}
    (moved : s.next rt (.session i ok) = some after) : after.Single := by
  simp only [Site.next, Option.bind_eq_some_iff, Option.map_eq_some_iff] at moved
  obtain ⟨session, at_, status, step, rfl⟩ := moved
  refine ⟨single.plain, ?_, single.writers⟩
  intro φ alike
  have fewer : (s.sessions.set i { session with status := status } |>.filter
      (·.status.active) |>.map (·.slot)).countP φ ≤ s.active.countP φ :=
    (active_set at_ (TransferStatus.active_of_next step) status).countP_le
  obtain ⟨once, bounded, apart⟩ := single.sessions φ alike
  refine ⟨once, fewer.trans bounded, fun waits => ?_⟩
  have none : s.active.countP φ = 0 := apart waits
  exact Nat.le_zero.mp (none ▸ fewer)

theorem mem_writers {h : Host} {d : Daemon} {msg : IpcMessage} {env : DaemonEnv} {path : String}
    (told : (d, msg) ∈ h.inbox) (opens : .openWrite path ∈ (handleIpcMessage rt d env msg).1) :
    (d, msg) ∈ h.writers (placeOf path) := by
  refine List.mem_filter.mpr ⟨told, ?_⟩
  cases msg with
  | conflictDetected => cases opens
  | syncFromPeer peerID file repoID isDelete hash timestamp =>
    simp only [handleIpcMessage] at opens
    split at opens
    · cases List.mem_singleton.mp opens
    · cases opens
  | prepareFileTransfer file repoID peerID hash size direction mode =>
    simp only [handleIpcMessage] at opens
    split at opens
    · rename_i own
      simp only [handleFileTransfer] at opens
      split at opens
      · cases opens
      · cases direction with
        | download =>
          have one := receiveFile_ops _ _ _ _ _ _ opens
          simp only [List.mem_cons, List.not_mem_nil, or_false, reduceCtorEq, false_or,
            FileOp.openWrite.injEq] at one
          simp [IpcMessage.startDownload, own, one, Daemon.temp, Daemon.target]
        | upload =>
          simp only at opens
          split at opens
          · cases List.mem_singleton.mp opens
          · cases opens
    · cases opens

/-- If a download is only scheduled while none that meets it is on its way, no file of a
repository and no temporary file has two sessions, and a temporary file that no download
brings to two daemons is opened by one thread only. -/
theorem single_writer (reached : Reach Site.Initial
      (Guarded (Runs (Site.next rt)) (fun s e => s.solitary e = true)) s) :
    (∀ repoID path, s.active.countP
      (fun x => x.1 = repoID ∧ normalizePath x.2 = normalizePath path) ≤ 1) ∧
    ∀ place, s.active.countP (place ∈ s.host.temps ·) ≤ 1 ∧
      ((∀ x, (s.host.temps x).count place ≤ 1) → (s.host.writers place).length ≤ 1) ∧
      ∀ d msg env path, (d, msg) ∈ s.host.inbox →
        .openWrite path ∈ (handleIpcMessage rt d env msg).1 → placeOf path = place →
        (d, msg) ∈ s.host.writers place := by
  have single : s.Single := by
    refine reach_invariant Site.Single (fun _ => Site.single_initial) ?_ reached
    rintro s e t before ⟨moved, good⟩
    cases e with
    | host e => exact single_host before moved good
    | session i ok => exact single_session before moved
  refine ⟨fun repoID path => (single.sessions _ ?_).bounded, fun place => ⟨?_, ?_, ?_⟩⟩
  · intro x y first second
    obtain ⟨repo, file⟩ := of_decide_eq_true first
    obtain ⟨repo', file'⟩ := of_decide_eq_true second
    exact decide_eq_true (Or.inl ⟨repo.trans repo'.symm, file.trans file'.symm⟩)
  · refine (single.sessions _ ?_).bounded
    exact fun x y first second =>
      meet_of_temps (of_decide_eq_true first) (of_decide_eq_true second)
  · exact fun lone => (single.writers place 1 lone).bounded
  · rintro d msg env path told opens rfl
    exact mem_writers told opens

end Step

def startedSite : Site := ⟨Host.started "b" "r" "/r" ["a"], []⟩

theorem startedSite_initial : startedSite.Initial :=
  ⟨Host.started_initial "b" "r" "/r" ["a"], rfl⟩

def fetchRun : List SiteEvent :=
  [.host (.message 5 "a" (.fileMetadataUpdate "r" ⟨"f", "h", 4096, 1, 4, false, 420, none⟩)
      ⟨true, none, .ok 40000, .whole, true⟩),
    .host .queueRound, .host (.execute 0 true),
    .host (.message 6 "a" (.fileResponse ⟨"f", "h", "", "", 40000, ""⟩) Env.fine)]

def refetchRun : List SiteEvent :=
  fetchRun ++ [.session 0 true, .host (.daemon 0 (DaemonEnv.fine [])), .session 0 false] ++ fetchRun

theorem single_writer_refetchRun : ∃ s : Site,
    (s.sessions.map (·.status) = [.failed, .preparing] ∧ s.active = [("r", "f")] ∧
      s.host.daemons = [⟨"r", "/r"⟩]) ∧ (s.host.writers (placeOf "/r/f.tmp")).length ≤ 1 := by
  obtain ⟨s, reached, state⟩ := reach_of_replay (Site.next .plain)
    (fun s e => s.solitary e = true) (.start startedSite_initial) refetchRun
    (fun s => s.sessions.map (·.status) = [.failed, .preparing] ∧ s.active = [("r", "f")] ∧
      s.host.daemons = [⟨"r", "/r"⟩]) (by decide +kernel)
  refine ⟨s, state, ((single_writer reached).2 (placeOf "/r/f.tmp")).2.1 fun x => ?_⟩
  rw [s.host.count_temps, state.2.2]
  exact List.countP_le_length

def doubledRun : List SiteEvent := fetchRun ++ [.session 0 true] ++ fetchRun

/-- The file is not there yet, so it is fetched a second time: two threads of one
daemon write the same temporary file. -/
theorem doubled_sessions : ∃ s : Site,
    Reach Site.Initial (Guarded (Runs (Site.next .plain))
      (fun _ _ => True)) s ∧
    s.host.disk (placeOf "/r/f") = none ∧
    s.sessions.map (fun x => (x.slot, x.status)) =
      [(("r", "f"), .streaming), (("r", "f"), .preparing)] ∧
    s.host.daemons = [⟨"r", "/r"⟩] ∧ (s.host.writers (placeOf "/r/f.tmp")).length = 2 :=
  reach_of_replay (Site.next .plain) (fun _ _ => True) (.start startedSite_initial)
    doubledRun (fun s => s.host.disk (placeOf "/r/f") = none ∧
      s.sessions.map (fun x => (x.slot, x.status)) =
        [(("r", "f"), .streaming), (("r", "f"), .preparing)] ∧
      s.host.daemons = [⟨"r", "/r"⟩] ∧ (s.host.writers (placeOf "/r/f.tmp")).length = 2)
    (by decide +kernel)

end P2PSync
