import P2PSync.Sessions

/-! Two repositories on one machine. Rows and queues are kept by repository; the
list of requests is not, and a response names no repository. A run is compared
with one that never hears of the other repository. -/
namespace P2PSync

open Transition

/-! What is done for a repository. -/

inductive Deed where
  | requested (peerID path hash : String)
  | wrote (path hash : String)
  deriving DecidableEq, Repr

def Output.requested : Output → List Deed
  | .sendToPeer peerID (.fileRequest payload) => [.requested peerID payload.path payload.hash]
  | _ => []

def Output.wrote (rt : Runtime) (repoID : String) : Output → List Deed
  | .writeFile owner path data _ written =>
    if owner = repoID then
      ((written.content data).map (fun content => .wrote path (rt.sha256 content))).toList
    else []
  | _ => []

def FileEffect.wrote (rt : Runtime) : FileEffect → List Deed
  | .replaced path data => [.wrote path (rt.sha256 data)]
  | _ => []

def IpcMessage.fetchesFor (repoID : String) : IpcMessage → Bool
  | .prepareFileTransfer _ owner _ _ _ .download _ => owner = repoID
  | _ => false

namespace Host

def deeds (rt : Runtime) (repoID : String) (h : Host) : HostEvent → List Deed
  | .message now peerID msg env =>
    (handleP2PMessage rt h.sc now env peerID msg).out.flatMap (Output.wrote rt repoID)
  | .execute i sent => h.running[i]?.elim [] (fun task =>
      if task.repoID = repoID then (executeSyncTask h.sc sent task).2.flatMap Output.requested else [])
  | .daemon i env => h.inbox[i]?.elim [] (fun x =>
      if x.2.fetchesFor repoID then (handleIpcMessage rt x.1 env x.2).2.wrote rt else [])
  | _ => []

/-- The repository of a message. A response belongs to the one whose download it
ends; a request from a peer belongs to none. -/
def owner (h : Host) : P2PMessage → Option String
  | .fileMetadataUpdate repoID _ => some repoID
  | .fileRequest _ => none
  | .fileResponse payload =>
    (h.sc.pendingDownloads.lookup (pendingKey (clean payload.path) payload.hash)).map (·.repoID)

def foreign (repoID : String) (h : Host) : HostEvent → Bool
  | .message _ _ msg _ => (h.owner msg).any (· ≠ repoID)
  | _ => false

def heard (repoID : String) (h : Host) : HostEvent → List HostEvent
  | .message now peerID msg env =>
    if h.foreign repoID (.message now peerID msg env) then [] else [.message now peerID msg env]
  | _ => []

/-- An update of the repository meets no request of another one under its key, and
no task of another one is executed while its key is requested for the repository. -/
def undisturbed (repoID : String) (h : Host) : HostEvent → Bool
  | .message _ _ (.fileMetadataUpdate owner u) _ =>
    owner ≠ repoID ∨
      (h.sc.pendingDownloads.lookup (pendingKey u.path u.hash)).all (·.repoID = repoID)
  | .execute i _ => h.running[i]?.all (fun task => task.repoID = repoID ∨
      (h.sc.pendingDownloads.lookup (pendingKey task.filePath task.hash)).all (·.repoID ≠ repoID))
  | _ => true

end Host

def HostEvent.remote : HostEvent → Bool
  | .fileChanged .. | .resolve .. => false
  | _ => true

structure Course where
  host : Host
  heard : List HostEvent
  deeds : List Deed

def Course.next (rt : Runtime) (repoID : String) (c : Course) (e : HostEvent) : Option Course :=
  (c.host.next rt e).map fun host =>
    ⟨host, c.heard ++ c.host.heard repoID e, c.deeds ++ c.host.deeds rt repoID e⟩

/-! The parts of a machine that belong to a repository. -/

section Parts

variable (r : String)

structure SharesQueue (q q' : SyncQueue) : Prop where
  tasks : q'.queues.lookup r = q.queues.lookup r
  repos : q'.repos = if r ∈ q.repos then [r] else []
  placed : q.Placed
  entered : ∀ x ∈ q.repos, x ∈ q.queues

def SharesRequests (p p' : AList fun _ : String => PendingDownload) : Prop :=
  ∀ key, p'.lookup key = (p.lookup key).filter (·.repoID = r)

structure SharesRows (d d' : DB) : Prop where
  repositories : d'.repositories = d.repositories
  rows : ∀ path, d'.get r path = d.get r path

structure Shares (h g : SyncCoordinator) : Prop where
  named : g.localPeerID = h.localPeerID
  connections : g.connections = h.connections
  semaphores : g.repoSemaphores = h.repoSemaphores
  rows : SharesRows r h.db g.db
  queue : SharesQueue r h.queue g.queue
  requests : SharesRequests r h.pendingDownloads g.pendingDownloads

def ownTask (t : SyncTask) : Bool := t.repoID = r

def ownFetch (x : Daemon × IpcMessage) : Bool := x.2.fetchesFor r

structure Mirror (h g : Host) : Prop where
  sc : Shares r h.sc g.sc
  daemons : g.daemons = h.daemons
  running : g.running.filter (ownTask r) = h.running.filter (ownTask r)
  timers : g.timers.filter (ownTask r) = h.timers.filter (ownTask r)
  inbox : g.inbox.filter (ownFetch r) = h.inbox.filter (ownFetch r)

end Parts

theorem SyncQueue.Placed.insert {q : SyncQueue} (placed : q.Placed) {s : String}
    {ts : List SyncTask} (own : ∀ t ∈ ts, t.repoID = s) (n : Nat) :
    ({ q with queues := q.queues.insert s ts, nextRepo := n } : SyncQueue).Placed := by
  intro x t mem
  by_cases same : x = s
  · subst same
    rw [SyncQueue.tasks, AList.lookup_insert] at mem
    exact own t mem
  · rw [SyncQueue.tasks, AList.lookup_insert_ne same] at mem
    exact placed x t mem

theorem SyncQueue.lookup_push_other (s : TaskSort) (q : SyncQueue) {t : SyncTask} {x : String}
    (other : x ≠ t.repoID) : (q.push s t).queues.lookup x = q.queues.lookup x := by
  unfold SyncQueue.push
  split
  · exact AList.lookup_insert_ne other
  · split
    · rfl
    · exact AList.lookup_insert_ne other

theorem SyncQueue.lookup_push_congr (s : TaskSort) {q q' : SyncQueue} {t : SyncTask}
    (same : q'.queues.lookup t.repoID = q.queues.lookup t.repoID) :
    (q'.push s t).queues.lookup t.repoID = (q.push s t).queues.lookup t.repoID := by
  unfold SyncQueue.push
  rw [same]
  cases found : q.queues.lookup t.repoID with
  | none => rw [AList.lookup_insert, AList.lookup_insert]
  | some ts =>
    dsimp only
    split
    · exact same
    · rw [AList.lookup_insert, AList.lookup_insert]

theorem SyncQueue.repos_push (s : TaskSort) (q : SyncQueue) (t : SyncTask) :
    (q.push s t).repos = if t.repoID ∈ q.queues then q.repos else q.repos ++ [t.repoID] := by
  unfold SyncQueue.push
  cases found : q.queues.lookup t.repoID with
  | none => rw [if_neg (AList.lookup_eq_none.mp found)]
  | some ts =>
    have known : t.repoID ∈ q.queues := AList.lookup_isSome.mp (by rw [found]; rfl)
    rw [if_pos known]
    dsimp only
    split <;> rfl

theorem SyncQueue.entered_push (s : TaskSort) {q : SyncQueue}
    (entered : ∀ x ∈ q.repos, x ∈ q.queues) (t : SyncTask) :
    ∀ x ∈ (q.push s t).repos, x ∈ (q.push s t).queues := by
  unfold SyncQueue.push
  split
  · intro x mem
    apply (AList.mem_insert _).mpr
    rcases List.mem_append.mp mem with old | new
    · exact Or.inr (entered x old)
    · exact Or.inl (List.mem_singleton.mp new)
  · split
    · exact entered
    · exact fun x mem => (AList.mem_insert _).mpr (Or.inr (entered x mem))

section Queue

variable {r : String} {q q' : SyncQueue} (shares : SharesQueue r q q')
include shares

theorem SharesQueue.tasks_eq : q'.tasks r = q.tasks r := by
  rw [SyncQueue.tasks, SyncQueue.tasks, shares.tasks]

theorem SharesQueue.insert_own (ts : List SyncTask) (placed : ∀ t ∈ ts, t.repoID = r) (n n' : Nat) :
    SharesQueue r { q with queues := q.queues.insert r ts, nextRepo := n }
      { q' with queues := q'.queues.insert r ts, nextRepo := n' } where
  tasks := by rw [AList.lookup_insert, AList.lookup_insert]
  repos := shares.repos
  placed := shares.placed.insert placed n
  entered := fun x mem => (AList.mem_insert _).mpr (Or.inr (shares.entered x mem))

theorem SharesQueue.insert_other {s : String} (other : s ≠ r) (ts : List SyncTask)
    (placed : ∀ t ∈ ts, t.repoID = s) (n : Nat) :
    SharesQueue r { q with queues := q.queues.insert s ts, nextRepo := n } q' where
  tasks := by rw [AList.lookup_insert_ne other.symm, shares.tasks]
  repos := shares.repos
  placed := shares.placed.insert placed n
  entered := fun x mem => (AList.mem_insert _).mpr (Or.inr (shares.entered x mem))

theorem SharesQueue.requeue_own {t : SyncTask} (own : t.repoID = r) :
    SharesQueue r (q.requeue t) (q'.requeue t) := by
  subst own
  rw [SyncQueue.requeue, SyncQueue.requeue, shares.tasks_eq]
  refine shares.insert_own _ ?_ q.nextRepo q'.nextRepo
  intro t' mem
  rcases List.mem_cons.mp mem with rfl | old
  · rfl
  · exact shares.placed _ t' old

theorem SharesQueue.requeue_other {t : SyncTask} (other : t.repoID ≠ r) :
    SharesQueue r (q.requeue t) q' := by
  refine shares.insert_other other _ ?_ q.nextRepo
  intro t' mem
  rcases List.mem_cons.mp mem with rfl | old
  · rfl
  · exact shares.placed _ t' old

theorem SharesQueue.push_own (s : TaskSort) {t : SyncTask} (own : t.repoID = r) :
    SharesQueue r (q.push s t) (q'.push s t) := by
  subst own
  refine ⟨SyncQueue.lookup_push_congr s shares.tasks, ?_, shares.placed.push s t,
    SyncQueue.entered_push s shares.entered t⟩
  have known : t.repoID ∈ q'.queues ↔ t.repoID ∈ q.queues := by
    rw [← AList.lookup_isSome, ← AList.lookup_isSome, shares.tasks]
  rw [SyncQueue.repos_push, SyncQueue.repos_push]
  by_cases here : t.repoID ∈ q.queues
  · rw [if_pos here, if_pos (known.mpr here)]
    exact shares.repos
  · have missing : t.repoID ∉ q.repos := fun mem => here (shares.entered _ mem)
    rw [if_neg here, if_neg (known.not.mpr here), shares.repos, if_neg missing]
    simp

theorem SharesQueue.push_other (s : TaskSort) {t : SyncTask} (other : t.repoID ≠ r) :
    SharesQueue r (q.push s t) q' := by
  refine ⟨?_, ?_, shares.placed.push s t, SyncQueue.entered_push s shares.entered t⟩
  · rw [SyncQueue.lookup_push_other s q other.symm]
    exact shares.tasks
  · have listed : r ∈ (q.push s t).repos ↔ r ∈ q.repos := by
      rw [SyncQueue.repos_push]
      split
      · rfl
      · simp [other.symm]
    rw [shares.repos]
    simp only [listed]

theorem SharesQueue.pop_own {t : SyncTask} {p : SyncQueue} (popped : q.pop = some (t, p))
    (own : t.repoID = r) : ∃ p', q'.pop = some (t, p') ∧ SharesQueue r p p' := by
  obtain ⟨x, listed, rest, n, waiting, rfl⟩ := SyncQueue.pop_some popped
  obtain rfl : x = r := own ▸ (shares.placed x t (waiting ▸ List.mem_cons_self)).symm
  have repos := shares.repos
  rw [if_pos listed] at repos
  have here : q'.popAt 0 = some (t, { q' with queues := q'.queues.insert x rest, nextRepo := 0 }) := by
    simp [SyncQueue.popAt, repos, shares.tasks_eq, waiting]
  refine ⟨_, ?_, shares.insert_own rest ?_ n 0⟩
  · simpa [SyncQueue.pop, repos, List.range_succ, Nat.mod_one] using here
  · intro t' mem
    exact shares.placed x t' (waiting ▸ List.mem_cons_of_mem _ mem)

theorem SharesQueue.pop_other {t : SyncTask} {p : SyncQueue} (popped : q.pop = some (t, p))
    (other : t.repoID ≠ r) : SharesQueue r p q' := by
  obtain ⟨x, listed, rest, n, waiting, rfl⟩ := SyncQueue.pop_some popped
  have placed := shares.placed x
  obtain rfl := placed t (waiting ▸ List.mem_cons_self)
  refine shares.insert_other other rest ?_ n
  intro t' mem
  exact placed t' (waiting ▸ List.mem_cons_of_mem _ mem)

end Queue

section Requests

variable {r : String} {p p' : AList fun _ : String => PendingDownload} (shares : SharesRequests r p p')
include shares

theorem SharesRequests.insert_own (key : String) {details : PendingDownload}
    (own : details.repoID = r) :
    SharesRequests r (p.insert key details) (p'.insert key details) := by
  intro other
  by_cases same : other = key
  · subst same
    rw [AList.lookup_insert, AList.lookup_insert]
    exact (if_pos (decide_eq_true own)).symm
  · rw [AList.lookup_insert_ne same, AList.lookup_insert_ne same]
    exact shares other

theorem SharesRequests.erase_own (key : String) :
    SharesRequests r (p.erase key) (p'.erase key) := by
  intro other
  by_cases same : other = key
  · subst same
    rw [AList.lookup_erase, AList.lookup_erase]
    rfl
  · rw [AList.lookup_erase_ne same, AList.lookup_erase_ne same]
    exact shares other

theorem SharesRequests.absent {key : String}
    (others : (p.lookup key).all (·.repoID ≠ r) = true) : p'.lookup key = none := by
  rw [shares key, Option.filter_eq_none_iff]
  intro details found
  rw [found] at others
  simpa using others

theorem SharesRequests.insert_other {key : String} {details : PendingDownload}
    (other : details.repoID ≠ r) (others : (p.lookup key).all (·.repoID ≠ r) = true) :
    SharesRequests r (p.insert key details) p' := by
  intro key'
  by_cases same : key' = key
  · subst same
    rw [shares.absent others, AList.lookup_insert]
    exact (if_neg (fun own => other (of_decide_eq_true own))).symm
  · rw [AList.lookup_insert_ne same]
    exact shares key'

theorem SharesRequests.erase_other {key : String}
    (others : (p.lookup key).all (·.repoID ≠ r) = true) : SharesRequests r (p.erase key) p' := by
  intro key'
  by_cases same : key' = key
  · subst same
    rw [shares.absent others, AList.lookup_erase]
    rfl
  · rw [AList.lookup_erase_ne same]
    exact shares key'

theorem SharesRequests.found {key : String} {details : PendingDownload}
    (own : details.repoID = r) : p'.lookup key = some details ↔ p.lookup key = some details := by
  rw [shares key, Option.filter_eq_some_iff]
  simp [own]

end Requests

section Rows

variable {r : String} {d d' : DB} (shares : SharesRows r d d')
include shares

theorem SharesRows.save_own (now : Int) {m : FileMetadata} (own : m.repositoryID = r) :
    SharesRows r ((d.save now m).getD d) ((d'.save now m).getD d') := by
  by_cases known : m.repositoryID ∈ d.repositories
  · obtain ⟨db, saved⟩ := DB.save_known known now
    obtain ⟨db', saved'⟩ := DB.save_known (shares.repositories ▸ known) now
    rw [saved, saved', Option.getD_some, Option.getD_some]
    refine ⟨?_, fun path => ?_⟩
    · rw [(DB.save_some saved).2.1, (DB.save_some saved').2.1, shares.repositories]
    · by_cases here : path = m.filepath
      · rw [here, ← own, DB.get_save_self saved, DB.get_save_self saved']
      · have other : (r, path) ≠ (m.repositoryID, m.filepath) := fun h => here (Prod.mk.inj h).2
        rw [DB.get_save_other saved other, DB.get_save_other saved' other, shares.rows]
  · have unknown : m.repositoryID ∉ d'.repositories := by rwa [shares.repositories]
    rw [DB.save_unknown known, DB.save_unknown unknown]
    exact shares

theorem SharesRows.save_other (now : Int) {m : FileMetadata} (other : m.repositoryID ≠ r) :
    SharesRows r ((d.save now m).getD d) d' := by
  cases saved : d.save now m with
  | none => exact shares
  | some db =>
    refine ⟨?_, fun path => ?_⟩
    · rw [Option.getD_some, (DB.save_some saved).2.1, shares.repositories]
    · rw [Option.getD_some, DB.get_save_other saved (fun h => other (Prod.mk.inj h).1.symm),
        shares.rows]

theorem SharesRows.hardDelete_own (file : String) :
    SharesRows r (d.hardDelete r file) (d'.hardDelete r file) := by
  refine ⟨shares.repositories, fun path => ?_⟩
  by_cases here : path = file
  · rw [here, DB.get_hardDelete_self, DB.get_hardDelete_self]
  · have other : (r, path) ≠ (r, file) := fun h => here (Prod.mk.inj h).2
    rw [DB.get_hardDelete_other _ other, DB.get_hardDelete_other _ other, shares.rows]

theorem SharesRows.hardDelete_other {s : String} (other : s ≠ r) (file : String) :
    SharesRows r (d.hardDelete s file) d' := by
  refine ⟨shares.repositories, fun path => ?_⟩
  rw [DB.get_hardDelete_other _ (fun h => other (Prod.mk.inj h).1.symm), shares.rows]

theorem SharesRows.getRepository (repoID : String) :
    d'.getRepository repoID = d.getRepository repoID := by
  rw [DB.getRepository, DB.getRepository, shares.repositories]

end Rows

section Handlers

variable {rt : Runtime} {r : String} {h g : SyncCoordinator} (shares : Shares r h g)
include shares

theorem Shares.decision (peerID : String) (u : Update) :
    P2PSync.decision g peerID r u = P2PSync.decision h peerID r u := by
  rw [P2PSync.decision, P2PSync.decision, shares.rows.rows]
  cases h.db.get r u.path <;> simp only [ownVersion, shares.named]

theorem Shares.downloads {missing : Bool} {peerID : String} {u : Update}
    (own : (h.pendingDownloads.lookup (pendingKey u.path u.hash)).all (·.repoID = r) = true) :
    P2PSync.downloads g missing peerID r u = P2PSync.downloads h missing peerID r u := by
  have asked : pendingKey u.path u.hash ∈ g.pendingDownloads ↔
      pendingKey u.path u.hash ∈ h.pendingDownloads := by
    rw [← AList.lookup_isSome, ← AList.lookup_isSome, shares.requests]
    cases found : h.pendingDownloads.lookup (pendingKey u.path u.hash) with
    | none => rfl
    | some details =>
      rw [found] at own
      have same : details.repoID = r := by simpa using own
      simp [same]
  have waiting : g.queue.hasPending r u.path u.hash = h.queue.hasPending r u.path u.hash := by
    rw [SyncQueue.hasPending, SyncQueue.hasPending, shares.queue.tasks_eq]
  simp only [P2PSync.downloads, shares.decision, waiting, asked, shares.rows.rows,
    shares.rows.getRepository]

omit shares in
theorem peer_semaphores (rt : Runtime) (sc : SyncCoordinator) (now : Int) (missing : Bool)
    (peerID repoID : String) (u : Update) :
    (handlePeerMetadataUpdate rt sc now missing peerID repoID u).1.repoSemaphores =
      sc.repoSemaphores := by
  have merged : (mergeRemoteClock sc u).repoSemaphores = sc.repoSemaphores := by
    unfold mergeRemoteClock
    split <;> rfl
  cases heard : ignoredPath u.path with
  | true => rw [peer_ignored rt now missing heard]
  | false =>
    cases action : (P2PSync.decision sc peerID repoID u).action with
    | acceptRemote =>
      simp only [peer_accept rt now missing heard action, applyAccept]
      split_ifs <;> exact merged
    | keepLocal => simp only [peer_keep rt now missing heard action, merged]
    | skip =>
      simp only [peer_skip rt now missing heard action, applySkip]
      split_ifs <;> exact merged

theorem Shares.update_own (now : Int) (missing : Bool) (peerID : String) {u : Update}
    (own : (h.pendingDownloads.lookup (pendingKey u.path u.hash)).all (·.repoID = r) = true) :
    Shares r (handlePeerMetadataUpdate rt h now missing peerID r u).1
      (handlePeerMetadataUpdate rt g now missing peerID r u).1 := by
  obtain ⟨named, -, connections, -⟩ := peer_frame rt h now missing peerID r u
  obtain ⟨named', -, connections', -⟩ := peer_frame rt g now missing peerID r u
  constructor
  · rw [named, named', shares.named]
  · rw [connections, connections', shares.connections]
  · rw [peer_semaphores, peer_semaphores, shares.semaphores]
  · rw [handlePeerMetadataUpdate_db, handlePeerMetadataUpdate_db, shares.decision]
    split
    · exact shares.rows.save_own now rfl
    · exact shares.rows
  · rw [update_queue, update_queue, shares.downloads own]
    split
    · exact shares.queue.push_own rt.sort rfl
    · exact shares.queue
  · rw [(peer_queue rt h now missing peerID r u).1, (peer_queue rt g now missing peerID r u).1]
    exact shares.requests

theorem Shares.update_other (now : Int) (missing : Bool) (peerID : String) {s : String}
    (other : s ≠ r) (u : Update) :
    Shares r (handlePeerMetadataUpdate rt h now missing peerID s u).1 g := by
  obtain ⟨named, -, connections, -⟩ := peer_frame rt h now missing peerID s u
  constructor
  · rw [named, shares.named]
  · rw [connections, shares.connections]
  · rw [peer_semaphores, shares.semaphores]
  · rw [handlePeerMetadataUpdate_db]
    split
    · exact shares.rows.save_other now other
    · exact shares.rows
  · rw [update_queue]
    split
    · exact shares.queue.push_other rt.sort other
    · exact shares.queue
  · rw [(peer_queue rt h now missing peerID s u).1]
    exact shares.requests

theorem Shares.taken_own (path hash : String) : Shares r (h.taken path hash) (g.taken path hash) :=
  { shares with requests := shares.requests.erase_own _ }

theorem Shares.consumes {peerID : String} {payload : FileResponsePayload}
    {details : PendingDownload} (own : details.repoID = r) :
    Consumes g peerID payload details ↔ Consumes h peerID payload details := by
  rw [Consumes, Consumes, shares.connections, shares.requests.found own]

theorem Shares.inlineData (path : String) (payload : FileResponsePayload)
    (details : PendingDownload) :
    P2PSync.inlineData rt g path payload details = P2PSync.inlineData rt h path payload details := by
  simp only [P2PSync.inlineData, shares.rows.getRepository]

theorem Shares.inlineMeta (now : Int) (path : String) {details : PendingDownload}
    (own : details.repoID = r) (data : Content) (hash : String) :
    P2PSync.inlineMeta g.db now path details data hash =
      P2PSync.inlineMeta h.db now path details data hash := by
  simp only [P2PSync.inlineMeta, own, shares.rows.rows]

theorem Shares.response_own (rt : Runtime) {peerID : String} {payload : FileResponsePayload}
    {details : PendingDownload} (consumed : Consumes h peerID payload details)
    (own : details.repoID = r) (now : Int) (env : Env) :
    (handleFileResponse rt g now env peerID payload).out =
        (handleFileResponse rt h now env peerID payload).out ∧
      Shares r (handleFileResponse rt h now env peerID payload).sc
        (handleFileResponse rt g now env peerID payload).sc := by
  have taken := shares.taken_own (clean payload.path) payload.hash
  rw [response_consumed consumed rt now env,
    response_consumed ((shares.consumes own).mpr consumed) rt now env]
  split
  · rw [writeInline_eq, writeInline_eq, taken.inlineData]
    cases P2PSync.inlineData rt (h.taken (clean payload.path) payload.hash) (clean payload.path)
      payload details with
    | none => exact ⟨rfl, taken⟩
    | some x =>
      refine ⟨rfl, ?_⟩
      cases env.wrote with
      | false => exact taken
      | true =>
        simp only [if_true, taken.inlineMeta now _ own]
        exact { taken with rows := taken.rows.save_own now own }
  · obtain ⟨state, out⟩ := beginStream_eq (h.taken (clean payload.path) payload.hash) env peerID
      (clean payload.path) payload details
    obtain ⟨state', out'⟩ := beginStream_eq (g.taken (clean payload.path) payload.hash) env peerID
      (clean payload.path) payload details
    refine ⟨out'.trans out.symm, ?_⟩
    rw [state, state']
    split
    · subst own
      exact { taken with rows := taken.rows.hardDelete_own _ }
    · exact taken

theorem Shares.response_other {peerID : String} {payload : FileResponsePayload}
    {details : PendingDownload} (consumed : Consumes h peerID payload details)
    (other : details.repoID ≠ r) (now : Int) (env : Env) :
    Shares r (handleFileResponse rt h now env peerID payload).sc g := by
  have taken : Shares r (h.taken (clean payload.path) payload.hash) g := by
    refine { shares with requests := shares.requests.erase_other ?_ }
    rw [consumed.2.2.2]
    simpa using other
  rw [response_consumed consumed rt now env]
  split
  · rw [writeInline_eq]
    split
    · exact taken
    · cases env.wrote with
      | false => exact taken
      | true => exact { taken with rows := taken.rows.save_other now other }
  · rw [(beginStream_eq _ _ _ _ _ _).1]
    split
    · exact { taken with rows := taken.rows.hardDelete_other other _ }
    · exact taken

theorem Shares.execute_own (sent : Bool) {task : SyncTask} (own : task.repoID = r) :
    (executeSyncTask g sent task).2 = (executeSyncTask h sent task).2 ∧
      Shares r (executeSyncTask h sent task).1 (executeSyncTask g sent task).1 := by
  have connected : task.peerID ∉ g.connections ↔ task.peerID ∉ h.connections := by
    rw [shares.connections]
  unfold executeSyncTask
  cases task.type with
  | upload => exact ⟨rfl, shares⟩
  | download =>
    by_cases gone : task.peerID ∉ h.connections
    · simp only [if_pos gone, if_pos (connected.mpr gone)]
      exact ⟨trivial, { shares with queue := shares.queue.requeue_own own }⟩
    · simp only [if_neg gone, if_neg (connected.not.mpr gone)]
      cases sent with
      | true => exact ⟨rfl, { shares with requests := shares.requests.insert_own _ own }⟩
      | false => exact ⟨rfl, { shares with
          queue := shares.queue.requeue_own own
          requests := shares.requests.erase_own _ }⟩

theorem Shares.execute_other (sent : Bool) {task : SyncTask} (other : task.repoID ≠ r)
    (apart : (h.pendingDownloads.lookup (pendingKey task.filePath task.hash)).all
      (·.repoID ≠ r) = true) : Shares r (executeSyncTask h sent task).1 g := by
  unfold executeSyncTask
  cases task.type with
  | upload => exact shares
  | download =>
    by_cases gone : task.peerID ∉ h.connections
    · simp only [if_pos gone]
      exact { shares with queue := shares.queue.requeue_other other }
    · simp only [if_neg gone]
      cases sent with
      | true => exact { shares with requests := shares.requests.insert_other other apart }
      | false => exact { shares with
          queue := shares.queue.requeue_other other
          requests := shares.requests.erase_other apart }

end Handlers

/-! What the outputs start for a repository. -/

def ownTimers (r : String) (out : List Output) : List SyncTask :=
  (out.flatMap Output.timers).filter (ownTask r)

def ownMail (r : String) (out : List Output) : List IpcMessage :=
  (out.flatMap Output.mail).filter (·.fetchesFor r)

structure Output.Spared (rt : Runtime) (r : String) (o : Output) : Prop where
  wrote : o.wrote rt r = []
  timers : ∀ t ∈ o.timers, t.repoID ≠ r
  mail : ∀ msg ∈ o.mail, msg.fetchesFor r = false

def Spares (rt : Runtime) (r : String) (out : List Output) : Prop := ∀ o ∈ out, o.Spared rt r

theorem spared_send (rt : Runtime) (r peerID : String) (msg : P2PMessage) :
    (Output.sendToPeer peerID msg).Spared rt r :=
  ⟨rfl, fun _ mem => (List.not_mem_nil mem).elim, fun _ mem => (List.not_mem_nil mem).elim⟩

theorem spared_read (rt : Runtime) (r repoID path : String) :
    (Output.readFile repoID path).Spared rt r :=
  ⟨rfl, fun _ mem => (List.not_mem_nil mem).elim, fun _ mem => (List.not_mem_nil mem).elim⟩

theorem spared_mail (rt : Runtime) {r : String} {msg : IpcMessage}
    (other : msg.fetchesFor r = false) : (Output.sendIpc msg).Spared rt r := by
  refine ⟨rfl, fun _ mem => (List.not_mem_nil mem).elim, fun msg' mem => ?_⟩
  rw [List.mem_singleton.mp mem]
  exact other

section Outputs

variable {rt : Runtime} {r : String} {out : List Output} (spares : Spares rt r out)
include spares

theorem Spares.wrote : out.flatMap (Output.wrote rt r) = [] :=
  List.flatMap_eq_nil_iff.mpr (fun o mem => (spares o mem).wrote)

theorem Spares.timers : ownTimers r out = [] := by
  apply List.filter_eq_nil_iff.mpr
  intro t mem own
  obtain ⟨o, inside, timer⟩ := List.mem_flatMap.mp mem
  exact (spares o inside).timers t timer (of_decide_eq_true own)

theorem Spares.mail : ownMail r out = [] := by
  apply List.filter_eq_nil_iff.mpr
  intro msg mem own
  obtain ⟨o, inside, sent⟩ := List.mem_flatMap.mp mem
  rw [(spares o inside).mail msg sent] at own
  cases own

end Outputs

section

variable (rt : Runtime) (r : String) (sc : SyncCoordinator) (env : Env) (peerID : String)

theorem spares_update (now : Int) (missing : Bool) (peerID repoID : String) (u : Update) :
    Spares rt r (handlePeerMetadataUpdate rt sc now missing peerID repoID u).2 := by
  intro o sent
  rcases peer_sends rt now missing sent with ⟨msg, rfl⟩ | ⟨-, -, m, -, rfl⟩
  · apply spared_mail
    rcases peer_ipc rt now missing sent with ⟨versions, rfl⟩ | ⟨-, -, -, rfl⟩ <;> rfl
  · exact spared_send rt r _ _

theorem spares_request (payload : FileRequestPayload) :
    Spares rt r (handleFileRequest sc env peerID payload).out := by
  intro o out
  rcases (handleFileRequest_spec sc env peerID payload).2 o out with
    ⟨response, rfl⟩ | ⟨-, m, base, -, -, rfl | rfl⟩
  · exact spared_send rt r _ _
  · exact spared_read rt r _ _
  · exact spared_mail rt rfl

theorem spares_response {rt : Runtime} {r : String} {sc : SyncCoordinator} {peerID : String}
    {payload : FileResponsePayload} {details : PendingDownload}
    (consumed : Consumes sc peerID payload details) (other : details.repoID ≠ r) (now : Int)
    (env : Env) : Spares rt r (handleFileResponse rt sc now env peerID payload).out := by
  intro o out
  obtain ⟨details', consumed', why⟩ := response_out out
  cases Option.some.inj (consumed.2.2.2.symm.trans consumed'.2.2.2)
  rcases why with ⟨data, repo, -, rfl⟩ | ⟨-, -, rfl⟩ | ⟨-, rfl⟩
  · refine ⟨?_, fun _ mem => (List.not_mem_nil mem).elim, fun _ mem => (List.not_mem_nil mem).elim⟩
    simp [Output.wrote, other]
  · apply spared_mail
    simpa [IpcMessage.fetchesFor] using other
  · refine ⟨rfl, fun t mem => ?_, fun _ mem => (List.not_mem_nil mem).elim⟩
    rw [List.mem_singleton.mp mem]
    exact other

theorem spares_nil : Spares rt r [] := fun _ mem => by cases mem

theorem spares_execute (sent : Bool) (task : SyncTask) :
    Spares rt r (executeSyncTask sc sent task).2 := by
  rcases executeSyncTask_cases sc sent task with same | ⟨pending, -, same⟩ | same <;> rw [same]
  · exact spares_nil rt r
  · exact spares_nil rt r
  · intro o mem
    rw [List.mem_singleton.mp mem]
    exact spared_send rt r _ _

theorem spares_connect : Spares rt r (syncAllRepositoriesWithPeer sc peerID) := by
  intro o mem
  obtain ⟨repo, -, sent⟩ := List.mem_flatMap.mp mem
  obtain ⟨m, -, rfl⟩ := List.mem_map.mp sent
  exact spared_send rt r _ _

theorem mail_fetches (daemons : List Daemon) (msgs : List IpcMessage) :
    (msgs.flatMap (fun msg => daemons.map (·, msg))).filter (ownFetch r) =
      (msgs.filter (·.fetchesFor r)).flatMap (fun msg => daemons.map (·, msg)) := by
  induction msgs with
  | nil => rfl
  | cons msg rest ih =>
    rw [List.flatMap_cons, List.filter_append, ih, List.filter_cons]
    cases own : msg.fetchesFor r with
    | true =>
      have all : (daemons.map (·, msg)).filter (ownFetch r) = daemons.map (·, msg) := by
        apply List.filter_eq_self.mpr
        intro x mem
        obtain ⟨d, -, rfl⟩ := List.mem_map.mp mem
        exact own
      rw [all, if_pos rfl, List.flatMap_cons]
    | false =>
      have none : (daemons.map (·, msg)).filter (ownFetch r) = [] := by
        apply List.filter_eq_nil_iff.mpr
        intro x mem fetch
        obtain ⟨d, -, rfl⟩ := List.mem_map.mp mem
        exact absurd (own.symm.trans fetch) Bool.false_ne_true
      rw [none, if_neg Bool.false_ne_true, List.nil_append]

end

section

variable {rt : Runtime} {r : String} {h g : Host} (mirror : Mirror r h g) {out : List Output}

include mirror

theorem Mirror.performAll {out' : List Output} (timers : ownTimers r out' = ownTimers r out)
    (mail : ownMail r out' = ownMail r out) : Mirror r (h.performAll out) (g.performAll out') := by
  obtain ⟨running₁, timers₁, inbox₁⟩ := h.performAll_rest out
  obtain ⟨running₂, timers₂, inbox₂⟩ := g.performAll_rest out'
  constructor
  · rw [Host.performAll_sc, Host.performAll_sc]
    exact mirror.sc
  · rw [Host.performAll_daemons, Host.performAll_daemons]
    exact mirror.daemons
  · rw [running₁, running₂]
    exact mirror.running
  · rw [timers₁, timers₂, List.filter_append, List.filter_append, mirror.timers]
    exact congrArg _ timers
  · rw [inbox₁, inbox₂, List.filter_append, List.filter_append, mirror.inbox, mail_fetches,
      mail_fetches, mirror.daemons]
    exact congrArg (fun msgs => h.inbox.filter (ownFetch r) ++
      msgs.flatMap (fun msg => h.daemons.map (·, msg))) mail

theorem Mirror.spared (quiet : Spares rt r out) : Mirror r (h.performAll out) g := by
  have both : Mirror r (h.performAll out) (g.performAll []) :=
    mirror.performAll quiet.timers.symm quiet.mail.symm
  exact both

theorem Mirror.applied (effect : FileEffect) : Mirror r (h.applyEffect effect) g := by
  cases effect <;>
    exact ⟨mirror.sc, mirror.daemons, mirror.running, mirror.timers, mirror.inbox⟩

theorem Mirror.applied_both (effect : FileEffect) :
    Mirror r (h.applyEffect effect) (g.applyEffect effect) := by
  cases effect <;>
    exact ⟨mirror.sc, mirror.daemons, mirror.running, mirror.timers, mirror.inbox⟩

end

/-! The steps of the two machines. -/

inductive Matched (rt : Runtime) (r : String) (h g : Host) (e : HostEvent) (h' : Host) : Prop where
  | skipped : Mirror r h' g → h.heard r e = [] → h.deeds rt r e = [] → Matched rt r h g e h'
  | followed (e' : HostEvent) (g' : Host) : g.next rt e' = some g' → e'.remote = true →
      g.foreign r e' = false → Mirror r h' g' → g.heard r e' = h.heard r e →
      g.deeds rt r e' = h.deeds rt r e → Matched rt r h g e h'

section Steps

variable {rt : Runtime} {r : String} {h g h' : Host} (mirror : Mirror r h g)
include mirror

theorem Mirror.answered {sc sc' : SyncCoordinator} (shares : Shares r sc sc') (peerID : String)
    (msg : P2PMessage) :
    Mirror r { h.answered peerID msg with sc := sc } { g.answered peerID msg with sc := sc' } := by
  cases msg <;> exact { mirror with sc := shares }

theorem Mirror.answered_other {sc : SyncCoordinator} (shares : Shares r sc g.sc) (peerID : String)
    (msg : P2PMessage) : Mirror r { h.answered peerID msg with sc := sc } g := by
  cases msg <;> exact { mirror with sc := shares }

section

variable {now : Int} {peerID : String} {payload : FileResponsePayload} {env : Env}

theorem match_message {msg : P2PMessage} {env : Env}
    (moved : h.next rt (.message now peerID msg env) = some h')
    (own : h.foreign r (.message now peerID msg env) = false)
    (own' : g.foreign r (.message now peerID msg env) = false)
    (shares : Shares r (handleP2PMessage rt h.sc now env peerID msg).sc
      (handleP2PMessage rt g.sc now env peerID msg).sc)
    (same : (handleP2PMessage rt g.sc now env peerID msg).out =
        (handleP2PMessage rt h.sc now env peerID msg).out ∨
      Spares rt r (handleP2PMessage rt g.sc now env peerID msg).out ∧
        Spares rt r (handleP2PMessage rt h.sc now env peerID msg).out) :
    Matched rt r h g (.message now peerID msg env) h' := by
  cases moved
  refine .followed (.message now peerID msg env) _ rfl rfl own' ?_ ?_ ?_
  · refine (mirror.answered shares peerID msg).performAll ?_ ?_
    · rcases same with same | ⟨quiet, quiet'⟩
      · rw [same]
      · rw [quiet.timers, quiet'.timers]
    · rcases same with same | ⟨quiet, quiet'⟩
      · rw [same]
      · rw [quiet.mail, quiet'.mail]
  · simp only [Host.heard, own, own']
  · simp only [Host.deeds]
    rcases same with same | ⟨quiet, quiet'⟩
    · rw [same]
    · rw [quiet.wrote, quiet'.wrote]

theorem match_foreign {msg : P2PMessage} {env : Env}
    (moved : h.next rt (.message now peerID msg env) = some h')
    (other : h.foreign r (.message now peerID msg env) = true)
    (shares : Shares r (handleP2PMessage rt h.sc now env peerID msg).sc g.sc)
    (quiet : Spares rt r (handleP2PMessage rt h.sc now env peerID msg).out) :
    Matched rt r h g (.message now peerID msg env) h' := by
  cases moved
  refine .skipped ?_ ?_ quiet.wrote
  · exact (mirror.answered_other shares peerID msg).spared quiet
  · simp only [Host.heard, other, if_true]

theorem match_update {repoID : String} {u : Update} {env : Env}
    (moved : h.next rt (.message now peerID (.fileMetadataUpdate repoID u) env) = some h')
    (calm : h.undisturbed r (.message now peerID (.fileMetadataUpdate repoID u) env) = true) :
    Matched rt r h g (.message now peerID (.fileMetadataUpdate repoID u) env) h' := by
  by_cases own : repoID = r
  · subst own
    have alone : (h.sc.pendingDownloads.lookup (pendingKey u.path u.hash)).all
        (·.repoID = repoID) = true := by
      simpa [Host.undisturbed] using calm
    apply match_message mirror moved
    · simp [Host.foreign, Host.owner]
    · simp [Host.foreign, Host.owner]
    · exact mirror.sc.update_own now env.missing peerID alone
    · exact Or.inr ⟨spares_update rt repoID g.sc now env.missing peerID repoID u,
        spares_update rt repoID h.sc now env.missing peerID repoID u⟩
  · apply match_foreign mirror moved
    · simpa [Host.foreign, Host.owner] using own
    · exact mirror.sc.update_other now env.missing peerID own u
    · exact spares_update rt r h.sc now env.missing peerID repoID u

theorem match_request {payload : FileRequestPayload} {env : Env}
    (moved : h.next rt (.message now peerID (.fileRequest payload) env) = some h') :
    Matched rt r h g (.message now peerID (.fileRequest payload) env) h' := by
  apply match_message mirror moved
  · rfl
  · rfl
  · simp only [handleP2PMessage, (handleFileRequest_spec _ env peerID payload).1]
    exact mirror.sc
  · exact Or.inr ⟨spares_request rt r g.sc env peerID payload,
      spares_request rt r h.sc env peerID payload⟩

theorem match_answer (moved : h.next rt (.message now peerID (.fileResponse payload) env) = some h')
    {details : PendingDownload} (consumed : Consumes h.sc peerID payload details) :
    Matched rt r h g (.message now peerID (.fileResponse payload) env) h' := by
  have found := consumed.2.2.2
  by_cases own : details.repoID = r
  · have found' := ((mirror.sc.consumes own).mpr consumed).2.2.2
    obtain ⟨out, shares⟩ := mirror.sc.response_own rt consumed own now env
    apply match_message mirror moved
    · simpa [Host.foreign, Host.owner, found] using own
    · simpa [Host.foreign, Host.owner, found'] using own
    · exact shares
    · exact Or.inl out
  · apply match_foreign mirror moved
    · simpa [Host.foreign, Host.owner, found] using own
    · exact mirror.sc.response_other consumed own now env
    · exact spares_response consumed own now env

theorem Mirror.request_own {key : String} {details : PendingDownload}
    (found : g.sc.pendingDownloads.lookup key = some details) : details.repoID = r := by
  rw [mirror.sc.requests key, Option.filter_eq_some_iff] at found
  exact of_decide_eq_true found.2

theorem match_response
    (moved : h.next rt (.message now peerID (.fileResponse payload) env) = some h') :
    Matched rt r h g (.message now peerID (.fileResponse payload) env) h' := by
  by_cases consumed : ∃ details, Consumes h.sc peerID payload details
  · obtain ⟨details, consumed⟩ := consumed
    exact match_answer mirror moved consumed
  · -- neither machine has a request that the response ends
    obtain ⟨same, silent⟩ := response_ignored (fun d c => consumed ⟨d, c⟩) rt now env
    have ignored : ∀ details, ¬ Consumes g.sc peerID payload details := by
      intro details consumed'
      have own := mirror.request_own consumed'.2.2.2
      exact consumed ⟨details, (mirror.sc.consumes own).mp consumed'⟩
    obtain ⟨same', silent'⟩ := response_ignored ignored rt now env
    cases foreign : h.foreign r (.message now peerID (.fileResponse payload) env) with
    | true =>
      apply match_foreign mirror moved foreign
      · rw [handleP2PMessage, same]
        exact mirror.sc
      · rw [handleP2PMessage, silent]
        exact spares_nil rt r
    | false =>
      apply match_message mirror moved foreign
      · simp only [Host.foreign, Host.owner]
        cases found : g.sc.pendingDownloads.lookup (pendingKey (clean payload.path) payload.hash) with
        | none => rfl
        | some details => simp [mirror.request_own found]
      · rw [handleP2PMessage, handleP2PMessage, same, same']
        exact mirror.sc
      · rw [handleP2PMessage, handleP2PMessage, silent, silent']
        exact Or.inl rfl

theorem match_queueRound (moved : h.next rt .queueRound = some h') :
    Matched rt r h g .queueRound h' := by
  obtain rfl := Host.next_queueRound moved
  cases popped : h.sc.queue.pop with
  | none =>
    refine .skipped ?_ rfl rfl
    simp only [queueRound, popped, Option.toList_none, List.append_nil]
    exact mirror
  | some x =>
    obtain ⟨task, queue⟩ := x
    by_cases own : task.repoID = r
    · obtain ⟨queue', popped', shares⟩ := mirror.sc.queue.pop_own popped own
      refine .followed .queueRound _ rfl rfl rfl ?_ rfl rfl
      have semaphores : task.repoID ∈ g.sc.repoSemaphores ↔ task.repoID ∈ h.sc.repoSemaphores := by
        rw [mirror.sc.semaphores]
      by_cases free : task.repoID ∈ h.sc.repoSemaphores
      · simp only [queueRound, popped, popped', if_pos free, if_pos (semaphores.mpr free)]
        refine { mirror with sc := { mirror.sc with queue := shares }, running := ?_ }
        simp only [List.filter_append, mirror.running]
      · simp only [queueRound, popped, popped', if_neg free, if_neg (semaphores.not.mpr free)]
        refine { mirror with
          sc := { mirror.sc with queue := shares.requeue_own own }, running := ?_ }
        simp only [Option.toList_none, List.append_nil, mirror.running]
    · have shares := mirror.sc.queue.pop_other popped own
      refine .skipped ?_ rfl rfl
      simp only [queueRound, popped]
      split
      · refine { mirror with sc := { mirror.sc with queue := shares }, running := ?_ }
        have none : [task].filter (ownTask r) = [] := by simp [ownTask, own]
        simp only [Option.toList_some, List.filter_append, none, List.append_nil, mirror.running]
      · refine { mirror with
          sc := { mirror.sc with queue := shares.requeue_other own }, running := ?_ }
        simp only [Option.toList_none, List.append_nil, mirror.running]

theorem match_execute {i : Nat} {sent : Bool} (moved : h.next rt (.execute i sent) = some h')
    (calm : h.undisturbed r (.execute i sent) = true) : Matched rt r h g (.execute i sent) h' := by
  simp only [Host.next, Option.map_eq_some_iff] at moved
  obtain ⟨task, at_, rfl⟩ := moved
  by_cases own : task.repoID = r
  · obtain ⟨j, at', rest⟩ := filter_match mirror.running at_ (decide_eq_true own)
    obtain ⟨out, shares⟩ := mirror.sc.execute_own sent own
    have step : g.next rt (.execute j sent) = some (({ g with
        sc := (executeSyncTask g.sc sent task).1
        running := g.running.eraseIdx j } : Host).performAll (executeSyncTask g.sc sent task).2) := by
      simp only [Host.next, at', Option.map_some]
    refine .followed (.execute j sent) _ step rfl rfl ?_ rfl ?_
    · have base : Mirror r
          { h with sc := (executeSyncTask h.sc sent task).1, running := h.running.eraseIdx i }
          { g with sc := (executeSyncTask g.sc sent task).1, running := g.running.eraseIdx j } :=
        { mirror with sc := shares, running := rest }
      apply base.performAll
      · rw [out]
      · rw [out]
    · simp only [Host.deeds, at_, at', Option.elim_some, own, if_true, out]
  · have apart : (h.sc.pendingDownloads.lookup (pendingKey task.filePath task.hash)).all
        (·.repoID ≠ r) = true := by
      simpa [Host.undisturbed, at_, own] using calm
    have base : Mirror r
        { h with sc := (executeSyncTask h.sc sent task).1, running := h.running.eraseIdx i } g :=
      { mirror with
        sc := mirror.sc.execute_other sent own apart
        running := by
          rw [mirror.running]
          exact (filter_eraseIdx_of_neg at_ (decide_eq_false own)).symm }
    have quiet := spares_execute rt r h.sc sent task
    refine .skipped ?_ rfl ?_
    · exact base.spared quiet
    · simp only [Host.deeds, at_, Option.elim_some, own, if_false]

theorem match_retry {i : Nat} {now : Int} (moved : h.next rt (.retry i now) = some h') :
    Matched rt r h g (.retry i now) h' := by
  simp only [Host.next, Option.map_eq_some_iff] at moved
  obtain ⟨task, at_, rfl⟩ := moved
  by_cases own : task.repoID = r
  · obtain ⟨j, at', rest⟩ := filter_match mirror.timers at_ (decide_eq_true own)
    refine .followed (.retry j now) _ (by rw [Host.next, at']; rfl) rfl rfl ?_ rfl
      rfl
    exact { mirror with
      sc := { mirror.sc with queue := mirror.sc.queue.push_own rt.sort own }
      timers := rest }
  · refine .skipped ?_ rfl rfl
    exact { mirror with
      sc := { mirror.sc with queue := mirror.sc.queue.push_other rt.sort own }
      timers := by
        rw [mirror.timers]
        exact (filter_eraseIdx_of_neg at_ (decide_eq_false own)).symm }

theorem match_daemon {i : Nat} {env : DaemonEnv} (moved : h.next rt (.daemon i env) = some h') :
    Matched rt r h g (.daemon i env) h' := by
  simp only [Host.next, Option.map_eq_some_iff] at moved
  obtain ⟨x, at_, rfl⟩ := moved
  cases own : ownFetch r x with
  | true =>
    obtain ⟨j, at', rest⟩ := filter_match mirror.inbox at_ own
    have base : Mirror r { h with inbox := h.inbox.eraseIdx i }
        { g with inbox := g.inbox.eraseIdx j } := { mirror with inbox := rest }
    refine .followed (.daemon j env) _ (by rw [Host.next, at']; rfl) rfl rfl
      (base.applied_both _) rfl ?_
    simp only [Host.deeds, at_, at', Option.elim_some]
  | false =>
    have base : Mirror r { h with inbox := h.inbox.eraseIdx i } g :=
      { mirror with
        inbox := by
          rw [mirror.inbox]
          exact (filter_eraseIdx_of_neg at_ own).symm }
    refine .skipped (base.applied _) rfl ?_
    have other : x.2.fetchesFor r = false := own
    simp only [Host.deeds, at_, Option.elim_some, other, Bool.false_eq_true, if_false]

theorem match_connect (moved : h.next rt (.connect peerID) = some h') :
    Matched rt r h g (.connect peerID) h' := by
  cases moved
  refine .followed (.connect peerID) _ rfl rfl rfl ?_ rfl rfl
  have base : Mirror r
      { h with sc := { h.sc with connections := h.sc.connections.insert peerID } }
      { g with sc := { g.sc with connections := g.sc.connections.insert peerID } } :=
    { mirror with sc := { mirror.sc with connections := by rw [mirror.sc.connections] } }
  have quiet := spares_connect rt r
    { h.sc with connections := h.sc.connections.insert peerID } peerID
  have quiet' := spares_connect rt r
    { g.sc with connections := g.sc.connections.insert peerID } peerID
  apply base.performAll
  · rw [quiet.timers, quiet'.timers]
  · rw [quiet.mail, quiet'.mail]

theorem match_disconnect (moved : h.next rt (.disconnect peerID) = some h') :
    Matched rt r h g (.disconnect peerID) h' := by
  cases moved
  refine .followed (.disconnect peerID) _ rfl rfl rfl ?_ rfl rfl
  exact { mirror with sc := { mirror.sc with connections := by rw [mirror.sc.connections] } }

end

theorem match_next {e : HostEvent} (moved : h.next rt e = some h') (remote : e.remote = true)
    (calm : h.undisturbed r e = true) : Matched rt r h g e h' := by
  cases e with
  | message now peerID msg env =>
    cases msg with
    | fileMetadataUpdate repoID u => exact match_update mirror moved calm
    | fileRequest payload => exact match_request mirror moved
    | fileResponse payload => exact match_response mirror moved
  | queueRound => exact match_queueRound mirror moved
  | execute i sent => exact match_execute mirror moved calm
  | retry i now => exact match_retry mirror moved
  | daemon i env => exact match_daemon mirror moved
  | connect peerID => exact match_connect mirror moved
  | disconnect peerID => exact match_disconnect mirror moved
  | fileChanged => cases remote
  | resolve => cases remote

end Steps

/-! Whole runs. -/

theorem mirror_initial {h : Host} (initial : h.Initial) (r : String) : Mirror r h h := by
  obtain ⟨queue, pending⟩ := initial.fresh
  refine ⟨⟨rfl, rfl, rfl, ⟨rfl, fun _ => rfl⟩, ?_, ?_⟩, rfl, rfl, rfl, rfl⟩
  · rw [queue]
    exact ⟨rfl, rfl, fun _ _ mem => (List.not_mem_nil mem).elim,
      fun _ mem => (List.not_mem_nil mem).elim⟩
  · rw [pending]
    exact fun _ => rfl

structure SameWork (r : String) (h g : Host) : Prop where
  queued : g.sc.queue.tasks r = h.sc.queue.tasks r
  running : g.running.filter (ownTask r) = h.running.filter (ownTask r)
  timers : g.timers.filter (ownTask r) = h.timers.filter (ownTask r)
  requests : ∀ key, (g.sc.pendingDownloads.lookup key).filter (·.repoID = r) =
    (h.sc.pendingDownloads.lookup key).filter (·.repoID = r)
  inbox : g.inbox.filter (ownFetch r) = h.inbox.filter (ownFetch r)

theorem Mirror.sameWork {r : String} {h g : Host} (mirror : Mirror r h g) : SameWork r h g where
  queued := mirror.sc.queue.tasks_eq
  running := mirror.running
  timers := mirror.timers
  requests := by
    intro key
    rw [mirror.sc.requests key, Option.filter_filter]
    simp only [Bool.and_self]
  inbox := mirror.inbox

/-- Some run in which no message is for another repository hears the same messages
of the repository, does the same for it and leaves the same to do. -/
def Independent (rt : Runtime) (r : String) (h : Host) (c : Course) : Prop :=
  ∃ c', Reach (· = ⟨h, [], []⟩) (Guarded
      (Runs (Course.next rt r))
      (fun c e => e.remote = true ∧ c.host.foreign r e = false)) c' ∧
    c'.heard = c.heard ∧ c'.deeds = c.deeds ∧ SameWork r c.host c'.host

/-- What the user does not do depends on other repositories only through the keys
of the requests. -/
theorem repository_independent {rt : Runtime} {r : String} {h : Host} (initial : h.Initial)
    {c : Course} (reached : Reach (· = ⟨h, [], []⟩) (Guarded
      (Runs (Course.next rt r))
      (fun c e => e.remote = true ∧ c.host.undisturbed r e = true)) c) : Independent rt r h c := by
  have simulated : ∃ c', Reach (· = ⟨h, [], []⟩) (Guarded
      (Runs (Course.next rt r))
      (fun c e => e.remote = true ∧ c.host.foreign r e = false)) c' ∧
      Mirror r c.host c'.host ∧ c'.heard = c.heard ∧ c'.deeds = c.deeds := by
    refine reach_simulated
      (fun c c' : Course => Mirror r c.host c'.host ∧ c'.heard = c.heard ∧ c'.deeds = c.deeds)
      ?_ ?_ reached
    · rintro s rfl
      exact ⟨_, rfl, mirror_initial initial r, rfl, rfl⟩
    · rintro c e after c' ⟨mirror, heard, deeds⟩ ⟨moved, remote, calm⟩
      obtain ⟨host, step, rfl⟩ := Option.map_eq_some_iff.mp moved
      cases match_next mirror step remote calm with
      | skipped mirror' silent idle =>
        refine Or.inl ⟨mirror', ?_, ?_⟩
        · rw [silent, List.append_nil, heard]
        · rw [idle, List.append_nil, deeds]
      | followed e' host' step' remote' own mirror' said did =>
        refine Or.inr ⟨e', ⟨host', c'.heard ++ c'.host.heard r e', c'.deeds ++ c'.host.deeds rt r e'⟩,
          ⟨?_, remote', own⟩, mirror', ?_, ?_⟩
        · exact Option.map_eq_some_iff.mpr ⟨host', step', rfl⟩
        · rw [heard, said]
        · rw [deeds, did]
  obtain ⟨c', reached', mirror, heard, deeds⟩ := simulated
  exact ⟨c', reached', heard, deeds, mirror.sameWork⟩

/-! A request of another repository in the way. -/

def pairHost : Host where
  sc := { addRepository (addRepository (.new "b") 0 "r" "/r") 0 "s" "/s" with connections := ["a"] }
  daemons := [⟨"r", "/r"⟩, ⟨"s", "/s"⟩]
  disk := fun _ => none
  running := []
  timers := []
  requests := []
  inbox := []

theorem pairHost_initial : pairHost.Initial where
  idle := ⟨rfl, rfl, rfl, rfl⟩
  fresh := ⟨rfl, rfl⟩
  watched := by
    intro d mem
    rcases List.mem_cons.mp mem with rfl | mem
    · exact ⟨⟨"r", "/r", .active, 0, 0⟩, by decide, rfl⟩
    · cases List.mem_singleton.mp mem
      exact ⟨⟨"s", "/s", .active, 0, 0⟩, by decide, rfl⟩

def smallFile : Update := ⟨"f", "#A", 1, 1, 4, false, 420, none⟩

def announcement (repoID : String) : HostEvent :=
  .message 5 "a" (.fileMetadataUpdate repoID smallFile) Env.fine

def content : HostEvent := .message 6 "a" (.fileResponse ⟨"f", "#A", "A", "", 0, ""⟩) Env.fine

theorem pair_start (repoID : String) (ok : Course → HostEvent → Prop) :
    Reach (· = ⟨pairHost, [], []⟩)
      (Guarded (Runs (Course.next .plain repoID)) ok) ⟨pairHost, [], []⟩ :=
  .start rfl

theorem repository_independent_turns : ∃ c : Course,
    c.deeds = [.requested "a" "f" "#A", .wrote "/r/f" "#A"] ∧ Independent .plain "r" pairHost c := by
  obtain ⟨c, reached, deeds⟩ := reach_of_replay (Course.next .plain "r")
    (fun c e => e.remote = true ∧ c.host.undisturbed "r" e = true) (pair_start "r" _)
    [announcement "s", .queueRound, .execute 0 true, content,
      announcement "r", .queueRound, .execute 0 true, content]
    (fun c => c.deeds = [.requested "a" "f" "#A", .wrote "/r/f" "#A"]) (by decide +kernel)
  exact ⟨c, deeds, repository_independent pairHost_initial reached⟩

def Host.Waits (r : String) (h : Host) : Prop :=
  ∃ t, t.type = .download ∧ t.repoID = r ∧ (t ∈ h.sc.queue.tasks r ∨ t ∈ h.running)

section Waits

variable {rt : Runtime} {r : String} {h h' : Host}

theorem waits_queueRound (waits : h.Waits r) (moved : h.next rt .queueRound = some h') :
    h'.Waits r := by
  obtain rfl := Host.next_queueRound moved
  obtain ⟨t, type, own, there⟩ := waits
  unfold queueRound
  cases popped : h.sc.queue.pop with
  | none => exact ⟨t, type, own, there.imp id (List.mem_append_left _)⟩
  | some x =>
    obtain ⟨task, queue⟩ := x
    obtain ⟨from_, first, others⟩ := SyncQueue.tasks_pop popped
    have left : t ∈ h.sc.queue.tasks r → t = task ∨ t ∈ queue.tasks r := by
      intro waiting
      by_cases here : r = from_
      · subst here
        rw [first] at waiting
        exact List.mem_cons.mp waiting
      · rw [others r here]
        exact Or.inr waiting
    dsimp only
    split
    · refine ⟨t, type, own, ?_⟩
      rcases there with waiting | running
      · rcases left waiting with rfl | later
        · exact Or.inr (List.mem_append_right _ List.mem_cons_self)
        · exact Or.inl later
      · exact Or.inr (List.mem_append_left _ running)
    · refine ⟨t, type, own, ?_⟩
      rcases there with waiting | running
      · left
        rcases left waiting with rfl | later
        · exact own ▸ SyncQueue.mem_requeue queue t
        · exact SyncQueue.subset_requeue queue task r later
      · exact Or.inr (List.mem_append_left _ running)

theorem executed_download (sc : SyncCoordinator) (sent : Bool) {task : SyncTask}
    (type : task.type = .download) :
    (executeSyncTask sc sent task).1.queue = sc.queue.requeue task ∨
      (executeSyncTask sc sent task).2 =
        [.sendToPeer task.peerID (.fileRequest ⟨task.filePath, task.hash⟩)] := by
  simp only [executeSyncTask, type]
  by_cases gone : task.peerID ∉ sc.connections
  · rw [if_pos gone]
    exact Or.inl rfl
  · rw [if_neg gone]
    cases sent with
    | true => exact Or.inr rfl
    | false => exact Or.inl rfl

theorem waits_execute (waits : h.Waits r) {i : Nat} {sent : Bool}
    (moved : h.next rt (.execute i sent) = some h') :
    h'.Waits r ∨ h.deeds rt r (.execute i sent) ≠ [] := by
  simp only [Host.next, Option.map_eq_some_iff] at moved
  obtain ⟨task, at_, rfl⟩ := moved
  obtain ⟨t, type, own, there⟩ := waits
  have frame := Host.performAll_sc
    { h with sc := (executeSyncTask h.sc sent task).1, running := h.running.eraseIdx i }
    (executeSyncTask h.sc sent task).2
  have running := (Host.performAll_rest
    { h with sc := (executeSyncTask h.sc sent task).1, running := h.running.eraseIdx i }
    (executeSyncTask h.sc sent task).2).1
  have queue : h.sc.queue.tasks r ⊆ (executeSyncTask h.sc sent task).1.queue.tasks r := by
    rcases executeSyncTask_cases h.sc sent task with same | ⟨pending, -, same⟩ | same <;> rw [same]
    · exact fun _ mem => mem
    · exact SyncQueue.subset_requeue h.sc.queue task r
    · exact fun _ mem => mem
  rcases there with waiting | started
  · exact Or.inl ⟨t, type, own, Or.inl (by rw [frame]; exact queue waiting)⟩
  · by_cases here : t = task
    · subst here
      rcases executed_download h.sc sent type with back | asked
      · left
        refine ⟨t, type, own, Or.inl ?_⟩
        rw [frame]
        exact own ▸ back ▸ SyncQueue.mem_requeue h.sc.queue t
      · right
        simp [Host.deeds, at_, own, asked, Output.requested]
    · left
      refine ⟨t, type, own, Or.inr ?_⟩
      rw [running]
      exact ((mem_eraseIdx_or at_).mp started).resolve_left here

theorem waits_next (waits : h.Waits r) {e : HostEvent} (moved : h.next rt e = some h')
    (remote : e.remote = true) (silent : h.heard r e = []) (own : h.foreign r e = false) :
    h'.Waits r ∨ h.deeds rt r e ≠ [] := by
  cases e with
  | message now peerID msg env =>
    rw [Host.heard, own] at silent
    cases silent
  | queueRound => exact Or.inl (waits_queueRound waits moved)
  | execute i sent => exact waits_execute waits moved
  | retry i now =>
    simp only [Host.next, Option.map_eq_some_iff] at moved
    obtain ⟨task, -, rfl⟩ := moved
    obtain ⟨t, type, mine, there⟩ := waits
    refine Or.inl ⟨t, type, mine, there.imp (fun mem => ?_) id⟩
    exact (SyncQueue.tasks_push rt.sort h.sc.queue _ r).1 mem
  | daemon i env =>
    simp only [Host.next, Option.map_eq_some_iff] at moved
    obtain ⟨x, -, rfl⟩ := moved
    obtain ⟨sc, -, running, -⟩ := Host.applyEffect_frame
      { h with inbox := h.inbox.eraseIdx i } (handleIpcMessage rt x.1 env x.2).2
    left
    rw [Host.Waits, sc, running]
    exact waits
  | connect peerID =>
    cases moved
    left
    rw [Host.Waits, Host.performAll_sc, (Host.performAll_rest _ _).1]
    exact waits
  | disconnect peerID =>
    cases moved
    exact Or.inl waits
  | fileChanged => cases remote
  | resolve => cases remote

end Waits

structure Expecting (c : Course) : Prop where
  blank : c.heard = [] → c.host.running = [] ∧ c.host.timers = [] ∧
    ∃ connections, c.host.sc = { pairHost.sc with connections := connections }
  told : c.heard = [announcement "r"] → c.host.Waits "r" ∨ c.deeds ≠ []

theorem expecting_blank {h after : Host} {e : HostEvent} (running : h.running = [])
    (timers : h.timers = [])
    (blank : ∃ connections, h.sc = { pairHost.sc with connections := connections })
    (moved : h.next .plain e = some after) (remote : e.remote = true) (silent : h.heard "r" e = [])
    (own : h.foreign "r" e = false) : after.running = [] ∧ after.timers = [] ∧
      ∃ connections, after.sc = { pairHost.sc with connections := connections } := by
  cases e with
  | message now peerID msg env =>
    rw [Host.heard, own] at silent
    cases silent
  | queueRound =>
    obtain ⟨connections, sc⟩ := blank
    have empty : h.sc.queue.pop = none := by
      rw [sc]
      rfl
    have round : queueRound h.sc = (h.sc, none) := by simp only [queueRound, empty]
    obtain rfl := Host.next_queueRound moved
    simp only [round, Option.toList_none, List.append_nil]
    exact ⟨running, timers, connections, sc⟩
  | execute i sent => simp [Host.next, running] at moved
  | retry i now => simp [Host.next, timers] at moved
  | daemon i env =>
    simp only [Host.next, Option.map_eq_some_iff] at moved
    obtain ⟨x, -, rfl⟩ := moved
    obtain ⟨sc, -, running', timers', -⟩ := Host.applyEffect_frame
      { h with inbox := h.inbox.eraseIdx i } (handleIpcMessage .plain x.1 env x.2).2
    rw [sc, running', timers']
    exact ⟨running, timers, blank⟩
  | connect peerID =>
    obtain ⟨connections, sc⟩ := blank
    cases moved
    obtain ⟨running', timers', -⟩ := Host.performAll_rest
      { h with sc := { h.sc with connections := h.sc.connections.insert peerID } }
      (syncAllRepositoriesWithPeer { h.sc with connections := h.sc.connections.insert peerID } peerID)
    rw [running', timers', (tame_connect _ peerID).timers, Host.performAll_sc, sc]
    exact ⟨running, by rw [timers]; rfl, _, rfl⟩
  | disconnect peerID =>
    obtain ⟨connections, sc⟩ := blank
    cases moved
    exact ⟨running, timers, _, by rw [sc]⟩
  | fileChanged => cases remote
  | resolve => cases remote

theorem expecting_announced {h after : Host}
    (blank : ∃ connections, h.sc = { pairHost.sc with connections := connections })
    (moved : h.next .plain (announcement "r") = some after) : after.Waits "r" := by
  obtain ⟨connections, sc⟩ := blank
  cases moved
  have wanted : downloads h.sc false "a" "r" smallFile = true := by
    have same : downloads { pairHost.sc with connections := connections } false "a" "r" smallFile =
        downloads pairHost.sc false "a" "r" smallFile := rfl
    rw [sc, same]
    decide +kernel
  have queue : (handlePeerMetadataUpdate .plain h.sc 5 false "a" "r" smallFile).1.queue =
      h.sc.queue.push Runtime.plain.sort (downloadTask "a" "r" smallFile) := by
    rw [update_queue, wanted, if_pos rfl]
  have added := SyncQueue.push_added Runtime.plain.sort (q := h.sc.queue)
    (rfl : (downloadTask "a" "r" smallFile).type = .download) (by rw [sc]; rfl)
  refine ⟨downloadTask "a" "r" smallFile, rfl, rfl, Or.inl ?_⟩
  rw [Host.performAll_sc]
  exact queue ▸ added.1

theorem expecting_next {c after : Course} {e : HostEvent} (before : Expecting c)
    (moved : c.next .plain "r" e = some after) (remote : e.remote = true)
    (own : c.host.foreign "r" e = false) : Expecting after := by
  obtain ⟨host, step, rfl⟩ := Option.map_eq_some_iff.mp moved
  constructor
  · intro silent
    obtain ⟨old, quiet⟩ := List.append_eq_nil_iff.mp silent
    obtain ⟨running, timers, blank⟩ := before.blank old
    exact expecting_blank running timers blank step remote quiet own
  · intro heard
    rcases List.append_eq_singleton_iff.mp heard with ⟨old, new⟩ | ⟨old, quiet⟩
    · -- the announcement is this message
      left
      obtain ⟨-, -, blank⟩ := before.blank old
      have here : e = announcement "r" := by
        unfold Host.heard at new
        split at new
        · rw [own] at new
          exact List.singleton_injective new
        · cases new
      subst here
      exact expecting_announced blank step
    · rcases before.told old with waits | done
      · rcases waits_next waits step remote quiet own with waits' | done
        · exact Or.inl waits'
        · exact Or.inr (fun none => done (List.append_eq_nil_iff.mp none).2)
      · exact Or.inr (fun none => done (List.append_eq_nil_iff.mp none).1)

/-- The other repository has asked for the same path and hash: the file is never
asked for, and nothing is left that could. -/
theorem pending_key_interferes : ∃ c : Course,
    Reach (· = ⟨pairHost, [], []⟩) (Guarded
      (Runs (Course.next .plain "r")) (fun _ e => e.remote = true)) c ∧
    ¬ Independent .plain "r" pairHost c := by
  cases followed : replay (Course.next .plain "r") (fun _ e => e.remote = true)
      ⟨pairHost, [], []⟩ [announcement "s", .queueRound, .execute 0 true, announcement "r"] with
  | none =>
    have goes : (replay (Course.next .plain "r") (fun _ e => e.remote = true)
        ⟨pairHost, [], []⟩ [announcement "s", .queueRound, .execute 0 true, announcement "r"]).isSome =
        true := by decide +kernel
    rw [followed] at goes
    cases goes
  | some c =>
    have ends : (replay (Course.next .plain "r") (fun _ e => e.remote = true)
        ⟨pairHost, [], []⟩ [announcement "s", .queueRound, .execute 0 true, announcement "r"]).map
          (fun c => (c.heard, c.deeds, c.host.sc.queue.tasks "r", c.host.running)) =
        some ([announcement "r"], [], [], []) := rfl
    rw [followed] at ends
    obtain ⟨heard, deeds, queued, running⟩ : c.heard = [announcement "r"] ∧ c.deeds = [] ∧
        c.host.sc.queue.tasks "r" = [] ∧ c.host.running = [] := by
      simpa using ends
    refine ⟨c, reach_replay (pair_start "r" _) _ followed, ?_⟩
    rintro ⟨c', reached, heard', deeds', work⟩
    have expecting : Expecting c' := by
      refine reach_invariant Expecting ?_ ?_ reached
      · rintro s rfl
        exact ⟨fun _ => ⟨rfl, rfl, ["a"], rfl⟩, fun heard => by cases heard⟩
      · rintro s e t before ⟨moved, remote, own⟩
        exact expecting_next before moved remote own
    rcases expecting.told (heard'.trans heard) with ⟨t, -, own, there⟩ | done
    · rcases there with waiting | started
      · rw [work.queued, queued] at waiting
        cases waiting
      · have mem : t ∈ c'.host.running.filter (ownTask "r") :=
          List.mem_filter.mpr ⟨started, decide_eq_true own⟩
        rw [work.running, running] at mem
        cases mem
    · exact done (deeds'.trans deeds)

end P2PSync
