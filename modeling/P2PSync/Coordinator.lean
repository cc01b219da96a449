import P2PSync.Protocol
import P2PSync.Store

/-! The sync coordinator: its state and the handlers of local changes, of peer updates
and of conflict decisions. A handler returns the new state and what it sends or does to
files, in order. What it learns from its surroundings is an argument; times are Unix
milliseconds. -/
namespace P2PSync

structure PendingDownload where
  size : Int
  repoID : String
  mode : Nat
  peerID : String
  retries : Nat
  deriving DecidableEq, Repr

structure SyncCoordinator where
  localPeerID : String
  db : DB
  queue : SyncQueue
  workers : List String
  repoSemaphores : List String
  pendingDownloads : AList fun _ : String => PendingDownload
  lamportClock : LamportClock
  vectorClock : VectorClock
  connections : List String

def SyncCoordinator.new (localPeerID : String) : SyncCoordinator :=
  ⟨localPeerID, .empty, .new, [], [], ∅, ⟨0⟩, .new, []⟩

/-- The path is the one that resolving symlinks gave. The start of the worker's
scan and of its daemon are events of their own. -/
def addRepository (sc : SyncCoordinator) (now : Int) (repoID cleanedPath : String) :
    SyncCoordinator :=
  { sc with
    db := sc.db.saveRepository now ⟨repoID, cleanedPath, .active, now / 1000, now / 1000⟩
    workers := sc.workers.insert repoID
    repoSemaphores := sc.repoSemaphores.insert repoID }

/-- None is the error of the store; then nothing changes. The semaphore stays. -/
def removeRepository (sc : SyncCoordinator) (repoID : String) : Option SyncCoordinator :=
  (sc.db.deleteRepository repoID).map fun db =>
    { sc with
      db := db
      workers := sc.workers.filter (· ≠ repoID)
      queue := sc.queue.removeRepository repoID }

def SameSetup (a b : SyncCoordinator) : Prop :=
  a.localPeerID = b.localPeerID ∧ a.workers = b.workers ∧ a.db.repositories = b.db.repositories

theorem SameSetup.trans {a b c : SyncCoordinator} (first : SameSetup a b) (second : SameSetup b c) :
    SameSetup a c :=
  ⟨first.1.trans second.1, first.2.1.trans second.2.1, first.2.2.trans second.2.2⟩

/-- What comes of os.WriteFile: the file cannot be opened, or it is emptied and some
or all of the bytes get in. -/
inductive Written where
  | refused
  | torn (n : Nat)
  | whole
  deriving DecidableEq

def Written.content (data : Content) : Written → Option Content
  | .refused => none
  | .torn n => some (data.take n)
  | .whole => some data

/-- What a handler sends or does; a file operation is listed with the repository
it is made for. -/
inductive Output where
  | sendToPeer (peerID : String) (msg : P2PMessage)
  | broadcast (msg : P2PMessage)
  | sendIpc (msg : IpcMessage)
  | readFile (repoID path : String)
  | writeFile (repoID path : String) (data : Content) (mode : Nat) (written : Written)
  | removeFile (repoID path : String)
  | afterFunc (seconds : Nat) (task : SyncTask)
  deriving DecidableEq

structure Result where
  sc : SyncCoordinator
  out : List Output
  err : Option String

def metadataUpdate (sc : SyncCoordinator) (path : String) (size : Int) (version : Nat)
    (hash : String) (modifiedTime : Int) (isDeleted : Bool) (mode : Nat) : Update :=
  ⟨path, hash, size, version, modifiedTime, isDeleted, mode, some sc.vectorClock.clocks⟩

def sendMetadataUpdateToPeer (sc : SyncCoordinator) (peerID repoID path : String) (size : Int)
    (version : Nat) (hash : String) (modifiedTime : Int) (isDeleted : Bool) (mode : Nat) : Output :=
  .sendToPeer peerID (.fileMetadataUpdate repoID
    (metadataUpdate sc path size version hash modifiedTime isDeleted mode))

/-! Local changes. -/

/-- An absolute path is made relative to the repository where that succeeds. -/
def relativePath (sc : SyncCoordinator) (repoID path : String) : String :=
  toSlash <|
    if isAbs path then
      match sc.db.getRepository repoID with
      | some repo => (rel repo.localPath path).getD path
      | none => path
    else path

def redundant (existing : FileMetadata) (payload : FileChangedPayload) : Bool :=
  existing.hash = payload.hash ∧ existing.size = payload.size ∧ existing.mode = payload.mode ∧
    existing.isDeleted = decide (payload.action = .delete)

/-- A modification on top of a zero-size row reuses the version of that row. -/
def reusesVersion (existing : FileMetadata) (payload : FileChangedPayload) : Bool :=
  existing.size = 0 ∧ 0 < payload.size ∧ payload.action = .modify

def nextVersion (existing : Option FileMetadata) (payload : FileChangedPayload) : Int :=
  match existing with
  | none => 1
  | some m => if reusesVersion m payload then m.version else Binary64.wrapInt64 (m.version + 1)

section

variable {sc : SyncCoordinator} {now : Int} {repoID : String} {payload : FileChangedPayload}
  {m : FileMetadata}

theorem nextVersion_some {payload : FileChangedPayload} (lower : 0 ≤ m.version)
    (upper : m.version < 2 ^ 63) (nonneg : 0 ≤ nextVersion (some m) payload) :
    nextVersion (some m) payload = if reusesVersion m payload then m.version else m.version + 1 := by
  unfold nextVersion at nonneg ⊢
  simp only at nonneg ⊢
  split
  · rfl
  · rename_i fresh
    rw [if_neg fresh] at nonneg
    by_cases last : m.version + 1 < 2 ^ 63
    · exact Binary64.wrapInt64_of_range (by omega) last
    · have top : m.version = 2 ^ 63 - 1 := by omega
      rw [top] at nonneg
      exact absurd nonneg (by decide)

def localMeta (repoID path : String) (payload : FileChangedPayload) (version : Int)
    (vc : VectorClock) : FileMetadata where
  repositoryID := repoID
  filepath := path
  hash := payload.hash
  size := payload.size
  version := version
  localLastModified := payload.modifiedTime
  isDeleted := decide (payload.action = .delete)
  updatedAt := 0
  mode := payload.mode
  vectorClock := some vc

/-- Created events may precede the content, so empty files are not announced. -/
def announced (payload : FileChangedPayload) : Bool :=
  0 < payload.size ∨ payload.action = .delete

def tickClocks (sc : SyncCoordinator) : SyncCoordinator :=
  { sc with
    lamportClock := sc.lamportClock.tick
    vectorClock := sc.vectorClock.tick sc.localPeerID }

def handleLocalFileChanged (sc : SyncCoordinator) (now : Int) (repoID : String)
    (payload : FileChangedPayload) : Result :=
  if repoID ∉ sc.workers then ⟨sc, [], some ("repository " ++ repoID ++ " is not active")⟩
  else
    let path := relativePath sc repoID payload.path
    if hasSuffix path ".tmp" then ⟨sc, [], none⟩
    else
      let existing := sc.db.get repoID path
      if existing.any (redundant · payload) then ⟨sc, [], none⟩
      else
        let version := nextVersion existing payload
        let sc := tickClocks sc
        match sc.db.save now (localMeta repoID path payload version sc.vectorClock) with
        | none => ⟨sc, [], some "failed to save file metadata: save file metadata"⟩
        | some db =>
          let update := metadataUpdate sc path payload.size (Binary64.wrapUint64 version)
            payload.hash payload.modifiedTime (decide (payload.action = .delete)) payload.mode
          ⟨{ sc with db := db },
            if announced payload then [.broadcast (.fileMetadataUpdate repoID update)] else [], none⟩

/-! Updates from peers. -/

def pendingKey (path hash : String) : String := path ++ ":" ++ hash

/-- The stored version as the resolver sees it. A missing row is version zero of
the empty hash, and the peer is always the local one, whoever made the row. -/
def ownVersion (sc : SyncCoordinator) (row : Option FileMetadata) : FileVersion :=
  match row with
  | none => ⟨"", 0, 0, sc.localPeerID⟩
  | some m => ⟨m.hash, Binary64.wrapUint64 m.version, m.localLastModified, sc.localPeerID⟩

/-- The announced version; the peer is the one that sent the message. -/
def remoteVersion (peerID : String) (u : Update) : FileVersion :=
  ⟨u.hash, u.decodedVersion, u.decodedTime, peerID⟩

def acceptedMeta (repoID : String) (u : Update) : FileMetadata where
  repositoryID := repoID
  filepath := u.path
  hash := u.hash
  size := u.decodedSize
  version := Binary64.wrapInt64 u.decodedVersion
  localLastModified := u.decodedTime
  isDeleted := u.isDeleted
  updatedAt := 0
  mode := u.decodedMode
  vectorClock := none

/-- The announced time is read as seconds. -/
def downloadTask (peerID repoID : String) (u : Update) : SyncTask :=
  ⟨repoID, u.path, .download, u.hash, u.decodedSize, 1000 * u.decodedTime, peerID, u.decodedMode, 0⟩

def logAndNotifyConflict (path : String) (own remote : FileVersion) : Output :=
  .sendIpc (.conflictDetected path
    [⟨own.hash, own.timestamp, (own.peerID, own.lamportVersion), own.peerID⟩,
      ⟨remote.hash, remote.timestamp, (remote.peerID, remote.lamportVersion), remote.peerID⟩])

def ignoredPath (path : String) : Bool := hasSuffix path ".tmp" || traversal path

def mergeRemoteClock (sc : SyncCoordinator) (u : Update) : SyncCoordinator :=
  match u.vectorClock with
  | none => sc
  | some remote => { sc with vectorClock := sc.vectorClock.merge (decodeClock remote) }

/-- The row is saved before the content is there; a failed save is ignored. -/
def applyAccept (rt : Runtime) (sc : SyncCoordinator) (now : Int) (peerID repoID : String)
    (u : Update) : SyncCoordinator × List Output :=
  let sc := { sc with
    lamportClock := sc.lamportClock.witness u.decodedVersion
    db := (sc.db.save now (acceptedMeta repoID u)).getD sc.db }
  if u.isDeleted then
    (sc, [.sendIpc (.syncFromPeer peerID u.path repoID true u.hash u.decodedTime)])
  else if (pendingKey u.path u.hash) ∈ sc.pendingDownloads ∨
      sc.queue.hasPending repoID u.path u.hash then (sc, [])
  else ({ sc with queue := sc.queue.push rt.sort (downloadTask peerID repoID u) }, [])

/-- The reply to a peer that is behind. The source dereferences the row, which
is there: see keep_of_none. -/
def applyKeep (sc : SyncCoordinator) (peerID repoID path : String) (row : Option FileMetadata) :
    List Output :=
  match row with
  | none => []
  | some m =>
    [sendMetadataUpdateToPeer sc peerID repoID path m.size (Binary64.wrapUint64 m.version) m.hash
      m.localLastModified m.isDeleted m.mode]

/-- A live row whose file is missing on disk is downloaded again. -/
def applySkip (rt : Runtime) (sc : SyncCoordinator) (missing : Bool) (peerID repoID : String)
    (u : Update) (row : Option FileMetadata) : SyncCoordinator :=
  if row.any (fun m => !m.isDeleted) ∧ (sc.db.getRepository repoID).isSome ∧ missing then
    { sc with queue := sc.queue.push rt.sort (downloadTask peerID repoID u) }
  else sc

def handlePeerMetadataUpdate (rt : Runtime) (sc : SyncCoordinator) (now : Int) (missing : Bool)
    (peerID repoID : String) (u : Update) : SyncCoordinator × List Output :=
  if ignoredPath u.path then (sc, [])
  else
    let sc := mergeRemoteClock sc u
    let row := sc.db.get repoID u.path
    let own := ownVersion sc row
    let remote := remoteVersion peerID u
    let resolution := resolve own remote
    let notice := if resolution.isConflict then [logAndNotifyConflict u.path own remote] else []
    match resolution.action with
    | .acceptRemote =>
      let (sc, out) := applyAccept rt sc now peerID repoID u
      (sc, out ++ notice)
    | .keepLocal =>
      (sc, if resolution.isConflict then notice else applyKeep sc peerID repoID u.path row)
    | .skip => (applySkip rt sc missing peerID repoID u row, [])

/-! The user's decision on a conflict. -/

def handleConflictResolution (sc : SyncCoordinator) (repoID path resolution peerID : String) :
    Result :=
  if resolution = "local" then
    ⟨sc, match sc.db.get repoID path with
      | none => []
      | some m =>
        [sendMetadataUpdateToPeer sc peerID repoID path m.size (Binary64.wrapUint64 m.version)
          m.hash m.localLastModified m.isDeleted m.mode], none⟩
  else if resolution = "remote" then
    let sc := { sc with db := sc.db.hardDelete repoID path }
    let removed := match sc.db.getRepository repoID with
      | none => []
      | some repo => [Output.removeFile repoID (join repo.localPath path)]
    -- version zero makes the peer answer with what it has
    ⟨sc, removed ++ [sendMetadataUpdateToPeer sc peerID repoID path 0 0 "" 0 false 0], none⟩
  else if resolution = "merge" then
    ⟨sc, [], some ("manual merge not supported yet for " ++ path ++ " in repo " ++ repoID ++
      "; choose 'local' or 'remote' instead")⟩
  else ⟨sc, [], some ("unknown conflict resolution: " ++ resolution)⟩

/-! What the handlers do to the table of rows. -/

@[simp] theorem mergeRemoteClock_db (sc : SyncCoordinator) (u : Update) :
    (mergeRemoteClock sc u).db = sc.db := by
  unfold mergeRemoteClock
  split <;> rfl

@[simp] theorem mergeRemoteClock_localPeerID (sc : SyncCoordinator) (u : Update) :
    (mergeRemoteClock sc u).localPeerID = sc.localPeerID := by
  unfold mergeRemoteClock
  split <;> rfl

@[simp] theorem ownVersion_mergeRemoteClock (sc : SyncCoordinator) (u : Update)
    (row : Option FileMetadata) : ownVersion (mergeRemoteClock sc u) row = ownVersion sc row := by
  unfold ownVersion
  split <;> simp only [mergeRemoteClock_localPeerID]

def recordedMeta (sc : SyncCoordinator) (repoID : String) (payload : FileChangedPayload) :
    FileMetadata :=
  localMeta repoID (relativePath sc repoID payload.path) payload
    (nextVersion (sc.db.get repoID (relativePath sc repoID payload.path)) payload)
    (tickClocks sc).vectorClock

def recordedUpdate (sc : SyncCoordinator) (repoID : String) (payload : FileChangedPayload) :
    Update :=
  metadataUpdate (tickClocks sc) (relativePath sc repoID payload.path) payload.size
    (Binary64.wrapUint64
      (nextVersion (sc.db.get repoID (relativePath sc repoID payload.path)) payload))
    payload.hash payload.modifiedTime (decide (payload.action = .delete)) payload.mode

def Recorded (sc : SyncCoordinator) (repoID : String) (payload : FileChangedPayload) : Prop :=
  repoID ∈ sc.workers ∧ hasSuffix (relativePath sc repoID payload.path) ".tmp" = false ∧
    (sc.db.get repoID (relativePath sc repoID payload.path)).any (redundant · payload) = false

instance (sc : SyncCoordinator) (repoID : String) (payload : FileChangedPayload) :
    Decidable (Recorded sc repoID payload) :=
  inferInstanceAs (Decidable (_ ∧ _ ∧ _))

theorem local_dropped (dropped : ¬ Recorded sc repoID payload) (now : Int) :
    (handleLocalFileChanged sc now repoID payload).sc = sc ∧
      (handleLocalFileChanged sc now repoID payload).out = [] := by
  unfold handleLocalFileChanged
  by_cases active : repoID ∉ sc.workers
  · simp only [if_pos active, and_self]
  · rw [if_neg active]
    simp only
    by_cases tmp : hasSuffix (relativePath sc repoID payload.path) ".tmp"
    · simp only [if_pos tmp, and_self]
    · rw [if_neg tmp]
      by_cases same : (sc.db.get repoID (relativePath sc repoID payload.path)).any
          (redundant · payload)
      · simp only [if_pos same, and_self]
      · exact absurd ⟨not_not.mp active, Bool.eq_false_iff.mpr tmp, Bool.eq_false_iff.mpr same⟩ dropped

theorem local_recorded {db : DB} {now : Int} (recorded : Recorded sc repoID payload)
    (saved : sc.db.save now (recordedMeta sc repoID payload) = some db) :
    handleLocalFileChanged sc now repoID payload =
      ⟨{ tickClocks sc with db := db },
        if announced payload then
          [.broadcast (.fileMetadataUpdate repoID (recordedUpdate sc repoID payload))] else [],
        none⟩ := by
  obtain ⟨active, tmp, fresh⟩ := recorded
  have ticked : (tickClocks sc).db = sc.db := rfl
  rw [recordedMeta] at saved
  simp only [handleLocalFileChanged, active, tmp, fresh, ticked, saved, recordedUpdate,
    not_true_eq_false, Bool.false_eq_true, if_false]

theorem local_frame (sc : SyncCoordinator) (now : Int) (repoID : String)
    (payload : FileChangedPayload) : let after := (handleLocalFileChanged sc now repoID payload).sc
    after.localPeerID = sc.localPeerID ∧ after.workers = sc.workers ∧
      after.connections = sc.connections ∧ after.db.repositories = sc.db.repositories := by
  by_cases recorded : Recorded sc repoID payload
  · cases saved : sc.db.save now (recordedMeta sc repoID payload) with
    | some db =>
      simp only [local_recorded recorded saved]
      exact ⟨rfl, rfl, rfl, (DB.save_some saved).2.1⟩
    | none =>
      obtain ⟨active, tmp, fresh⟩ := recorded
      have ticked : (tickClocks sc).db = sc.db := rfl
      rw [recordedMeta] at saved
      simp only [handleLocalFileChanged, active, tmp, fresh, ticked, saved, not_true_eq_false,
        Bool.false_eq_true, if_false]
      exact ⟨rfl, rfl, rfl, trivial⟩
  · simp only [(local_dropped recorded now).1, and_self]

theorem local_queue (sc : SyncCoordinator) (now : Int) (repoID : String)
    (payload : FileChangedPayload) :
    (handleLocalFileChanged sc now repoID payload).sc.queue = sc.queue ∧
      (handleLocalFileChanged sc now repoID payload).sc.pendingDownloads = sc.pendingDownloads := by
  simp only [handleLocalFileChanged]
  split
  · exact ⟨rfl, rfl⟩
  · split
    · exact ⟨rfl, rfl⟩
    · split
      · exact ⟨rfl, rfl⟩
      · split <;> exact ⟨rfl, rfl⟩

theorem local_clock (sc : SyncCoordinator) (now : Int) (repoID : String)
    (payload : FileChangedPayload) : (handleLocalFileChanged sc now repoID payload).sc.vectorClock =
      if Recorded sc repoID payload then sc.vectorClock.tick sc.localPeerID else sc.vectorClock := by
  split
  · rename_i recorded
    obtain ⟨active, tmp, fresh⟩ := recorded
    simp only [handleLocalFileChanged, active, tmp, fresh, not_true_eq_false, Bool.false_eq_true,
      if_false]
    split <;> rfl
  · rename_i dropped
    rw [(local_dropped dropped now).1]

theorem local_silent_iff (sc : SyncCoordinator) (now : Int) (repoID : String)
    (payload : FileChangedPayload) : ((handleLocalFileChanged sc now repoID payload).sc = sc ∧
      (handleLocalFileChanged sc now repoID payload).out = []) ↔ ¬ Recorded sc repoID payload := by
  constructor
  · rintro ⟨same, -⟩ recorded
    have clock := local_clock sc now repoID payload
    rw [same, if_pos recorded] at clock
    have count := congrArg (·.get sc.localPeerID) clock
    simp only [VectorClock.get_tick, if_true] at count
    omega
  · intro dropped
    exact local_dropped dropped now

theorem local_live (live : m ∈ (handleLocalFileChanged sc now repoID payload).sc.db.live) :
    m ∈ sc.db.live ∧ ((m.repositoryID, m.filepath) ≠
        (repoID, relativePath sc repoID payload.path) ∨ ¬ Recorded sc repoID payload) ∨
      m = { recordedMeta sc repoID payload with updatedAt := now } := by
  by_cases recorded : Recorded sc repoID payload
  · by_cases known : repoID ∈ sc.db.repositories
    · obtain ⟨db, saved⟩ := DB.save_known (m := recordedMeta sc repoID payload) known now
      rw [local_recorded recorded saved] at live
      rcases DB.live_save saved live with new | ⟨old, other⟩
      · exact Or.inr new
      · exact Or.inl ⟨old, Or.inl other⟩
    · obtain ⟨active, tmp, fresh⟩ := recorded
      have refused := DB.save_unknown (m := recordedMeta sc repoID payload) known now
      have ticked : (tickClocks sc).db = sc.db := rfl
      rw [recordedMeta] at refused
      have same : (handleLocalFileChanged sc now repoID payload).sc.db = sc.db := by
        simp only [handleLocalFileChanged, active, tmp, fresh, ticked, refused, not_true_eq_false,
          Bool.false_eq_true, if_false]
      rw [same] at live
      refine Or.inl ⟨live, Or.inl (fun here => known ?_)⟩
      rw [← (Prod.mk.inj here).1]
      exact DB.repository_of_get (DB.mem_live.mp live).1
  · rw [(local_dropped recorded now).1] at live
    exact Or.inl ⟨live, Or.inr recorded⟩

theorem local_out {o : Output} (sent : o ∈ (handleLocalFileChanged sc now repoID payload).out) :
    announced payload = true ∧
      o = .broadcast (.fileMetadataUpdate repoID (recordedUpdate sc repoID payload)) := by
  by_cases recorded : Recorded sc repoID payload
  · cases saved : sc.db.save now (recordedMeta sc repoID payload) with
    | some db =>
      rw [local_recorded recorded saved] at sent
      simp only at sent
      split at sent
      · rename_i loud
        exact ⟨loud, List.mem_singleton.mp sent⟩
      · cases sent
    | none =>
      obtain ⟨active, tmp, fresh⟩ := recorded
      have ticked : (tickClocks sc).db = sc.db := rfl
      rw [recordedMeta] at saved
      simp [handleLocalFileChanged, active, tmp, fresh, ticked, saved] at sent
  · rw [(local_dropped recorded now).2] at sent
    cases sent

def decision (sc : SyncCoordinator) (peerID repoID : String) (u : Update) : Resolution :=
  resolve (ownVersion sc (sc.db.get repoID u.path)) (remoteVersion peerID u)

/-- Keeping a missing row is always a conflict, so the reply has a row to send. -/
theorem keep_of_none {peerID repoID : String} {u : Update}
    (missing : sc.db.get repoID u.path = none)
    (keep : (decision sc peerID repoID u).action = .keepLocal) :
    (decision sc peerID repoID u).isConflict = true := by
  rw [decision, missing] at keep ⊢
  obtain ⟨differ, below⟩ := (resolve_keep_iff _ _).mp keep
  refine (resolve_conflict_iff _ _).mpr ⟨differ, ?_⟩
  rw [rank_lt_iff] at below
  have zero : (ownVersion sc none).lamportVersion = 0 := rfl
  omega

end

def conflictNotice (sc : SyncCoordinator) (peerID repoID : String) (u : Update) : List Output :=
  if (decision sc peerID repoID u).isConflict then
    [logAndNotifyConflict u.path (ownVersion sc (sc.db.get repoID u.path)) (remoteVersion peerID u)]
  else []

section Peer

variable (rt : Runtime) {sc : SyncCoordinator} (now : Int) (missing : Bool)
  {peerID repoID : String} {u : Update}

theorem peer_ignored (ignored : ignoredPath u.path = true) :
    handlePeerMetadataUpdate rt sc now missing peerID repoID u = (sc, []) := by
  simp only [handlePeerMetadataUpdate, if_pos ignored]

theorem peer_accept (heard : ignoredPath u.path = false)
    (accept : (decision sc peerID repoID u).action = .acceptRemote) :
    handlePeerMetadataUpdate rt sc now missing peerID repoID u =
      ((applyAccept rt (mergeRemoteClock sc u) now peerID repoID u).1,
        (applyAccept rt (mergeRemoteClock sc u) now peerID repoID u).2 ++
          conflictNotice sc peerID repoID u) := by
  rw [decision] at accept
  simp only [handlePeerMetadataUpdate, heard, mergeRemoteClock_db, ownVersion_mergeRemoteClock,
    accept, conflictNotice, decision, Bool.false_eq_true, if_false]
  rfl

theorem peer_keep (heard : ignoredPath u.path = false)
    (keep : (decision sc peerID repoID u).action = .keepLocal) :
    handlePeerMetadataUpdate rt sc now missing peerID repoID u =
      (mergeRemoteClock sc u,
        if (decision sc peerID repoID u).isConflict then conflictNotice sc peerID repoID u
        else applyKeep (mergeRemoteClock sc u) peerID repoID u.path (sc.db.get repoID u.path)) := by
  rw [decision] at keep
  simp only [handlePeerMetadataUpdate, heard, mergeRemoteClock_db, ownVersion_mergeRemoteClock,
    keep, conflictNotice, decision, Bool.false_eq_true, if_false]
  rfl

theorem peer_skip (heard : ignoredPath u.path = false)
    (skip : (decision sc peerID repoID u).action = .skip) :
    handlePeerMetadataUpdate rt sc now missing peerID repoID u =
      (applySkip rt (mergeRemoteClock sc u) missing peerID repoID u (sc.db.get repoID u.path),
        []) := by
  rw [decision] at skip
  simp only [handlePeerMetadataUpdate, heard, mergeRemoteClock_db, ownVersion_mergeRemoteClock,
    skip, Bool.false_eq_true, if_false]

end Peer

section

variable (rt : Runtime) (sc : SyncCoordinator) (now : Int) (missing : Bool) (peerID repoID : String)
  (u : Update)

theorem applyAccept_db : (applyAccept rt sc now peerID repoID u).1.db =
      (sc.db.save now (acceptedMeta repoID u)).getD sc.db := by
  simp only [applyAccept]
  split
  · rfl
  · split <;> rfl

theorem applySkip_db (row : Option FileMetadata) :
    (applySkip rt sc missing peerID repoID u row).db = sc.db := by
  unfold applySkip
  split <;> rfl

theorem handlePeerMetadataUpdate_db :
    (handlePeerMetadataUpdate rt sc now missing peerID repoID u).1.db =
      if ignoredPath u.path = false ∧ (decision sc peerID repoID u).action = .acceptRemote
      then (sc.db.save now (acceptedMeta repoID u)).getD sc.db else sc.db := by
  cases heard : ignoredPath u.path with
  | true => simp [peer_ignored rt now missing heard]
  | false =>
    cases h : (decision sc peerID repoID u).action with
    | acceptRemote => simp [peer_accept rt now missing heard h, applyAccept_db]
    | keepLocal => simp [peer_keep rt now missing heard h]
    | skip => simp [peer_skip rt now missing heard h, applySkip_db]

theorem peer_row {sc : SyncCoordinator} (now : Int) (missing : Bool) (peerID : String)
    {repoID : String} (u : Update) (known : repoID ∈ sc.db.repositories) (r path : String) :
    (handlePeerMetadataUpdate rt sc now missing peerID repoID u).1.db.get r path =
      if ignoredPath u.path = false ∧ (decision sc peerID repoID u).action = .acceptRemote ∧
        (r, path) = (repoID, u.path)
      then some { acceptedMeta repoID u with updatedAt := now } else sc.db.get r path := by
  rw [handlePeerMetadataUpdate_db]
  obtain ⟨db, saved⟩ := DB.save_known (m := acceptedMeta repoID u) known now
  by_cases taken : ignoredPath u.path = false ∧ (decision sc peerID repoID u).action = .acceptRemote
  · rw [if_pos taken, saved, Option.getD_some]
    by_cases here : (r, path) = (repoID, u.path)
    · cases here
      rw [if_pos ⟨taken.1, taken.2, rfl⟩]
      exact DB.get_save_self saved
    · rw [if_neg (fun h => here h.2.2)]
      exact DB.get_save_other saved here
  · rw [if_neg taken, if_neg (fun h => taken ⟨h.1, h.2.1⟩)]

end

theorem peer_frame (rt : Runtime) (sc : SyncCoordinator) (now : Int) (missing : Bool)
    (peerID repoID : String) (u : Update) :
    let after := (handlePeerMetadataUpdate rt sc now missing peerID repoID u).1
    after.localPeerID = sc.localPeerID ∧ after.workers = sc.workers ∧
      after.connections = sc.connections ∧ after.db.repositories = sc.db.repositories := by
  have merged : (mergeRemoteClock sc u).localPeerID = sc.localPeerID ∧
      (mergeRemoteClock sc u).workers = sc.workers ∧
      (mergeRemoteClock sc u).connections = sc.connections ∧
      (mergeRemoteClock sc u).db.repositories = sc.db.repositories := by
    unfold mergeRemoteClock
    split <;> exact ⟨rfl, rfl, rfl, rfl⟩
  have saved : ((sc.db.save now (acceptedMeta repoID u)).getD sc.db).repositories =
      sc.db.repositories := by
    cases h : sc.db.save now (acceptedMeta repoID u) with
    | none => rfl
    | some db => exact (DB.save_some h).2.1
  cases heard : ignoredPath u.path with
  | true => simp [peer_ignored rt now missing heard]
  | false =>
    cases h : (decision sc peerID repoID u).action with
    | acceptRemote =>
      have tables := applyAccept_db rt (mergeRemoteClock sc u) now peerID repoID u
      rw [mergeRemoteClock_db] at tables
      simp only [peer_accept rt now missing heard h, tables, saved, and_true]
      simp only [applyAccept]
      split
      · exact ⟨merged.1, merged.2.1, merged.2.2.1⟩
      · split <;> exact ⟨merged.1, merged.2.1, merged.2.2.1⟩
    | keepLocal =>
      simp only [peer_keep rt now missing heard h]
      exact merged
    | skip =>
      simp only [peer_skip rt now missing heard h, applySkip]
      split <;> exact merged

theorem mergeRemoteClock_queue (sc : SyncCoordinator) (u : Update) :
    (mergeRemoteClock sc u).queue = sc.queue ∧
      (mergeRemoteClock sc u).pendingDownloads = sc.pendingDownloads := by
  unfold mergeRemoteClock
  split <;> exact ⟨rfl, rfl⟩

theorem peer_queue (rt : Runtime) (sc : SyncCoordinator) (now : Int) (missing : Bool)
    (peerID repoID : String) (u : Update) :
    let after := (handlePeerMetadataUpdate rt sc now missing peerID repoID u).1
    after.pendingDownloads = sc.pendingDownloads ∧
      (after.queue = sc.queue ∨
        after.queue = sc.queue.push rt.sort (downloadTask peerID repoID u)) := by
  obtain ⟨queue, pending⟩ := mergeRemoteClock_queue sc u
  cases heard : ignoredPath u.path with
  | true => simp [peer_ignored rt now missing heard]
  | false =>
    cases h : (decision sc peerID repoID u).action with
    | acceptRemote =>
      simp only [peer_accept rt now missing heard h, applyAccept]
      split
      · exact ⟨pending, Or.inl queue⟩
      · split
        · exact ⟨pending, Or.inl queue⟩
        · exact ⟨pending, Or.inr (by simp only [queue])⟩
    | keepLocal =>
      simp only [peer_keep rt now missing heard h]
      exact ⟨pending, Or.inl queue⟩
    | skip =>
      simp only [peer_skip rt now missing heard h, applySkip]
      split
      · exact ⟨pending, Or.inr (by simp only [queue])⟩
      · exact ⟨pending, Or.inl queue⟩

section

variable (rt : Runtime) {sc : SyncCoordinator} (now : Int) (missing : Bool) {peerID repoID : String}
  {u : Update} {o : Output}

theorem accept_queued (heard : ignoredPath u.path = false)
    (accept : (decision sc peerID repoID u).action = .acceptRemote) (alive : u.isDeleted = false)
    (unasked : pendingKey u.path u.hash ∉ sc.pendingDownloads) :
    ∃ t ∈ (handlePeerMetadataUpdate rt sc now missing peerID repoID u).1.queue.tasks repoID,
      t.type = .download ∧ t.filePath = u.path ∧ t.hash = u.hash := by
  obtain ⟨queue, pending⟩ := mergeRemoteClock_queue sc u
  simp only [peer_accept rt now missing heard accept, applyAccept, alive, Bool.false_eq_true,
    if_false, queue, pending, unasked, false_or]
  split
  · rename_i waiting
    obtain ⟨t, member, same⟩ := List.any_eq_true.mp waiting
    obtain ⟨path, type, hash⟩ := of_decide_eq_true same
    exact ⟨t, queue ▸ member, type, path, hash⟩
  · obtain ⟨t, member, same⟩ :=
      SyncQueue.push_present rt.sort sc.queue (downloadTask peerID repoID u)
    obtain ⟨path, type, hash⟩ := of_decide_eq_true same
    exact ⟨t, member, type, path, hash⟩

theorem peer_live {rt : Runtime} {sc : SyncCoordinator} {now : Int} {missing : Bool}
    {peerID repoID : String} {u : Update} {m : FileMetadata}
    (live : m ∈ (handlePeerMetadataUpdate rt sc now missing peerID repoID u).1.db.live) :
    m ∈ sc.db.live ∨ ignoredPath u.path = false ∧
      (decision sc peerID repoID u).action = .acceptRemote ∧
      m = { acceptedMeta repoID u with updatedAt := now } := by
  rw [handlePeerMetadataUpdate_db] at live
  split at live
  · rename_i taken
    cases saved : sc.db.save now (acceptedMeta repoID u) with
    | none =>
      rw [saved] at live
      exact Or.inl live
    | some db =>
      rw [saved] at live
      rcases DB.live_save saved live with new | ⟨old, -⟩
      · exact Or.inr ⟨taken.1, taken.2, new⟩
      · exact Or.inl old
  · exact Or.inl live

theorem conflictNotice_ipc (h : o ∈ conflictNotice sc peerID repoID u) :
    ∃ msg, o = .sendIpc msg := by
  unfold conflictNotice at h
  split at h
  · exact ⟨_, List.mem_singleton.mp h⟩
  · cases h

theorem applyAccept_ipc {rt : Runtime} {sc : SyncCoordinator} {now : Int} {peerID repoID : String}
    {u : Update} {o : Output} (h : o ∈ (applyAccept rt sc now peerID repoID u).2) :
    ∃ msg, o = .sendIpc msg := by
  simp only [applyAccept] at h
  split at h
  · exact ⟨_, List.mem_singleton.mp h⟩
  · split at h <;> cases h

theorem peer_answer (sc : SyncCoordinator) (now : Int) (missing : Bool) (peerID repoID : String)
    (u : Update) :
    (∀ o ∈ (handlePeerMetadataUpdate rt sc now missing peerID repoID u).2, ∃ msg, o = .sendIpc msg) ∨
      (decision sc peerID repoID u).action = .keepLocal ∧
      (decision sc peerID repoID u).isConflict = false ∧
      ∃ m, sc.db.get repoID u.path = some m ∧
        (handlePeerMetadataUpdate rt sc now missing peerID repoID u).2 =
          [sendMetadataUpdateToPeer (mergeRemoteClock sc u) peerID repoID u.path m.size
            (Binary64.wrapUint64 m.version) m.hash m.localLastModified m.isDeleted m.mode] := by
  cases heard : ignoredPath u.path with
  | true =>
    rw [peer_ignored rt now missing heard]
    exact Or.inl (fun o sent => by cases sent)
  | false =>
    cases h : (decision sc peerID repoID u).action with
    | acceptRemote =>
      rw [peer_accept rt now missing heard h]
      exact Or.inl (fun o sent =>
        (List.mem_append.mp sent).elim applyAccept_ipc conflictNotice_ipc)
    | skip =>
      rw [peer_skip rt now missing heard h]
      exact Or.inl (fun o sent => by cases sent)
    | keepLocal =>
      rw [peer_keep rt now missing heard h]
      cases quiet : (decision sc peerID repoID u).isConflict with
      | true => exact Or.inl (fun o sent => conflictNotice_ipc sent)
      | false =>
        cases row : sc.db.get repoID u.path with
        | none => exact Or.inl (fun o sent => by cases sent)
        | some m => exact Or.inr ⟨rfl, rfl, m, rfl, rfl⟩

theorem peer_sends (sent : o ∈ (handlePeerMetadataUpdate rt sc now missing peerID repoID u).2) :
    (∃ msg, o = .sendIpc msg) ∨
      (decision sc peerID repoID u).action = .keepLocal ∧
      (decision sc peerID repoID u).isConflict = false ∧
      ∃ m, sc.db.get repoID u.path = some m ∧
        o = sendMetadataUpdateToPeer (mergeRemoteClock sc u) peerID repoID u.path m.size
          (Binary64.wrapUint64 m.version) m.hash m.localLastModified m.isDeleted m.mode := by
  rcases peer_answer rt sc now missing peerID repoID u with ipc | ⟨keep, quiet, m, row, out⟩
  · exact Or.inl (ipc o sent)
  · rw [out] at sent
    exact Or.inr ⟨keep, quiet, m, row, List.mem_singleton.mp sent⟩

theorem peer_told (heard : ignoredPath u.path = false)
    (accept : (decision sc peerID repoID u).action = .acceptRemote) (deleted : u.isDeleted = true) :
    .sendIpc (.syncFromPeer peerID u.path repoID true u.hash u.decodedTime) ∈
      (handlePeerMetadataUpdate rt sc now missing peerID repoID u).2 := by
  rw [peer_accept rt now missing heard accept]
  simp only [applyAccept, deleted, if_true]
  exact List.mem_cons_self

theorem peer_ipc {msg : IpcMessage}
    (sent : .sendIpc msg ∈ (handlePeerMetadataUpdate rt sc now missing peerID repoID u).2) :
    (∃ versions, msg = .conflictDetected u.path versions) ∨
      ignoredPath u.path = false ∧ (decision sc peerID repoID u).action = .acceptRemote ∧
      u.isDeleted = true ∧
      msg = .syncFromPeer peerID u.path repoID true u.hash u.decodedTime := by
  have notice : .sendIpc msg ∈ conflictNotice sc peerID repoID u →
      ∃ versions, msg = .conflictDetected u.path versions := by
    intro h
    unfold conflictNotice at h
    split at h
    · cases List.mem_singleton.mp h
      exact ⟨_, rfl⟩
    · cases h
  cases heard : ignoredPath u.path with
  | true =>
    rw [peer_ignored rt now missing heard] at sent
    cases sent
  | false =>
    cases h : (decision sc peerID repoID u).action with
    | acceptRemote =>
      rw [peer_accept rt now missing heard h] at sent
      rcases List.mem_append.mp sent with sent | sent
      · simp only [applyAccept] at sent
        split at sent
        · rename_i deleted
          cases List.mem_singleton.mp sent
          exact Or.inr ⟨rfl, rfl, deleted, rfl⟩
        · split at sent <;> cases sent
      · exact Or.inl (notice sent)
    | skip =>
      rw [peer_skip rt now missing heard h] at sent
      cases sent
    | keepLocal =>
      rw [peer_keep rt now missing heard h] at sent
      simp only at sent
      split at sent
      · exact Or.inl (notice sent)
      · unfold applyKeep at sent
        split at sent
        · cases sent
        · cases List.mem_singleton.mp sent

end

end P2PSync
