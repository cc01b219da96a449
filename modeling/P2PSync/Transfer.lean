import Mathlib.Tactic.SplitIfs
import P2PSync.Coordinator

/-! Fetching file contents: the queue loop, the two sides of a file request and
the sessions they start. The content of a small file travels inside the
response, a larger one over a port that the daemon serves. -/
namespace P2PSync

structure Env where
  missing : Bool
  /-- The base64 text of a file read for an inline response; none is an error. -/
  read : Option String
  /-- The port opened for an upload, or the error text. -/
  listen : Except String Int
  write : Written
  dialed : Bool

def Env.wrote (env : Env) : Bool := env.write = .whole

/-! The queue. -/

/-- One round of queueProcessorLoop up to the start of the task: a task without
a semaphore goes back, any other is handed to executeSyncTask. -/
def queueRound (sc : SyncCoordinator) : SyncCoordinator × Option SyncTask :=
  match sc.queue.pop with
  | none => (sc, none)
  | some (task, queue) =>
    if task.repoID ∈ sc.repoSemaphores then ({ sc with queue := queue }, some task)
    else ({ sc with queue := queue.requeue task }, none)

/-- A download is registered before its request is sent, and taken back if
sending fails. An upload task does nothing. -/
def executeSyncTask (sc : SyncCoordinator) (sent : Bool) (task : SyncTask) :
    SyncCoordinator × List Output :=
  match task.type with
  | .upload => (sc, [])
  | .download =>
    let key := pendingKey task.filePath task.hash
    if task.peerID ∉ sc.connections then ({ sc with queue := sc.queue.requeue task }, [])
    else if sent then
      ({ sc with
        pendingDownloads := sc.pendingDownloads.insert key
          ⟨task.size, task.repoID, task.mode, task.peerID, task.retries⟩ },
        [.sendToPeer task.peerID (.fileRequest ⟨task.filePath, task.hash⟩)])
    else
      ({ sc with
        pendingDownloads := sc.pendingDownloads.erase key
        queue := sc.queue.requeue task }, [])

def retryDownload (rt : Runtime) (sc : SyncCoordinator) (now : Int) (task : SyncTask) :
    SyncCoordinator :=
  { sc with queue := sc.queue.push rt.sort { task with timestamp := now } }

/-! Serving a request. -/

def inlineLimit : Int := 1024

def startUpload (env : Env) (filePath basePath repoID peerID expectedHash : String)
    (expectedSize : Int) : Except String (Int × String) × List Output :=
  let opened :=
    if expectedSize ≤ inlineLimit then
      [Output.readFile repoID (if basePath ≠ "" then join basePath filePath else filePath)]
    else []
  match (if expectedSize ≤ inlineLimit then env.read else none), env.listen with
  | some data, _ => (.ok (0, data), opened)
  | none, .error e => (.error e, opened)
  | none, .ok port =>
    (.ok (port, ""), opened ++
      [.sendIpc (.prepareFileTransfer filePath repoID peerID expectedHash expectedSize .upload 0)])

def errorResponse (payload : FileRequestPayload) (error : String) : FileResponsePayload :=
  ⟨payload.path, payload.hash, "", "", 0, error⟩

/-- The row is looked up by path and hash over all repositories. -/
def handleFileRequest (sc : SyncCoordinator) (env : Env) (peerID : String)
    (payload : FileRequestPayload) : Result :=
  match payload.validate with
  | some e => ⟨sc, [], some ("invalid file_request from peer " ++ peerID ++ ": " ++ e)⟩
  | none =>
    match sc.db.getByPathAndHash payload.path payload.hash with
    | none =>
      ⟨sc, [.sendToPeer peerID (.fileResponse (errorResponse payload "file not found locally"))],
        none⟩
    | some m =>
      let basePath := match sc.db.getRepository m.repositoryID with
        | some repo => repo.localPath
        | none => ""
      match startUpload env m.filepath basePath m.repositoryID peerID m.hash m.size with
      | (.error e, opened) =>
        ⟨sc, opened ++ [.sendToPeer peerID (.fileResponse (errorResponse payload e))], none⟩
      | (.ok (port, data), opened) =>
        ⟨sc, opened ++ [.sendToPeer peerID (.fileResponse
          ⟨payload.path, payload.hash, data, "", if data ≠ "" then 0 else port, ""⟩)], none⟩

/-! Handling a response. -/

/-- The row after an inline write: the version that is stored by then is kept,
whatever the row says about the content, and the time is in seconds. -/
def inlineMeta (db : DB) (now : Int) (path : String) (details : PendingDownload) (data : Content)
    (hash : String) : FileMetadata where
  repositoryID := details.repoID
  filepath := path
  hash := hash
  size := data.length
  version := match db.get details.repoID path with
    | some m => m.version
    | none => 1
  localLastModified := now / 1000
  isDeleted := false
  updatedAt := 0
  mode := details.mode
  vectorClock := none

def writeInline (rt : Runtime) (sc : SyncCoordinator) (now : Int) (env : Env) (path : String)
    (payload : FileResponsePayload) (details : PendingDownload) : Result :=
  match rt.decodeString payload.contentBase64 with
  | none => ⟨sc, [], none⟩
  | some data =>
    match sc.db.getRepository details.repoID with
    | none => ⟨sc, [], none⟩
    | some repo =>
      if traversal path then ⟨sc, [], none⟩
      else if payload.hash ≠ "" ∧ rt.sha256 data ≠ payload.hash then ⟨sc, [], none⟩
      else
        let write := Output.writeFile details.repoID (join repo.localPath path) data details.mode
          env.write
        if env.wrote then
          ⟨{ sc with
            db := (sc.db.save now (inlineMeta sc.db now path details data (rt.sha256 data))).getD
              sc.db }, [write], none⟩
        else ⟨sc, [write], none⟩

def retryTask (path : String) (payload : FileResponsePayload) (details : PendingDownload) :
    SyncTask :=
  ⟨details.repoID, path, .download, payload.hash, details.size, 0, details.peerID, details.mode,
    details.retries + 1⟩

/-- The streaming branch of a response. Its path check differs from the others. -/
def beginStream (sc : SyncCoordinator) (env : Env) (peerID path : String)
    (payload : FileResponsePayload) (details : PendingDownload) : Result :=
  if isAbs path || hasPrefix path ".." || contains path "../" then
    ⟨sc, [], some ("invalid path traversal in download: " ++ path)⟩
  else if env.dialed then
    ⟨sc, [.sendIpc (.prepareFileTransfer path details.repoID peerID payload.hash details.size
      .download details.mode)], none⟩
  else if details.retries < maxDownloadRetries then
    ⟨sc, [.afterFunc (2 ^ details.retries) (retryTask path payload details)], none⟩
  else ⟨{ sc with db := sc.db.hardDelete details.repoID path }, [], none⟩

def handleFileResponse (rt : Runtime) (sc : SyncCoordinator) (now : Int) (env : Env)
    (peerID : String) (payload : FileResponsePayload) : Result :=
  match payload.validate with
  | some e => ⟨sc, [], some ("invalid file_response from peer " ++ peerID ++ ": " ++ e)⟩
  | none =>
    let path := toSlash (clean payload.path)
    if payload.error ≠ "" then ⟨sc, [], none⟩
    else if peerID ∉ sc.connections then ⟨sc, [], none⟩
    else
      let key := pendingKey path payload.hash
      match sc.pendingDownloads.lookup key with
      | none => ⟨sc, [], none⟩
      | some details =>
        let sc := { sc with pendingDownloads := sc.pendingDownloads.erase key }
        if payload.contentBase64 ≠ "" then writeInline rt sc now env path payload details
        else beginStream sc env peerID path payload details

def handleP2PMessage (rt : Runtime) (sc : SyncCoordinator) (now : Int) (env : Env)
    (peerID : String) : P2PMessage → Result
  | .fileMetadataUpdate repoID u =>
    let (sc, out) := handlePeerMetadataUpdate rt sc now env.missing peerID repoID u
    ⟨sc, out, none⟩
  | .fileRequest payload => handleFileRequest sc env peerID payload
  | .fileResponse payload => handleFileResponse rt sc now env peerID payload

/-! What the handlers do. -/

section

variable {rt : Runtime} {sc : SyncCoordinator} {now : Int} {env : Env} {peerID : String}
  {payload : FileResponsePayload}

theorem startUpload_out {filePath basePath repoID peerID hash : String} {size : Int} {o : Output}
    (h : o ∈ (startUpload env filePath basePath repoID peerID hash size).2) :
    o = .readFile repoID (if basePath ≠ "" then join basePath filePath else filePath) ∨
      o = .sendIpc (.prepareFileTransfer filePath repoID peerID hash size .upload 0) := by
  have opened : ∀ o ∈ (if size ≤ inlineLimit then
      [Output.readFile repoID (if basePath ≠ "" then join basePath filePath else filePath)] else []),
      o = .readFile repoID (if basePath ≠ "" then join basePath filePath else filePath) := by
    intro o h
    split at h
    · exact List.mem_singleton.mp h
    · cases h
  simp only [startUpload] at h
  split at h
  · exact Or.inl (opened o h)
  · exact Or.inl (opened o h)
  · exact (List.mem_append.mp h).imp (opened o) List.mem_singleton.mp

theorem handleFileRequest_spec (sc : SyncCoordinator) (env : Env) (peerID : String)
    (payload : FileRequestPayload) : (handleFileRequest sc env peerID payload).sc = sc ∧
    ∀ o ∈ (handleFileRequest sc env peerID payload).out,
      (∃ response, o = .sendToPeer peerID (.fileResponse response)) ∨
      payload.validate = none ∧ ∃ m basePath,
        sc.db.getByPathAndHash payload.path payload.hash = some m ∧
        basePath = ((sc.db.getRepository m.repositoryID).map (·.localPath)).getD "" ∧
        (o = .readFile m.repositoryID
            (if basePath ≠ "" then join basePath payload.path else payload.path) ∨
          o = .sendIpc (.prepareFileTransfer payload.path m.repositoryID peerID m.hash m.size
            .upload 0)) := by
  unfold handleFileRequest
  split
  · exact ⟨rfl, fun o h => by cases h⟩
  · rename_i valid
    split
    · refine ⟨rfl, fun o h => Or.inl ?_⟩
      exact ⟨_, List.mem_singleton.mp h⟩
    · rename_i m found
      have path := (DB.getByPathAndHash_some found).1
      have base : (match sc.db.getRepository m.repositoryID with
          | some repo => repo.localPath
          | none => "") = ((sc.db.getRepository m.repositoryID).map (·.localPath)).getD "" := by
        cases sc.db.getRepository m.repositoryID <;> rfl
      simp only [base, path]
      split <;>
      · rename_i opened start
        refine ⟨rfl, fun o h => ?_⟩
        rcases List.mem_append.mp h with h | h
        · have same : (startUpload _ _ _ _ _ _ _).2 = opened := congrArg Prod.snd start
          exact Or.inr ⟨valid, m, _, found, rfl, startUpload_out (same ▸ h)⟩
        · exact Or.inl ⟨_, List.mem_singleton.mp h⟩

/-- A response is looked at only if it is valid, reports no error, comes from a
connected peer and there is a pending download under its key. -/
def Consumes (sc : SyncCoordinator) (peerID : String) (payload : FileResponsePayload)
    (details : PendingDownload) : Prop :=
  payload.validate = none ∧ payload.error = "" ∧ peerID ∈ sc.connections ∧
    sc.pendingDownloads.lookup (pendingKey (clean payload.path) payload.hash) = some details

def SyncCoordinator.taken (sc : SyncCoordinator) (path hash : String) : SyncCoordinator :=
  { sc with pendingDownloads := sc.pendingDownloads.erase (pendingKey path hash) }

theorem response_ignored (ignored : ∀ details, ¬ Consumes sc peerID payload details) (rt : Runtime)
    (now : Int) (env : Env) : (handleFileResponse rt sc now env peerID payload).sc = sc ∧
      (handleFileResponse rt sc now env peerID payload).out = [] := by
  unfold handleFileResponse
  split
  · exact ⟨rfl, rfl⟩
  · rename_i valid
    simp only [toSlash]
    split
    · exact ⟨rfl, rfl⟩
    · rename_i noError
      split
      · exact ⟨rfl, rfl⟩
      · rename_i connected
        split
        · exact ⟨rfl, rfl⟩
        · rename_i details found
          exact absurd ⟨valid, not_not.mp noError, not_not.mp connected, found⟩ (ignored details)

theorem response_consumed {details : PendingDownload}
    (consumed : Consumes sc peerID payload details) (rt : Runtime) (now : Int) (env : Env) :
    handleFileResponse rt sc now env peerID payload =
      if payload.contentBase64 ≠ "" then
        writeInline rt (sc.taken (clean payload.path) payload.hash) now env (clean payload.path)
          payload details
      else
        beginStream (sc.taken (clean payload.path) payload.hash) env peerID (clean payload.path)
          payload details := by
  obtain ⟨valid, noError, connected, found⟩ := consumed
  simp only [handleFileResponse, valid, noError, connected, toSlash, found, ne_eq,
    not_true_eq_false, if_false]
  rfl

theorem validate_hash (valid : payload.validate = none) (noError : payload.error = "") :
    payload.hash ≠ "" := by
  unfold FileResponsePayload.validate at valid
  split at valid
  · cases valid
  · simp only [noError, ne_eq, not_true_eq_false, if_false] at valid
    split at valid
    · cases valid
    · rename_i named
      exact named

def inlineData (rt : Runtime) (sc : SyncCoordinator) (path : String)
    (payload : FileResponsePayload) (details : PendingDownload) : Option (Content × Repository) :=
  (rt.decodeString payload.contentBase64).bind fun data =>
    (sc.db.getRepository details.repoID).bind fun repo =>
      if traversal path ∨ (payload.hash ≠ "" ∧ rt.sha256 data ≠ payload.hash) then none
      else some (data, repo)

theorem writeInline_eq (rt : Runtime) (sc : SyncCoordinator) (now : Int) (env : Env)
    (path : String) (payload : FileResponsePayload) (details : PendingDownload) :
    writeInline rt sc now env path payload details =
      match inlineData rt sc path payload details with
      | none => ⟨sc, [], none⟩
      | some (data, repo) =>
        ⟨if env.wrote then
            { sc with
              db := (sc.db.save now (inlineMeta sc.db now path details data (rt.sha256 data))).getD
                sc.db }
          else sc,
          [.writeFile details.repoID (join repo.localPath path) data details.mode env.write], none⟩ := by
  unfold writeInline inlineData
  cases rt.decodeString payload.contentBase64 with
  | none => rfl
  | some data =>
    cases sc.db.getRepository details.repoID with
    | none => rfl
    | some repo =>
      by_cases up : traversal path
      · simp [up]
      · by_cases other : payload.hash ≠ "" ∧ rt.sha256 data ≠ payload.hash
        · simp [up, other]
        · cases env.wrote <;> simp [up, other]

theorem inlineData_some {path : String} {payload : FileResponsePayload} {details : PendingDownload}
    {data : Content} {repo : Repository}
    (h : inlineData rt sc path payload details = some (data, repo)) :
    sc.db.getRepository details.repoID = some repo ∧ traversal path = false ∧
      (payload.hash ≠ "" → rt.sha256 data = payload.hash) := by
  simp only [inlineData, Option.bind_eq_some_iff, Option.ite_none_left_eq_some,
    Option.some.injEq, Prod.mk.injEq, not_or] at h
  obtain ⟨data', -, repo', found, ⟨up, same⟩, rfl, rfl⟩ := h
  exact ⟨found, Bool.eq_false_iff.mpr up, fun named => not_not.mp (fun ne => same ⟨named, ne⟩)⟩

def finalFailure (env : Env) (payload : FileResponsePayload) (details : PendingDownload) : Bool :=
  payload.contentBase64 = "" ∧ env.dialed = false ∧ maxDownloadRetries ≤ details.retries

def streamRefused (path : String) : Bool := isAbs path || hasPrefix path ".." || contains path "../"

theorem beginStream_eq (sc : SyncCoordinator) (env : Env) (peerID path : String)
    (payload : FileResponsePayload) (details : PendingDownload) :
    ((beginStream sc env peerID path payload details).sc =
      if streamRefused path = false ∧ env.dialed = false ∧ maxDownloadRetries ≤ details.retries then
        { sc with db := sc.db.hardDelete details.repoID path } else sc) ∧
    ((beginStream sc env peerID path payload details).out =
      if streamRefused path then []
      else if env.dialed then
        [.sendIpc (.prepareFileTransfer path details.repoID peerID payload.hash details.size
          .download details.mode)]
      else if details.retries < maxDownloadRetries then
        [.afterFunc (2 ^ details.retries) (retryTask path payload details)]
      else []) := by
  unfold beginStream
  rw [← streamRefused]
  cases streamRefused path with
  | true => simp
  | false =>
    cases env.dialed with
    | true => simp
    | false =>
      by_cases again : details.retries < maxDownloadRetries
      · simp [again, not_le.mpr again]
      · simp [again, not_lt.mp again]

theorem response_out {o : Output}
    (done : o ∈ (handleFileResponse rt sc now env peerID payload).out) :
    ∃ details, Consumes sc peerID payload details ∧
      ((∃ data repo, inlineData rt sc (clean payload.path) payload details = some (data, repo) ∧
          o = .writeFile details.repoID (join repo.localPath (clean payload.path)) data
            details.mode env.write) ∨
        (streamRefused (clean payload.path) = false ∧ env.dialed = true ∧
          o = .sendIpc (.prepareFileTransfer (clean payload.path) details.repoID peerID
            payload.hash details.size .download details.mode)) ∨
        (env.dialed = false ∧
          o = .afterFunc (2 ^ details.retries) (retryTask (clean payload.path) payload details))) := by
  by_cases consumed : ∃ details, Consumes sc peerID payload details
  · obtain ⟨details, consumed⟩ := consumed
    refine ⟨details, consumed, ?_⟩
    rw [response_consumed consumed rt now env] at done
    split at done
    · rw [writeInline_eq] at done
      split at done
      · cases done
      · rename_i data repo checked
        exact Or.inl ⟨data, repo, checked, List.mem_singleton.mp done⟩
    · rw [(beginStream_eq _ _ _ _ _ _).2] at done
      split at done
      · cases done
      · rename_i open_
        split at done
        · rename_i dialed
          exact Or.inr (Or.inl ⟨Bool.eq_false_iff.mpr open_, dialed, List.mem_singleton.mp done⟩)
        · rename_i failed
          split at done
          · exact Or.inr (Or.inr ⟨Bool.eq_false_iff.mpr failed, List.mem_singleton.mp done⟩)
          · cases done
  · rw [(response_ignored (fun d h => consumed ⟨d, h⟩) rt now env).2] at done
    cases done

end

section

variable (rt : Runtime) (sc : SyncCoordinator) (now : Int) (env : Env) (peerID : String)
  (payload : FileResponsePayload)

theorem inline_row (path : String) {payload : FileResponsePayload} (named : payload.hash ≠ "")
    (details : PendingDownload) (r file : String) :
    (writeInline rt sc now env path payload details).sc.db.get r file = sc.db.get r file ∨
    (r, file) = (details.repoID, path) ∧ ∃ data, rt.sha256 data = payload.hash ∧
      (writeInline rt sc now env path payload details).sc.db.get r file =
        some { inlineMeta sc.db now path details data (rt.sha256 data) with updatedAt := now } := by
  rw [writeInline_eq]
  split
  · exact Or.inl rfl
  · rename_i data repo checked
    obtain ⟨found, -, digest⟩ := inlineData_some checked
    have known : details.repoID ∈ sc.db.repositories :=
      AList.lookup_isSome.mp (by rw [← DB.getRepository, found]; rfl)
    obtain ⟨db, saved⟩ := DB.save_known
      (m := inlineMeta sc.db now path details data (rt.sha256 data)) known now
    cases env.wrote with
    | false => exact Or.inl rfl
    | true =>
      simp only [if_true, saved, Option.getD_some]
      by_cases here : (r, file) = (details.repoID, path)
      · cases here
        exact Or.inr ⟨rfl, data, digest named, DB.get_save_self saved⟩
      · exact Or.inl (DB.get_save_other saved here)

theorem stream_row (path : String) (payload : FileResponsePayload) (details : PendingDownload)
    (r file : String) :
    (beginStream sc env peerID path payload details).sc.db.get r file = sc.db.get r file ∨
    (r, file) = (details.repoID, path) ∧ env.dialed = false ∧
      maxDownloadRetries ≤ details.retries ∧
      (beginStream sc env peerID path payload details).sc.db.get r file = none := by
  rw [(beginStream_eq _ _ _ _ _ _).1]
  split
  · rename_i final
    by_cases here : (r, file) = (details.repoID, path)
    · cases here
      exact Or.inr ⟨rfl, final.2.1, final.2.2, DB.get_hardDelete_self _ _ _⟩
    · exact Or.inl (DB.get_hardDelete_other _ here)
  · exact Or.inl rfl

theorem response_row (r path : String) :
    (handleFileResponse rt sc now env peerID payload).sc.db.get r path = sc.db.get r path ∨
    ∃ details, Consumes sc peerID payload details ∧
      (r, path) = (details.repoID, clean payload.path) ∧
      ((∃ data, rt.sha256 data = payload.hash ∧
          (handleFileResponse rt sc now env peerID payload).sc.db.get r path =
            some { inlineMeta sc.db now path details data (rt.sha256 data) with updatedAt := now }) ∨
        finalFailure env payload details = true ∧
          (handleFileResponse rt sc now env peerID payload).sc.db.get r path = none) := by
  by_cases consumed : ∃ details, Consumes sc peerID payload details
  · obtain ⟨details, consumed⟩ := consumed
    rw [response_consumed consumed rt now env]
    split
    · rcases inline_row rt (sc.taken (clean payload.path) payload.hash) now env
        (clean payload.path) (validate_hash consumed.1 consumed.2.1) details r path with
        same | ⟨here, data, digest, row⟩
      · exact Or.inl same
      · cases here
        exact Or.inr ⟨details, consumed, rfl, Or.inl ⟨data, digest, row⟩⟩
    · rename_i stream
      rcases stream_row (sc.taken (clean payload.path) payload.hash) env peerID
        (clean payload.path) payload details r path with same | ⟨here, failed, last, row⟩
      · exact Or.inl same
      · refine Or.inr ⟨details, consumed, here, Or.inr ⟨?_, row⟩⟩
        simp [finalFailure, not_not.mp stream, failed, last]
  · left
    rw [(response_ignored (fun d h => consumed ⟨d, h⟩) rt now env).1]

def SameFrame (a b : SyncCoordinator) : Prop :=
  a.localPeerID = b.localPeerID ∧ a.workers = b.workers ∧ a.connections = b.connections ∧
    a.db.repositories = b.db.repositories

theorem response_touches : ∃ db pending,
    (handleFileResponse rt sc now env peerID payload).sc =
        { sc with db := db, pendingDownloads := pending } ∧
      db.repositories = sc.db.repositories := by
  by_cases consumed : ∃ details, Consumes sc peerID payload details
  · obtain ⟨details, consumed⟩ := consumed
    rw [response_consumed consumed rt now env]
    split
    · rw [writeInline_eq]
      split
      · exact ⟨_, _, rfl, rfl⟩
      · rename_i data repo checked
        cases env.wrote with
        | false => exact ⟨_, _, rfl, rfl⟩
        | true =>
          refine ⟨_, _, rfl, ?_⟩
          cases saved : (sc.taken (clean payload.path) payload.hash).db.save now
              (inlineMeta (sc.taken (clean payload.path) payload.hash).db now
                (clean payload.path) details data (rt.sha256 data)) with
          | none => rfl
          | some db => exact (DB.save_some saved).2.1
    · rw [(beginStream_eq _ _ _ _ _ _).1]
      split <;> exact ⟨_, _, rfl, rfl⟩
  · rw [(response_ignored (fun d h => consumed ⟨d, h⟩) rt now env).1]
    exact ⟨_, _, rfl, rfl⟩

theorem response_frame : SameFrame (handleFileResponse rt sc now env peerID payload).sc sc := by
  obtain ⟨db, pending, eq, kept⟩ := response_touches rt sc now env peerID payload
  rw [eq]
  exact ⟨rfl, rfl, rfl, kept⟩

theorem SameFrame.setup {a b : SyncCoordinator} (frame : SameFrame a b) : SameSetup a b :=
  ⟨frame.1, frame.2.1, frame.2.2.2⟩

theorem resolution_touches (repoID path resolution peerID : String) : ∃ db,
    (handleConflictResolution sc repoID path resolution peerID).sc = { sc with db := db } ∧
      db.repositories = sc.db.repositories := by
  unfold handleConflictResolution
  split_ifs <;> exact ⟨_, rfl, rfl⟩

theorem resolution_frame (repoID path resolution peerID : String) :
    SameFrame (handleConflictResolution sc repoID path resolution peerID).sc sc := by
  obtain ⟨db, eq, kept⟩ := resolution_touches sc repoID path resolution peerID
  rw [eq]
  exact ⟨rfl, rfl, rfl, kept⟩

theorem message_setup (msg : P2PMessage) :
    SameSetup (handleP2PMessage rt sc now env peerID msg).sc sc := by
  cases msg with
  | fileMetadataUpdate repoID u =>
    obtain ⟨named, workers, -, known⟩ := peer_frame rt sc now env.missing peerID repoID u
    exact ⟨named, workers, known⟩
  | fileRequest payload =>
    simp only [handleP2PMessage, (handleFileRequest_spec sc env peerID payload).1]
    exact ⟨rfl, rfl, rfl⟩
  | fileResponse payload => exact (response_frame rt sc now env peerID payload).setup

theorem queueRound_touches : ∃ queue, (queueRound sc).1 = { sc with queue := queue } := by
  unfold queueRound
  split
  · exact ⟨_, rfl⟩
  · split <;> exact ⟨_, rfl⟩

theorem executeSyncTask_touches (sent : Bool) (task : SyncTask) :
    ∃ queue pending, (executeSyncTask sc sent task).1 =
      { sc with queue := queue, pendingDownloads := pending } := by
  simp only [executeSyncTask]
  split
  · exact ⟨_, _, rfl⟩
  · split_ifs <;> exact ⟨_, _, rfl⟩

theorem executeSyncTask_cases (sent : Bool) (task : SyncTask) :
    executeSyncTask sc sent task = (sc, []) ∨
    (∃ pending, pending.entries.Sublist sc.pendingDownloads.entries ∧
      executeSyncTask sc sent task =
        ({ sc with queue := sc.queue.requeue task, pendingDownloads := pending }, [])) ∨
    executeSyncTask sc sent task =
      ({ sc with
        pendingDownloads := sc.pendingDownloads.insert (pendingKey task.filePath task.hash)
          ⟨task.size, task.repoID, task.mode, task.peerID, task.retries⟩ },
        [.sendToPeer task.peerID (.fileRequest ⟨task.filePath, task.hash⟩)]) := by
  simp only [executeSyncTask]
  split
  · exact Or.inl rfl
  · by_cases gone : task.peerID ∉ sc.connections
    · rw [if_pos gone]
      exact Or.inr (Or.inl ⟨_, List.Sublist.refl _, rfl⟩)
    · rw [if_neg gone]
      cases sent with
      | true => exact Or.inr (Or.inr rfl)
      | false => exact Or.inr (Or.inl ⟨_, List.kerase_sublist _ _, rfl⟩)

theorem resolution_row (repoID path resolution peerID r f : String) :
    (handleConflictResolution sc repoID path resolution peerID).sc.db.get r f =
      if resolution = "remote" ∧ (r, f) = (repoID, path) then none else sc.db.get r f := by
  unfold handleConflictResolution
  by_cases keep : resolution = "local"
  · simp [keep]
  · by_cases take : resolution = "remote"
    · subst take
      simp only [keep, if_false, true_and, if_true]
      split
      · rename_i here
        cases here
        exact DB.get_hardDelete_self _ _ _
      · rename_i elsewhere
        exact DB.get_hardDelete_other _ elsewhere
    · simp only [keep, take, false_and, if_false]
      split <;> rfl

end

/-- What a decision sends: the row that is kept, or a blank version that makes
the peer answer with its own. -/
theorem resolution_sends {sc : SyncCoordinator} {repoID path resolution peerID : String}
    {o : Output} (sent : o ∈ (handleConflictResolution sc repoID path resolution peerID).out) :
    (∃ file, o = .removeFile repoID file) ∨
      (resolution = "local" ∧ ∃ m, sc.db.get repoID path = some m ∧
        o = sendMetadataUpdateToPeer sc peerID repoID path m.size (Binary64.wrapUint64 m.version)
          m.hash m.localLastModified m.isDeleted m.mode) ∨
      (resolution = "remote" ∧
        o = sendMetadataUpdateToPeer sc peerID repoID path 0 0 "" 0 false 0) := by
  unfold handleConflictResolution at sent
  split at sent
  · rename_i own
    simp only at sent
    split at sent
    · cases sent
    · rename_i m row
      exact Or.inr (Or.inl ⟨own, m, row, List.mem_singleton.mp sent⟩)
  · split at sent
    · rename_i remote
      rcases List.mem_append.mp sent with sent | sent
      · split at sent
        · cases sent
        · exact Or.inl ⟨_, List.mem_singleton.mp sent⟩
      · exact Or.inr (Or.inr ⟨remote, List.mem_singleton.mp sent⟩)
    · split at sent <;> cases sent

end P2PSync
