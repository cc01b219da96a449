import P2PSync.Daemon
import P2PSync.Library.Transition
import P2PSync.Scan
import P2PSync.Transfer

/-! One machine: the coordinator, its daemons and the files. Peers may send any message
at any time. What has been started and not yet finished is part of the state. -/
namespace P2PSync

/-- A place in the file system, as the pieces of its lexical normal form. -/
abbrev Place := List (List Char)

def placeOf (path : String) : Place := Posix.normal path.toList

structure Host where
  sc : SyncCoordinator
  daemons : List Daemon
  disk : Place → Option Content
  running : List SyncTask
  timers : List SyncTask
  requests : List (String × FileRequestPayload)
  inbox : List (Daemon × IpcMessage)

inductive HostEvent where
  /-- A file in a repository changes and the daemon's report of it is handled. -/
  | fileChanged (now : Int) (repoID : String) (payload : FileChangedPayload)
      (content : Option Content)
  | message (now : Int) (peerID : String) (msg : P2PMessage) (env : Env)
  | queueRound
  | execute (i : Nat) (sent : Bool)
  | retry (i : Nat) (now : Int)
  /-- The coordinator does not look at the error of os.Remove. -/
  | resolve (repoID path resolution peerID : String) (removed : Bool)
  | daemon (i : Nat) (env : DaemonEnv)
  | connect (peerID : String)
  | disconnect (peerID : String)

def Output.timers : Output → List SyncTask
  | .afterFunc _ task => [task]
  | _ => []

def Output.mail : Output → List IpcMessage
  | .sendIpc msg => [msg]
  | _ => []

def Output.happens (removed : Bool) : Output → Bool
  | .removeFile .. => removed
  | _ => true

namespace Host

def setFile (h : Host) (path : String) (content : Option Content) : Host :=
  { h with disk := fun place => if place = placeOf path then content else h.disk place }

section

variable (rt : Runtime) (h : Host) (repoID path peerID : String)

theorem setFile_disk (content : Option Content) (place : Place) :
    (h.setFile path content).disk place = if place = placeOf path then content else h.disk place :=
  rfl

def perform (h : Host) : Output → Host
  | .sendToPeer peerID (.fileRequest payload) =>
    { h with requests := h.requests ++ [(peerID, payload)] }
  | .sendIpc msg => { h with inbox := h.inbox ++ h.daemons.map (·, msg) }
  | .writeFile _ path data _ written =>
    match written.content data with
    | none => h
    | some content => h.setFile path (some content)
  | .removeFile _ path => h.setFile path none
  | .afterFunc _ task => { h with timers := h.timers ++ [task] }
  | _ => h

def performAll (h : Host) (out : List Output) : Host := out.foldl perform h

def touched (h : Host) (out : List Output) : List (String × FileOp) :=
  out.flatMap fun
    | .readFile repoID path =>
      ((h.sc.db.getRepository repoID).map (fun r => (r.localPath, .openRead path))).toList
    | .writeFile repoID path _ _ _ =>
      ((h.sc.db.getRepository repoID).map (fun r => (r.localPath, .openWrite path))).toList
    | .removeFile repoID path =>
      ((h.sc.db.getRepository repoID).map (fun r => (r.localPath, .remove path))).toList
    | _ => []

def filePath (h : Host) (repoID path : String) : Option String :=
  (h.sc.db.getRepository repoID).map (fun repo => join repo.localPath path)

def edit (h : Host) (repoID path : String) (content : Option Content) : Host :=
  match h.filePath repoID path with
  | some file => h.setFile file content
  | none => h

def reports (rt : Runtime) (payload : FileChangedPayload) : Option Content → Bool
  | none => payload.action = .delete
  | some data =>
    payload.action ≠ .delete ∧ payload.hash = rt.sha256 data ∧ payload.size = data.length

def applyEffect (h : Host) : FileEffect → Host
  | .none => h
  | .removed path => h.setFile path none
  | .replaced path data => h.setFile path (some data)

def answered (h : Host) (peerID : String) : P2PMessage → Host
  | .fileResponse payload =>
    { h with requests := h.requests.erase (peerID, ⟨payload.path, payload.hash⟩) }
  | _ => h

def outputs (rt : Runtime) (h : Host) : HostEvent → List Output
  | .fileChanged now repoID payload _ => (handleLocalFileChanged h.sc now repoID payload).out
  | .message now peerID msg env => (handleP2PMessage rt h.sc now env peerID msg).out
  | .execute i sent => h.running[i]?.elim [] (fun task => (executeSyncTask h.sc sent task).2)
  | .resolve repoID path resolution peerID removed =>
    (handleConflictResolution h.sc repoID path resolution peerID).out.filter
      (Output.happens removed)
  | .connect peerID =>
    syncAllRepositoriesWithPeer { h.sc with connections := h.sc.connections.insert peerID } peerID
  | _ => []

def next (rt : Runtime) (h : Host) : HostEvent → Option Host
  | .fileChanged now repoID payload content =>
    if payload.Valid ∧ reports rt payload content then
      let changed := h.edit repoID (relativePath h.sc repoID payload.path) content
      let result := handleLocalFileChanged h.sc now repoID payload
      some (({ changed with sc := result.sc }).performAll result.out)
    else none
  | .message now peerID msg env =>
    let result := handleP2PMessage rt h.sc now env peerID msg
    some (({ h.answered peerID msg with sc := result.sc }).performAll result.out)
  | .queueRound =>
    let (sc, task) := P2PSync.queueRound h.sc
    some { h with sc := sc, running := h.running ++ task.toList }
  | .execute i sent =>
    h.running[i]?.map fun task =>
      let (sc, out) := executeSyncTask h.sc sent task
      ({ h with sc := sc, running := h.running.eraseIdx i }).performAll out
  | .retry i now =>
    h.timers[i]?.map fun task =>
      { h with sc := retryDownload rt h.sc now task, timers := h.timers.eraseIdx i }
  | .resolve repoID path resolution peerID removed =>
    let result := handleConflictResolution h.sc repoID path resolution peerID
    some (({ h with sc := result.sc }).performAll (result.out.filter (Output.happens removed)))
  | .daemon i env =>
    h.inbox[i]?.map fun x =>
      ({ h with inbox := h.inbox.eraseIdx i }).applyEffect (handleIpcMessage rt x.1 env x.2).2
  | .connect peerID =>
    let sc := { h.sc with connections := h.sc.connections.insert peerID }
    some (({ h with sc := sc }).performAll (syncAllRepositoriesWithPeer sc peerID))
  | .disconnect peerID =>
    some { h with
      sc := { h.sc with connections := h.sc.connections.filter (· ≠ peerID) }
      requests := h.requests.filter (·.1 ≠ peerID) }

/-- The files touched for a peer: while its message is handled, or while a daemon
does what it was told because of it. -/
def accesses (rt : Runtime) (h : Host) : HostEvent → List (String × FileOp)
  | .message now peerID msg env => h.touched (handleP2PMessage rt h.sc now env peerID msg).out
  | .daemon i env =>
    match h.inbox[i]? with
    | some x => (handleIpcMessage rt x.1 env x.2).1.map (x.1.watchPath, ·)
    | none => []
  | _ => []

theorem applyEffect_frame (effect : FileEffect) :
    (h.applyEffect effect).sc = h.sc ∧ (h.applyEffect effect).inbox = h.inbox ∧
      (h.applyEffect effect).running = h.running ∧ (h.applyEffect effect).timers = h.timers ∧
      (h.applyEffect effect).requests = h.requests ∧
      (h.applyEffect effect).daemons = h.daemons := by
  cases effect <;> exact ⟨rfl, rfl, rfl, rfl, rfl, rfl⟩

theorem edit_frame (content : Option Content) :
    (h.edit repoID path content).sc = h.sc ∧ (h.edit repoID path content).inbox = h.inbox ∧
      (h.edit repoID path content).running = h.running ∧
      (h.edit repoID path content).timers = h.timers ∧
      (h.edit repoID path content).requests = h.requests ∧
      (h.edit repoID path content).daemons = h.daemons := by
  unfold edit
  split <;> exact ⟨rfl, rfl, rfl, rfl, rfl, rfl⟩

theorem perform_sc (o : Output) : (h.perform o).sc = h.sc := by
  unfold perform
  split
  all_goals first | rfl | (split <;> rfl)

theorem perform_daemons (o : Output) : (h.perform o).daemons = h.daemons := by
  unfold perform
  split
  all_goals first | rfl | (split <;> rfl)

theorem performAll_sc (out : List Output) : (h.performAll out).sc = h.sc := by
  induction out generalizing h with
  | nil => rfl
  | cons o out ih => exact (ih (h.perform o)).trans (perform_sc h o)

theorem performAll_daemons (out : List Output) : (h.performAll out).daemons = h.daemons := by
  induction out generalizing h with
  | nil => rfl
  | cons o out ih => exact (ih (h.perform o)).trans (perform_daemons h o)

theorem perform_inbox {h : Host} {o : Output} {x : Daemon × IpcMessage}
    (member : x ∈ (h.perform o).inbox) : x ∈ h.inbox ∨ x.1 ∈ h.daemons ∧ o = .sendIpc x.2 := by
  unfold perform at member
  split at member
  · exact Or.inl member
  · refine (List.mem_append.mp member).imp id (fun sent => ?_)
    obtain ⟨d, inside, rfl⟩ := List.mem_map.mp sent
    exact ⟨inside, rfl⟩
  · split at member <;> exact Or.inl member
  all_goals exact Or.inl member

theorem performAll_inbox {h : Host} {out : List Output} {x : Daemon × IpcMessage}
    (member : x ∈ (h.performAll out).inbox) :
    x ∈ h.inbox ∨ x.1 ∈ h.daemons ∧ .sendIpc x.2 ∈ out := by
  induction out generalizing h with
  | nil => exact Or.inl member
  | cons o out ih =>
    rcases ih member with old | ⟨inside, sent⟩
    · rcases perform_inbox old with old | ⟨inside, rfl⟩
      · exact Or.inl old
      · exact Or.inr ⟨inside, List.mem_cons_self⟩
    · exact Or.inr ⟨perform_daemons h o ▸ inside, List.mem_cons_of_mem _ sent⟩

theorem perform_rest (o : Output) : (h.perform o).running = h.running ∧
    (h.perform o).timers = h.timers ++ o.timers ∧
    (h.perform o).inbox = h.inbox ++ o.mail.flatMap (fun msg => h.daemons.map (·, msg)) := by
  cases o with
  | sendToPeer peerID msg => cases msg <;> simp [perform, Output.timers, Output.mail]
  | writeFile repoID path data mode written =>
    cases written <;> simp [perform, Written.content, Output.timers, Output.mail, setFile]
  | _ => simp [perform, Output.timers, Output.mail, setFile]

theorem performAll_rest (out : List Output) : (h.performAll out).running = h.running ∧
    (h.performAll out).timers = h.timers ++ out.flatMap Output.timers ∧
    (h.performAll out).inbox =
      h.inbox ++ (out.flatMap Output.mail).flatMap (fun msg => h.daemons.map (·, msg)) := by
  induction out generalizing h with
  | nil => simp [performAll]
  | cons o out ih =>
    obtain ⟨running, timers, inbox⟩ := perform_rest h o
    obtain ⟨running', timers', inbox'⟩ := ih (h.perform o)
    refine ⟨running'.trans running, ?_, ?_⟩
    · refine timers'.trans ?_
      rw [timers, List.flatMap_cons, List.append_assoc]
    · refine inbox'.trans ?_
      rw [inbox, perform_daemons, List.flatMap_cons, List.flatMap_append, List.append_assoc]

theorem next_message (now : Int) (peerID : String) (msg : P2PMessage) (env : Env) :
    ∃ after, h.next rt (.message now peerID msg env) = some after :=
  ⟨_, rfl⟩

theorem next_queueRound {rt : Runtime} {h after : Host}
    (moved : h.next rt .queueRound = some after) : after = { h with
      sc := (P2PSync.queueRound h.sc).1
      running := h.running ++ (P2PSync.queueRound h.sc).2.toList } :=
  (Option.some.inj moved).symm

theorem next_remote (removed : Bool) :
    h.next rt (.resolve repoID path "remote" peerID removed) = some {
      (if removed then h.edit repoID path none else h) with
      sc := { h.sc with db := h.sc.db.hardDelete repoID path } } := by
  have other : ¬ "remote" = "local" := by decide
  have kept : (h.sc.db.hardDelete repoID path).getRepository repoID =
      h.sc.db.getRepository repoID := rfl
  simp only [next, handleConflictResolution, other, if_false, if_true, kept, edit, filePath]
  cases h.sc.db.getRepository repoID <;> cases removed <;> rfl

end

section Response

variable {rt : Runtime} {h : Host} {peerID : String} {payload : FileResponsePayload}
  {details : PendingDownload} (now : Int) (env : Env)

def matched (h : Host) (peerID : String) (payload : FileResponsePayload) : Host :=
  { h.answered peerID (.fileResponse payload) with
    sc := h.sc.taken (clean payload.path) payload.hash }

theorem next_ignored (ignored : ∀ details, ¬ Consumes h.sc peerID payload details) :
    h.next rt (.message now peerID (.fileResponse payload) env) =
      some (h.answered peerID (.fileResponse payload)) := by
  obtain ⟨same, silent⟩ := response_ignored ignored rt now env
  simp only [next, handleP2PMessage, same, silent, performAll, List.foldl_nil]
  rfl

theorem next_inline (consumed : Consumes h.sc peerID payload details)
    (inline : payload.contentBase64 ≠ "") :
    h.next rt (.message now peerID (.fileResponse payload) env) = some (
      match inlineData rt h.sc (clean payload.path) payload details with
      | none => h.matched peerID payload
      | some (data, repo) =>
        if env.wrote then
          ({ h.matched peerID payload with
            sc := { h.sc.taken (clean payload.path) payload.hash with
              db := (h.sc.db.save now (inlineMeta h.sc.db now (clean payload.path) details data
                (rt.sha256 data))).getD h.sc.db } }).setFile
            (join repo.localPath (clean payload.path)) (some data)
        else (h.matched peerID payload).perform (.writeFile details.repoID
          (join repo.localPath (clean payload.path)) data details.mode env.write)) := by
  simp only [next, handleP2PMessage, response_consumed consumed rt now env, if_pos inline,
    writeInline_eq]
  have same : inlineData rt (h.sc.taken (clean payload.path) payload.hash) (clean payload.path)
      payload details = inlineData rt h.sc (clean payload.path) payload details := rfl
  rw [same]
  cases inlineData rt h.sc (clean payload.path) payload details with
  | none => rfl
  | some x =>
    cases written : env.write with
    | whole =>
      simp only [performAll, perform, matched, List.foldl_cons, List.foldl_nil, Env.wrote, written,
        Written.content, decide_true, if_true]
      rfl
    | _ => simp [performAll, perform, matched, Env.wrote, written]

theorem next_stream (consumed : Consumes h.sc peerID payload details)
    (stream : payload.contentBase64 = "") :
    h.next rt (.message now peerID (.fileResponse payload) env) = some (
      if streamRefused (clean payload.path) then h.matched peerID payload
      else if env.dialed then
        { h.matched peerID payload with
          inbox := h.inbox ++ h.daemons.map (·, .prepareFileTransfer (clean payload.path)
            details.repoID peerID payload.hash details.size .download details.mode) }
      else if details.retries < maxDownloadRetries then
        { h.matched peerID payload with
          timers := h.timers ++ [retryTask (clean payload.path) payload details] }
      else
        { h.matched peerID payload with
          sc := { h.sc.taken (clean payload.path) payload.hash with
            db := h.sc.db.hardDelete details.repoID (clean payload.path) } }) := by
  obtain ⟨sc', out⟩ := beginStream_eq (h.sc.taken (clean payload.path) payload.hash) env peerID
    (clean payload.path) payload details
  simp only [next, handleP2PMessage, response_consumed consumed rt now env, stream, ne_eq,
    not_true_eq_false, if_false, sc', out]
  cases streamRefused (clean payload.path) with
  | true => simp [performAll, matched]
  | false =>
    cases env.dialed with
    | true => simp [performAll, perform, matched, answered]
    | false =>
      by_cases again : details.retries < maxDownloadRetries
      · simp [again, not_le.mpr again, performAll, perform, matched, answered]
      · simp [again, not_lt.mp again, performAll, matched]
        rfl

end Response

theorem next_setup {rt : Runtime} {h after : Host} {event : HostEvent}
    (moved : h.next rt event = some after) : SameSetup after.sc h.sc := by
  cases event with
  | fileChanged now repoID payload content =>
    simp only [next] at moved
    split at moved
    · cases moved
      rw [performAll_sc]
      obtain ⟨named, workers, -, known⟩ := local_frame h.sc now repoID payload
      exact ⟨named, workers, known⟩
    · cases moved
  | message now peerID msg env =>
    cases moved
    rw [performAll_sc]
    exact message_setup rt h.sc now env peerID msg
  | queueRound =>
    obtain ⟨queue, popped⟩ := queueRound_touches h.sc
    rw [next_queueRound moved, popped]
    exact ⟨rfl, rfl, rfl⟩
  | execute i sent =>
    obtain ⟨task, -, rfl⟩ := Option.map_eq_some_iff.mp moved
    obtain ⟨queue, pending, executed⟩ := executeSyncTask_touches h.sc sent task
    rw [performAll_sc, executed]
    exact ⟨rfl, rfl, rfl⟩
  | retry i now =>
    obtain ⟨task, -, rfl⟩ := Option.map_eq_some_iff.mp moved
    exact ⟨rfl, rfl, rfl⟩
  | resolve repoID path resolution peerID =>
    cases moved
    rw [performAll_sc]
    exact (resolution_frame h.sc repoID path resolution peerID).setup
  | daemon i env =>
    obtain ⟨x, -, rfl⟩ := Option.map_eq_some_iff.mp moved
    rw [(applyEffect_frame _ _).1]
    exact ⟨rfl, rfl, rfl⟩
  | connect peerID =>
    cases moved
    rw [performAll_sc]
    exact ⟨rfl, rfl, rfl⟩
  | disconnect peerID =>
    cases moved
    exact ⟨rfl, rfl, rfl⟩

/-- A machine on which nothing has been started yet. Every daemon watches the
directory of a repository in the store. -/
structure Initial (h : Host) : Prop where
  idle : h.running = [] ∧ h.timers = [] ∧ h.requests = [] ∧ h.inbox = []
  fresh : h.sc.queue = .new ∧ h.sc.pendingDownloads = ∅
  watched : ∀ d ∈ h.daemons, ∃ repo, h.sc.db.getRepository d.repoID = some repo ∧
    repo.localPath = d.watchPath

def started (peerID repoID root : String) (connections : List String) : Host where
  sc := { addRepository (.new peerID) 0 repoID root with connections := connections }
  daemons := [⟨repoID, root⟩]
  disk := fun _ => none
  running := []
  timers := []
  requests := []
  inbox := []

theorem started_initial (peerID repoID root : String) (connections : List String) :
    (started peerID repoID root connections).Initial where
  idle := ⟨rfl, rfl, rfl, rfl⟩
  fresh := ⟨rfl, rfl⟩
  watched := by
    intro d member
    cases List.mem_singleton.mp member
    exact ⟨_, AList.lookup_insert _, rfl⟩

end Host

def Env.fine : Env := ⟨false, none, .ok 40000, .whole, true⟩

def DaemonEnv.fine (stream : Content) : DaemonEnv :=
  ⟨true, true, true, true, true, stream, true, true, false⟩

end P2PSync
