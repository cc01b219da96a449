import P2PSync.Host

/-! Rows whose content has still to be fetched. What stands for the file meanwhile is a
task, a request, a session or a timer, and not each of them leaves another one behind.
-/
namespace P2PSync

open Transition

def SyncTask.fetches (t : SyncTask) (m : FileMetadata) : Bool :=
  t.repoID = m.repositoryID ∧ t.type = .download ∧ t.filePath = m.filepath ∧ t.hash = m.hash

def IpcMessage.carries (m : FileMetadata) : IpcMessage → Bool
  | .prepareFileTransfer path repoID _ hash _ direction _ =>
    direction = .download ∧ repoID = m.repositoryID ∧ path = m.filepath ∧ hash = m.hash
  | _ => false

def Host.Waiting (h : Host) (t : SyncTask) : Prop :=
  t ∈ h.sc.queue.tasks t.repoID ∨ t ∈ h.running ∨ t ∈ h.timers

/-- What can stand for the missing content of a row: a download that waits, a
request to a connected peer without an answer, or a session that has not ended. -/
inductive Owed (h : Host) (m : FileMetadata) : Prop where
  | task (t : SyncTask) : h.Waiting t → t.fetches m = true → Owed h m
  | requested (peerID : String) (details : PendingDownload) :
      (peerID, ⟨m.filepath, m.hash⟩) ∈ h.requests → peerID ∈ h.sc.connections →
      h.sc.pendingDownloads.lookup (pendingKey m.filepath m.hash) = some details →
      details.repoID = m.repositoryID → Owed h m
  | session (d : Daemon) (msg : IpcMessage) :
      (d, msg) ∈ h.inbox → d.repoID = m.repositoryID → msg.carries m = true → Owed h m

section Conditions

variable (rt : Runtime) (h : Host)

def onDisk (m : FileMetadata) : Bool :=
  (h.filePath m.repositoryID m.filepath).any
    (fun file => (h.disk (placeOf file)).any (rt.sha256 · = m.hash))

/-- No row but the given one loses its content when a file is replaced or removed. -/
def harmless (file : String) (content : Option Content) (row : Option (String × String)) : Bool :=
  h.sc.db.live.all fun m =>
    row = some (m.repositoryID, m.filepath) ∨ onDisk rt h m = false ∨
      (h.filePath m.repositoryID m.filepath).all (placeOf · ≠ placeOf file) ∨
      content.any (rt.sha256 · = m.hash)

def sole (key path : String) : Bool :=
  h.sc.db.live.all (fun m => pendingKey m.filepath m.hash ≠ key ∨ m.filepath = path)

/-- An accepted update that finds a download under its key finds one that is
still on its way, and for the same repository. -/
def owedUpdate (peerID repoID : String) (u : Update) : Bool :=
  ignoredPath u.path ∨ (decision h.sc peerID repoID u).action ≠ .acceptRemote ∨ u.isDeleted ∨
    (h.sc.pendingDownloads.lookup (pendingKey u.path u.hash)).all (fun details =>
      details.repoID = repoID ∧
        h.requests.any (fun r => r.1 ∈ h.sc.connections ∧ r.2 = ⟨u.path, u.hash⟩))

/-- A response that ends a request or a pending download brings the content, or
starts something that can. -/
def owedResponse (env : Env) (peerID : String) (payload : FileResponsePayload) : Bool :=
  let path := clean payload.path
  let asked : Bool := (peerID, ⟨payload.path, payload.hash⟩) ∈ h.requests
  if payload.validate ≠ none ∨ payload.error ≠ "" ∨ peerID ∉ h.sc.connections then !asked
  else
    match h.sc.pendingDownloads.lookup (pendingKey path payload.hash) with
    | none => !asked
    | some details =>
      (!asked ∨ path = payload.path) ∧ sole h (pendingKey path payload.hash) path ∧
        if payload.contentBase64 ≠ "" then
          (inlineData rt h.sc path payload details).any (fun x => env.wrote ∧
            harmless rt h (join x.2.localPath path) (some x.1) (some (details.repoID, path)))
        else
          !streamRefused path ∧ (env.dialed → h.daemons.any (·.repoID = details.repoID))

def received (env : DaemonEnv) : IpcMessage → Bool
  | .prepareFileTransfer path _ _ hash size _ _ =>
    env.connected ∧ env.directory ∧ env.opened ∧ env.renamed ∧ 0 ≤ size ∧
      (env.stream.take size.toNat).length = size ∧ rt.sha256 (env.stream.take size.toNat) = hash ∧
      '\\' ∉ path.toList ∧ isAbs path = false
  | _ => false

def harmlessEffect : FileEffect → Bool
  | .none => true
  | .removed file => harmless rt h file none none
  | .replaced file data => harmless rt h file (some data) none

def owedEvent : HostEvent → Bool
  | .fileChanged _ repoID payload content =>
    let path := relativePath h.sc repoID payload.path
    repoID ∈ h.sc.workers ∧ hasSuffix path ".tmp" = false ∧
      (h.filePath repoID path).all (fun file => harmless rt h file content (some (repoID, path)))
  | .message _ peerID (.fileMetadataUpdate repoID u) _ => owedUpdate h peerID repoID u
  | .message _ peerID (.fileResponse payload) env => owedResponse rt h env peerID payload
  | .execute i _ => h.running[i]?.all (fun task =>
      task.peerID ∉ h.sc.connections ∨
        ((h.sc.pendingDownloads.lookup (pendingKey task.filePath task.hash)).all
            (·.repoID = task.repoID) ∧
          sole h (pendingKey task.filePath task.hash) task.filePath))
  | .resolve repoID path resolution _ removed => resolution = "remote" → removed = true →
      (h.filePath repoID path).all (fun file => harmless rt h file none (some (repoID, path)))
  | .daemon i env => h.inbox[i]?.all (fun x =>
      harmlessEffect rt h (handleIpcMessage rt x.1 env x.2).2 ∧
        h.sc.db.live.all (fun m => x.1.repoID ≠ m.repositoryID ∨ x.2.carries m = false ∨
          received rt env x.2))
  | .disconnect peerID => h.requests.all (·.1 ≠ peerID)
  | _ => true

end Conditions

structure Ledger (rt : Runtime) (h : Host) : Prop where
  queue : h.sc.queue.Placed
  inbox : ∀ x ∈ h.inbox, x.1 ∈ h.daemons
  watched : ∀ d ∈ h.daemons, ∃ repo, h.sc.db.getRepository d.repoID = some repo ∧
    repo.localPath = d.watchPath
  rows : ∀ m ∈ h.sc.db.live, onDisk rt h m = true ∨ Owed h m

section Frames

variable {rt : Runtime} {h h' : Host} {m : FileMetadata}

theorem onDisk_same (repositories : h'.sc.db.repositories = h.sc.db.repositories)
    (disk : h'.disk = h.disk) (m : FileMetadata) : onDisk rt h' m = onDisk rt h m := by
  simp only [onDisk, Host.filePath, DB.getRepository, repositories, disk]

theorem onDisk_iff : onDisk rt h m = true ↔ ∃ file data,
    h.filePath m.repositoryID m.filepath = some file ∧ h.disk (placeOf file) = some data ∧
      rt.sha256 data = m.hash := by
  cases named : h.filePath m.repositoryID m.filepath with
  | none => simp [onDisk, named]
  | some file => cases there : h.disk (placeOf file) <;> simp [onDisk, named, there]

theorem filePath_same (repositories : h'.sc.db.repositories = h.sc.db.repositories)
    (repoID path : String) : h'.filePath repoID path = h.filePath repoID path := by
  simp only [Host.filePath, DB.getRepository, repositories]

theorem filePath_of_live (row : h.sc.db.get m.repositoryID m.filepath = some m) :
    ∃ file, h.filePath m.repositoryID m.filepath = some file := by
  have known := DB.repository_of_get row
  obtain ⟨repo, found⟩ := Option.isSome_iff_exists.mp (AList.lookup_isSome.mpr known)
  exact ⟨join repo.localPath m.filepath, by
    simp only [Host.filePath, DB.getRepository, found, Option.map_some]⟩

theorem onDisk_harmless {file : String} {content : Option Content} {row : Option (String × String)}
    (repositories : h'.sc.db.repositories = h.sc.db.repositories)
    (disk : h'.disk = (h.setFile file content).disk) (safe : harmless rt h file content row = true)
    (live : m ∈ h.sc.db.live) (other : row ≠ some (m.repositoryID, m.filepath))
    (there : onDisk rt h m = true) : onDisk rt h' m = true := by
  have kept := of_decide_eq_true (List.all_eq_true.mp safe m live)
  obtain ⟨path, data, named, found, digest⟩ := onDisk_iff.mp there
  rcases kept with same | gone | elsewhere | again
  · exact absurd same other
  · rw [there] at gone
    cases gone
  · rw [named, Option.all_some, decide_eq_true_eq] at elsewhere
    refine onDisk_iff.mpr ⟨path, data, (filePath_same repositories _ _).trans named, ?_, digest⟩
    rw [disk, Host.setFile_disk, if_neg elsewhere]
    exact found
  · by_cases here : placeOf path = placeOf file
    · cases content with
      | none => cases again
      | some new =>
        refine onDisk_iff.mpr ⟨path, new, (filePath_same repositories _ _).trans named, ?_,
          of_decide_eq_true again⟩
        rw [disk, Host.setFile_disk, if_pos here]
    · refine onDisk_iff.mpr ⟨path, data, (filePath_same repositories _ _).trans named, ?_, digest⟩
      rw [disk, Host.setFile_disk, if_neg here]
      exact found

structure Grows (h h' : Host) : Prop where
  waiting : ∀ t, h.Waiting t → h'.Waiting t
  requests : h.requests ⊆ h'.requests
  connections : h.sc.connections ⊆ h'.sc.connections
  pending : h'.sc.pendingDownloads = h.sc.pendingDownloads
  inbox : h.inbox ⊆ h'.inbox

theorem Grows.refl (h : Host) : Grows h h :=
  ⟨fun _ => id, fun _ => id, fun _ => id, rfl, fun _ => id⟩

theorem Grows.trans {a b c : Host} (ab : Grows a b) (bc : Grows b c) : Grows a c where
  waiting := fun t h => bc.waiting t (ab.waiting t h)
  requests := List.Subset.trans ab.requests bc.requests
  connections := List.Subset.trans ab.connections bc.connections
  pending := bc.pending.trans ab.pending
  inbox := List.Subset.trans ab.inbox bc.inbox

theorem Owed.mono (grows : Grows h h') (owed : Owed h m) : Owed h' m := by
  cases owed with
  | task t waiting fetches => exact .task t (grows.waiting t waiting) fetches
  | requested peerID details sent connected pending repo =>
    exact .requested peerID details (grows.requests sent) (grows.connections connected)
      (grows.pending ▸ pending) repo
  | session d msg sent own carries => exact .session d msg (grows.inbox sent) own carries

end Frames

namespace Host

def touches : Output → Bool
  | .writeFile .. => true
  | .removeFile .. => true
  | _ => false

theorem setFile_grows (h : Host) (path : String) (content : Option Content) :
    Grows h (h.setFile path content) :=
  ⟨fun _ => id, fun _ => id, fun _ => id, rfl, fun _ => id⟩

theorem perform_grows (h : Host) (o : Output) : Grows h (h.perform o) := by
  unfold perform
  split
  · exact ⟨fun _ => id, List.subset_append_left _ _, fun _ => id, rfl, fun _ => id⟩
  · exact ⟨fun _ => id, fun _ => id, fun _ => id, rfl, List.subset_append_left _ _⟩
  · split
    · exact Grows.refl h
    · exact setFile_grows ..
  · exact setFile_grows ..
  · refine ⟨fun t waiting => ?_, fun _ => id, fun _ => id, rfl, fun _ => id⟩
    exact waiting.imp_right (Or.imp_right (List.mem_append_left _))
  · exact Grows.refl h

theorem performAll_grows (h : Host) (out : List Output) : Grows h (h.performAll out) := by
  induction out generalizing h with
  | nil => exact Grows.refl h
  | cons o out ih => exact (perform_grows h o).trans (ih (h.perform o))

theorem performAll_disk {h : Host} {out : List Output} (quiet : ∀ o ∈ out, touches o = false) :
    (h.performAll out).disk = h.disk := by
  induction out generalizing h with
  | nil => rfl
  | cons o out ih =>
    have first : (h.perform o).disk = h.disk := by
      have still := quiet o List.mem_cons_self
      cases o with
      | sendToPeer peerID msg => cases msg <;> rfl
      | writeFile => cases still
      | removeFile => cases still
      | _ => rfl
    exact (ih (fun x member => quiet x (List.mem_cons_of_mem _ member))).trans first

theorem performAll_broadcasts {h : Host} {out : List Output}
    (all : ∀ o ∈ out, ∃ msg, o = .broadcast msg) : h.performAll out = h := by
  induction out with
  | nil => rfl
  | cons o out ih =>
    obtain ⟨msg, rfl⟩ := all o List.mem_cons_self
    exact ih (fun x member => all x (List.mem_cons_of_mem _ member))

end Host

section Events

variable {rt : Runtime} {h after : Host} {m : FileMetadata}

theorem Ledger.watched_same (before : Ledger rt h)
    (repositories : after.sc.db.repositories = h.sc.db.repositories)
    (daemons : after.daemons = h.daemons) : ∀ d ∈ after.daemons, ∃ repo,
      after.sc.db.getRepository d.repoID = some repo ∧ repo.localPath = d.watchPath := by
  rw [daemons]
  simp only [DB.getRepository, repositories]
  exact before.watched

theorem edit_others (before : Ledger rt h) {repoID path : String} {content : Option Content}
    (repositories : after.sc.db.repositories = h.sc.db.repositories)
    (disk : after.disk = (h.edit repoID path content).disk) (grows : Grows h after)
    (safe : (h.filePath repoID path).all
      (fun file => harmless rt h file content (some (repoID, path))) = true)
    (old : m ∈ h.sc.db.live) (other : (m.repositoryID, m.filepath) ≠ (repoID, path)) :
    onDisk rt after m = true ∨ Owed after m := by
  refine (before.rows m old).imp (fun there => ?_) (Owed.mono grows)
  cases named : h.filePath repoID path with
  | none =>
    rw [onDisk_same repositories (by rw [disk, Host.edit, named])]
    exact there
  | some file =>
    rw [named, Option.all_some] at safe
    exact onDisk_harmless repositories (by rw [disk, Host.edit, named]) safe old
      (fun h => other (Option.some.inj h).symm) there

theorem edit_shown {repoID path : String} {data : Content}
    (repositories : after.sc.db.repositories = h.sc.db.repositories)
    (disk : after.disk = (h.edit repoID path (some data)).disk) (live : m ∈ after.sc.db.live)
    (here : (m.repositoryID, m.filepath) = (repoID, path)) (hash : m.hash = rt.sha256 data) :
    onDisk rt after m = true := by
  obtain ⟨repo, name⟩ := Prod.mk.inj here
  obtain ⟨file, named⟩ := filePath_of_live (DB.mem_live.mp live).1
  have same := (filePath_same repositories _ _).symm.trans named
  rw [repo, name] at same
  refine onDisk_iff.mpr ⟨file, data, named, ?_, hash.symm⟩
  rw [disk, Host.edit, same]
  exact if_pos rfl

theorem ledger_fileChanged (before : Ledger rt h) {now : Int} {repoID : String}
    {payload : FileChangedPayload} {content : Option Content}
    (handled : h.next rt (.fileChanged now repoID payload content) = some after)
    (good : owedEvent rt h (.fileChanged now repoID payload content) = true) : Ledger rt after := by
  simp only [Host.next, Option.ite_none_right_eq_some, Option.some.injEq] at handled
  obtain ⟨⟨-, truth⟩, done⟩ := handled
  obtain ⟨active, tmp, safe⟩ := of_decide_eq_true good
  rw [Host.performAll_broadcasts (fun o sent => ⟨_, (local_out sent).2⟩)] at done
  set path := relativePath h.sc repoID payload.path
  obtain ⟨queue, pending⟩ := local_queue h.sc now repoID payload
  obtain ⟨-, -, connections, repositories⟩ := local_frame h.sc now repoID payload
  obtain ⟨-, inbox, running, timers, requests, daemons⟩ := h.edit_frame repoID path content
  have sc : after.sc = (handleLocalFileChanged h.sc now repoID payload).sc := by rw [← done]
  have disk : after.disk = (h.edit repoID path content).disk := by rw [← done]
  have grows : Grows h after := by
    rw [← done]
    exact ⟨fun _ => by simp only [Host.Waiting, queue, running, timers]; exact id,
      by rw [requests]; exact fun _ => id, by rw [connections]; exact fun _ => id, pending,
      by rw [inbox]; exact fun _ => id⟩
  rw [← sc] at queue repositories
  have served : after.daemons = h.daemons := by rw [← done]; exact daemons
  refine ⟨by rw [queue]; exact before.queue, ?_, before.watched_same repositories served, ?_⟩
  · rw [served, show after.inbox = h.inbox by rw [← done]; exact inbox]
    exact before.inbox
  · intro m live
    have shown : (m.repositoryID, m.filepath) = (repoID, path) → m.hash = payload.hash →
        payload.action ≠ .delete → onDisk rt after m = true := by
      intro here hash present
      cases content with
      | none => exact absurd (of_decide_eq_true truth) present
      | some data =>
        exact edit_shown repositories disk live here (hash.trans (of_decide_eq_true truth).2.1)
    have others : m ∈ h.sc.db.live → (m.repositoryID, m.filepath) ≠ (repoID, path) →
        onDisk rt after m = true ∨ Owed after m :=
      edit_others before repositories disk grows safe
    rw [sc] at live
    rcases local_live live with ⟨old, other | dropped⟩ | new
    · exact others old other
    · by_cases here : (m.repositoryID, m.filepath) = (repoID, path)
      · obtain ⟨row, alive⟩ := DB.mem_live.mp old
        obtain ⟨repo, name⟩ := Prod.mk.inj here
        rw [repo, name] at row
        have repeats : redundant m payload = true := by
          refine (Bool.not_eq_false _).mp (fun differs => dropped ⟨active, tmp, ?_⟩)
          rw [row, Option.any_some, differs]
        obtain ⟨hash, -, -, deleted⟩ := of_decide_eq_true repeats
        rw [alive] at deleted
        exact Or.inl (shown here hash (of_decide_eq_false deleted.symm))
      · exact others old here
    · have alive := (DB.mem_live.mp live).2
      rw [new] at alive
      exact Or.inl (shown (by rw [new]; rfl) (by rw [new]; rfl) (of_decide_eq_false alive))

theorem ledger_performAll (before : Ledger rt h) {sc : SyncCoordinator} {out : List Output}
    (quiet : ∀ o ∈ out, Host.touches o = false)
    (repositories : sc.db.repositories = h.sc.db.repositories)
    (queue : sc.queue.Placed) (grows : Grows h { h with sc := sc })
    (rows : ∀ m ∈ sc.db.live, m ∈ h.sc.db.live ∨ Owed { h with sc := sc } m) :
    Ledger rt (({ h with sc := sc }).performAll out) := by
  have kept := (grows.trans (Host.performAll_grows _ out))
  refine ⟨?_, ?_, ?_, ?_⟩
  · rw [Host.performAll_sc]
    exact queue
  · intro x member
    rw [Host.performAll_daemons]
    rcases Host.performAll_inbox member with old | ⟨inside, -⟩
    · exact before.inbox x old
    · exact inside
  · exact before.watched_same (by rw [Host.performAll_sc]; exact repositories)
      (Host.performAll_daemons _ _)
  · intro m live
    rw [Host.performAll_sc] at live
    rcases rows m live with old | owed
    · refine (before.rows m old).imp (fun there => ?_) (Owed.mono kept)
      refine (onDisk_same ?_ ?_ m).trans there
      · rw [Host.performAll_sc]
        exact repositories
      · exact Host.performAll_disk quiet
    · exact Or.inr (owed.mono (Host.performAll_grows _ out))

theorem peer_quiet {sc : SyncCoordinator} {now : Int} {missing : Bool} {peerID repoID : String}
    {u : Update} {o : Output}
    (sent : o ∈ (handlePeerMetadataUpdate rt sc now missing peerID repoID u).2) :
    Host.touches o = false := by
  rcases peer_sends rt now missing sent with ⟨msg, rfl⟩ | ⟨-, -, m, -, rfl⟩ <;> rfl

theorem ledger_update (before : Ledger rt h) {now : Int} {peerID repoID : String} {u : Update}
    {env : Env}
    (handled : h.next rt (.message now peerID (.fileMetadataUpdate repoID u) env) = some after)
    (good : owedUpdate h peerID repoID u = true) : Ledger rt after := by
  cases handled
  set sc := (handlePeerMetadataUpdate rt h.sc now env.missing peerID repoID u).1 with sc_def
  obtain ⟨-, -, connections, repositories⟩ :=
    peer_frame rt h.sc now env.missing peerID repoID u
  obtain ⟨pending, queue⟩ := peer_queue rt h.sc now env.missing peerID repoID u
  have tasks : sc.queue.Placed ∧ ∀ r, h.sc.queue.tasks r ⊆ sc.queue.tasks r := by
    rcases queue with same | pushed
    · rw [sc_def, same]
      exact ⟨before.queue, fun _ _ => id⟩
    · rw [sc_def, pushed]
      exact ⟨before.queue.push _ _, fun r => (SyncQueue.tasks_push _ _ _ r).1⟩
  have grows : Grows h { h with sc := sc } :=
    ⟨fun t => Or.imp_left (fun member => tasks.2 _ member), fun _ => id,
      by rw [connections]; exact fun _ => id, pending, fun _ => id⟩
  refine ledger_performAll before (fun o => peer_quiet) repositories tasks.1 grows ?_
  intro m live
  rcases peer_live live with old | ⟨heard, accept, rfl⟩
  · exact Or.inl old
  · right
    have alive : u.isDeleted = false := (DB.mem_live.mp live).2
    by_cases asked : pendingKey u.path u.hash ∈ h.sc.pendingDownloads
    · obtain ⟨details, found⟩ := Option.isSome_iff_exists.mp (AList.lookup_isSome.mpr asked)
      rcases of_decide_eq_true good with ignored | other | deleted | fine
      · rw [heard] at ignored
        cases ignored
      · exact absurd accept other
      · rw [alive] at deleted
        cases deleted
      · rw [found, Option.all_some] at fine
        obtain ⟨own, open_⟩ := of_decide_eq_true fine
        obtain ⟨⟨peer, request⟩, member, there⟩ := List.any_eq_true.mp open_
        obtain ⟨connected, rfl⟩ := of_decide_eq_true there
        exact .requested peer details member (connections ▸ connected) (pending ▸ found) own
    · obtain ⟨t, member, type, path, hash⟩ :=
        accept_queued rt now env.missing heard accept alive asked
      have own := tasks.1 repoID t member
      exact .task t (Or.inl (own ▸ member)) (decide_eq_true ⟨own, type, path, hash⟩)

theorem ledger_request (before : Ledger rt h) {now : Int} {peerID : String}
    {payload : FileRequestPayload} {env : Env}
    (handled : h.next rt (.message now peerID (.fileRequest payload) env) = some after) :
    Ledger rt after := by
  cases handled
  obtain ⟨same, out⟩ := handleFileRequest_spec h.sc env peerID payload
  simp only [handleP2PMessage, same]
  refine ledger_performAll before (fun o sent => ?_) rfl before.queue (Grows.refl h)
    (fun m => Or.inl)
  rcases out o sent with ⟨response, rfl⟩ | ⟨-, m, base, -, -, rfl | rfl⟩ <;> rfl

section Response

variable {now : Int} {env : Env} {peerID : String} {payload : FileResponsePayload}
  {details : PendingDownload}

theorem hash_of_key {path hash hash' : String}
    (same : pendingKey path hash = pendingKey path hash') : hash = hash' := by
  simp only [pendingKey, String.ext_iff, String.toList_append, List.append_assoc,
    List.append_cancel_left_eq] at same
  exact String.ext_iff.mpr same

theorem owed_matched (consumed : Consumes h.sc peerID payload details)
    (aligned : (peerID, ⟨payload.path, payload.hash⟩) ∈ h.requests →
      clean payload.path = payload.path)
    (alone : sole h (pendingKey (clean payload.path) payload.hash) (clean payload.path) = true)
    (live : m ∈ h.sc.db.live) (owed : Owed h m) : Owed (h.matched peerID payload) m ∨
      ((m.repositoryID, m.filepath) = (details.repoID, clean payload.path) ∧
        m.hash = payload.hash) := by
  cases owed with
  | task t waiting fetches => exact Or.inl (.task t waiting fetches)
  | session d msg sent own carries => exact Or.inl (.session d msg sent own carries)
  | requested peer other sent connected pending repo =>
    by_cases key : pendingKey m.filepath m.hash = pendingKey (clean payload.path) payload.hash
    · right
      have path : m.filepath = clean payload.path :=
        (of_decide_eq_true (List.all_eq_true.mp alone m live)).resolve_left (not_not.mpr key)
      rw [key] at pending
      cases Option.some.inj (pending.symm.trans consumed.2.2.2)
      rw [path] at key
      exact ⟨by rw [← repo, path], hash_of_key key⟩
    · left
      refine .requested peer other ?_ connected ?_ repo
      · refine (List.mem_erase_of_ne ?_).mpr sent
        intro same
        obtain ⟨rfl, request⟩ := Prod.mk.inj same
        injection request with path hash
        rw [path, hash] at sent
        exact key (by rw [path, hash, aligned sent])
      · exact (AList.lookup_erase_ne key).trans pending

theorem owedResponse_ignored (ignored : ∀ details, ¬ Consumes h.sc peerID payload details)
    (good : owedResponse rt h env peerID payload = true) :
    (peerID, ⟨payload.path, payload.hash⟩) ∉ h.requests := by
  simp only [owedResponse] at good
  by_cases refused : payload.validate ≠ none ∨ payload.error ≠ "" ∨ peerID ∉ h.sc.connections
  · rw [if_pos refused] at good
    simpa using good
  · rw [if_neg refused] at good
    simp only [ne_eq, not_or, not_not] at refused
    cases found : h.sc.pendingDownloads.lookup (pendingKey (clean payload.path) payload.hash) with
    | none =>
      rw [found] at good
      simpa using good
    | some details =>
      exact absurd ⟨refused.1, refused.2.1, refused.2.2, found⟩ (ignored details)

section

variable (before : Ledger rt h) (consumed : Consumes h.sc peerID payload details)
  (good : owedResponse rt h env peerID payload = true)

include before consumed good

omit before in
theorem owedResponse_consumed :
    ((peerID, ⟨payload.path, payload.hash⟩) ∈ h.requests → clean payload.path = payload.path) ∧
      sole h (pendingKey (clean payload.path) payload.hash) (clean payload.path) = true ∧
      if payload.contentBase64 ≠ "" then
        ∃ data repo, inlineData rt h.sc (clean payload.path) payload details = some (data, repo) ∧
          env.wrote = true ∧ harmless rt h (join repo.localPath (clean payload.path)) (some data)
            (some (details.repoID, clean payload.path)) = true
      else streamRefused (clean payload.path) = false ∧
        (env.dialed = true → ∃ d ∈ h.daemons, d.repoID = details.repoID) := by
  obtain ⟨valid, noError, connected, found⟩ := consumed
  simp only [owedResponse, valid, noError, connected, found, ne_eq, not_true_eq_false, or_self,
    if_false, decide_eq_true_eq, Bool.not_eq_true', decide_eq_false_iff_not] at good
  obtain ⟨aligned, alone, branch⟩ := good
  refine ⟨fun asked => aligned.resolve_left (not_not.mpr asked), alone, ?_⟩
  split
  · rename_i inline
    rw [if_pos (by simpa using inline)] at branch
    cases checked : inlineData rt h.sc (clean payload.path) payload details with
    | none => rw [checked] at branch; cases branch
    | some x =>
      rw [checked, Option.any_some, decide_eq_true_eq] at branch
      exact ⟨x.1, x.2, rfl, branch.1, branch.2⟩
  · rename_i stream
    rw [if_neg (by simpa using stream)] at branch
    simpa only [Bool.not_eq_true', decide_eq_true_eq, List.any_eq_true] using branch

/-- What is left to show once a response has been matched: a row keeps its content,
and the row that was waiting for the response gets it or waits for something else. -/
theorem ledger_matched (repositories : after.sc.db.repositories = h.sc.db.repositories)
    (daemons : after.daemons = h.daemons) (queue : after.sc.queue = h.sc.queue)
    (inbox : ∀ x ∈ after.inbox, x.1 ∈ h.daemons) (grows : Grows (h.matched peerID payload) after)
    (rows : ∀ m ∈ after.sc.db.live, onDisk rt after m = true ∨ m ∈ h.sc.db.live ∧
      (onDisk rt h m = true → onDisk rt after m = true) ∧
      ((m.repositoryID, m.filepath) = (details.repoID, clean payload.path) →
        m.hash = payload.hash → Owed after m)) : Ledger rt after := by
  obtain ⟨aligned, alone, -⟩ := owedResponse_consumed consumed good
  refine ⟨by rw [queue]; exact before.queue, by rw [daemons]; exact inbox,
    before.watched_same repositories daemons, ?_⟩
  intro m live
  rcases rows m live with there | ⟨old, stays, waits⟩
  · exact Or.inl there
  · rcases before.rows m old with there | owed
    · exact Or.inl (stays there)
    · rcases owed_matched consumed aligned alone old owed with still | ⟨here, hash⟩
      · exact Or.inr (still.mono grows)
      · exact Or.inr (waits here hash)

theorem ledger_inline (inline : payload.contentBase64 ≠ "")
    (handled : h.next rt (.message now peerID (.fileResponse payload) env) = some after) :
    Ledger rt after := by
  obtain ⟨-, -, branch⟩ := owedResponse_consumed consumed good
  rw [if_pos inline] at branch
  obtain ⟨data, repo, checked, wrote, safe⟩ := branch
  obtain ⟨found, -, -⟩ := inlineData_some checked
  rw [Host.next_inline now env consumed inline, checked] at handled
  simp only [wrote, if_true, Option.some.injEq] at handled
  have known : details.repoID ∈ h.sc.db.repositories :=
    AList.lookup_isSome.mp (by rw [← DB.getRepository, found]; rfl)
  obtain ⟨db, saved⟩ := DB.save_known
    (m := inlineMeta h.sc.db now (clean payload.path) details data (rt.sha256 data)) known now
  simp only [saved, Option.getD_some] at handled
  have repositories : after.sc.db.repositories = h.sc.db.repositories := by
    rw [← handled]
    exact (DB.save_some saved).2.1
  have disk : after.disk = (h.setFile (join repo.localPath (clean payload.path)) (some data)).disk := by
    rw [← handled]
    rfl
  refine ledger_matched before consumed good repositories (by rw [← handled]; rfl)
    (by rw [← handled]; rfl) ?_ ?_ ?_
  · rw [← handled]
    exact before.inbox
  · rw [← handled]
    exact ⟨fun _ => id, fun _ => id, fun _ => id, rfl, fun _ => id⟩
  · intro m live
    rw [← handled] at live
    rcases DB.live_save saved live with new | ⟨old, other⟩
    · left
      refine onDisk_iff.mpr ⟨join repo.localPath (clean payload.path), data, ?_, ?_, ?_⟩
      · rw [filePath_same repositories, new]
        simp only [Host.filePath, inlineMeta, found, Option.map_some]
      · rw [disk, Host.setFile_disk, if_pos rfl]
      · rw [new]
        rfl
    · refine Or.inr ⟨old, ?_, fun here => absurd here other⟩
      exact onDisk_harmless repositories disk safe old (fun h => other (Option.some.inj h).symm)

theorem ledger_stream (stream : payload.contentBase64 = "")
    (handled : h.next rt (.message now peerID (.fileResponse payload) env) = some after) :
    Ledger rt after := by
  obtain ⟨-, -, branch⟩ := owedResponse_consumed consumed good
  rw [if_neg (not_not.mpr stream)] at branch
  obtain ⟨open_, served⟩ := branch
  rw [Host.next_stream now env consumed stream, open_] at handled
  simp only [Bool.false_eq_true, if_false] at handled
  split at handled
  · -- a session is prepared at the daemon of the repository
    rename_i dialed
    obtain ⟨d, inside, own⟩ := served dialed
    cases handled
    refine ledger_matched before consumed good rfl rfl rfl ?_ ?_ ?_
    · intro x member
      rcases List.mem_append.mp member with old | new
      · exact before.inbox x old
      · obtain ⟨e, there, rfl⟩ := List.mem_map.mp new
        exact there
    · exact ⟨fun _ => id, fun _ => id, fun _ => id, rfl, List.subset_append_left _ _⟩
    · intro m live
      refine Or.inr ⟨live, id, fun here hash => ?_⟩
      obtain ⟨repo, path⟩ := Prod.mk.inj here
      refine .session d _ (List.mem_append_right _ (List.mem_map.mpr ⟨d, inside, rfl⟩))
        (own.trans repo.symm) ?_
      simp [IpcMessage.carries, repo, path, hash]
  · split at handled
    · cases handled
      refine ledger_matched before consumed good rfl rfl rfl before.inbox ?_ ?_
      · refine ⟨fun t waiting => ?_, fun _ => id, fun _ => id, rfl, fun _ => id⟩
        exact waiting.imp_right (Or.imp_right (List.mem_append_left _))
      · intro m live
        refine Or.inr ⟨live, id, fun here hash => ?_⟩
        obtain ⟨repo, path⟩ := Prod.mk.inj here
        refine .task _ (Or.inr (Or.inr (List.mem_append_right _ List.mem_cons_self))) ?_
        simp [SyncTask.fetches, retryTask, repo, path, hash]
    · -- the last attempt failed: the row is purged
      cases handled
      refine ledger_matched before consumed good rfl rfl rfl before.inbox ?_ ?_
      · exact ⟨fun _ => id, fun _ => id, fun _ => id, rfl, fun _ => id⟩
      · intro m live
        obtain ⟨old, other⟩ := DB.live_hardDelete live
        exact Or.inr ⟨old, id, fun here => absurd here other⟩

end

theorem ledger_response (before : Ledger rt h)
    (handled : h.next rt (.message now peerID (.fileResponse payload) env) = some after)
    (good : owedResponse rt h env peerID payload = true) : Ledger rt after := by
  by_cases consumed : ∃ details, Consumes h.sc peerID payload details
  · obtain ⟨details, consumed⟩ := consumed
    by_cases stream : payload.contentBase64 = ""
    · exact ledger_stream before consumed good stream handled
    · exact ledger_inline before consumed good stream handled
  · have unasked := owedResponse_ignored (fun d c => consumed ⟨d, c⟩) good
    rw [Host.next_ignored now env (fun d c => consumed ⟨d, c⟩)] at handled
    cases handled
    rw [Host.answered, List.erase_of_not_mem unasked]
    exact before

end Response

section Tasks

theorem ledger_tasks (before : Ledger rt h) (db : after.sc.db = h.sc.db)
    (disk : after.disk = h.disk) (daemons : after.daemons = h.daemons)
    (queue : after.sc.queue.Placed) (inbox : after.inbox = h.inbox)
    (owed : ∀ m ∈ h.sc.db.live, Owed h m → Owed after m) : Ledger rt after := by
  refine ⟨queue, by rw [inbox, daemons]; exact before.inbox,
    before.watched_same (by rw [db]) daemons, ?_⟩
  intro m live
  rw [db] at live
  refine (before.rows m live).imp (fun there => ?_) (owed m live)
  exact (onDisk_same (by rw [db]) disk m).trans there

theorem ledger_queueRound (before : Ledger rt h) (handled : h.next rt .queueRound = some after) :
    Ledger rt after := by
  simp only [Host.next, queueRound] at handled
  cases popped : h.sc.queue.pop with
  | none =>
    rw [popped] at handled
    cases handled
    simpa using before
  | some x =>
    obtain ⟨task, queue⟩ := x
    obtain ⟨placed, rest⟩ := before.queue.pop popped
    rw [popped] at handled
    simp only at handled
    split at handled
    · cases handled
      refine ledger_tasks before rfl rfl rfl placed rfl (fun m _ => Owed.mono ?_)
      refine ⟨?_, fun _ => id, fun _ => id, rfl, fun _ => id⟩
      rintro t (member | member | member)
      · rcases rest _ t member with ⟨rfl, -⟩ | still
        · exact Or.inr (Or.inl (List.mem_append_right _ List.mem_cons_self))
        · exact Or.inl still
      · exact Or.inr (Or.inl (List.mem_append_left _ member))
      · exact Or.inr (Or.inr member)
    · cases handled
      refine ledger_tasks before rfl rfl rfl (placed.requeue task) rfl (fun m _ => Owed.mono ?_)
      refine ⟨?_, fun _ => id, fun _ => id, rfl, fun _ => id⟩
      rintro t (member | member)
      · left
        rcases rest _ t member with ⟨rfl, -⟩ | still
        · exact SyncQueue.mem_requeue _ _
        · exact SyncQueue.subset_requeue _ _ _ still
      · exact Or.inr (member.imp_left (List.mem_append_left _))

section Execute

variable {task : SyncTask} {running : List SyncTask}
  (left : ∀ t ∈ h.running, t = task ∨ t ∈ running)
include left

theorem waiting_requeued (t : SyncTask) (waiting : h.Waiting t) :
    t ∈ (h.sc.queue.requeue task).tasks t.repoID ∨ t ∈ running ∨ t ∈ h.timers := by
  rcases waiting with member | member | member
  · exact Or.inl (SyncQueue.subset_requeue _ _ _ member)
  · rcases left t member with rfl | still
    · exact Or.inl (SyncQueue.mem_requeue _ _)
    · exact Or.inr (Or.inl still)
  · exact Or.inr (Or.inr member)

theorem owed_requested (owed : Owed h m) (connected : task.peerID ∈ h.sc.connections)
    (same : ∀ details, h.sc.pendingDownloads.lookup (pendingKey task.filePath task.hash) =
      some details → details.repoID = task.repoID) : Owed { h with
      sc := { h.sc with
        pendingDownloads := h.sc.pendingDownloads.insert (pendingKey task.filePath task.hash)
          ⟨task.size, task.repoID, task.mode, task.peerID, task.retries⟩ }
      running := running
      requests := h.requests ++ [(task.peerID, ⟨task.filePath, task.hash⟩)] } m := by
  let details : PendingDownload := ⟨task.size, task.repoID, task.mode, task.peerID, task.retries⟩
  cases owed with
  | task t waiting fetches =>
    rcases waiting with member | member | member
    · exact .task t (Or.inl member) fetches
    · rcases left t member with rfl | still
      · obtain ⟨repo, -, path, hash⟩ := of_decide_eq_true fetches
        refine .requested t.peerID details (List.mem_append_right _ ?_) connected ?_ repo
        · rw [← path, ← hash]
          exact List.mem_cons_self
        · rw [← path, ← hash]
          exact AList.lookup_insert _
      · exact .task t (Or.inr (Or.inl still)) fetches
    · exact .task t (Or.inr (Or.inr member)) fetches
  | requested peer other asked there found repo =>
    have kept := List.mem_append_left [(task.peerID, ⟨task.filePath, task.hash⟩)] asked
    by_cases key : pendingKey m.filepath m.hash = pendingKey task.filePath task.hash
    · refine .requested peer details kept there ?_ ((same other (key ▸ found)).symm.trans repo)
      rw [key]
      exact AList.lookup_insert _
    · exact .requested peer other kept there ((AList.lookup_insert_ne key).trans found) repo
  | session d msg told mine carries => exact .session d msg told mine carries

theorem owed_unsent (owed : Owed h m) (live : m ∈ h.sc.db.live) (type : task.type = .download)
    (same : ∀ details, h.sc.pendingDownloads.lookup (pendingKey task.filePath task.hash) =
      some details → details.repoID = task.repoID)
    (alone : sole h (pendingKey task.filePath task.hash) task.filePath = true) : Owed { h with
      sc := { h.sc with
        pendingDownloads := h.sc.pendingDownloads.erase (pendingKey task.filePath task.hash)
        queue := h.sc.queue.requeue task }
      running := running } m := by
  cases owed with
  | task t waiting fetches => exact .task t (waiting_requeued left t waiting) fetches
  | requested peer details asked there found repo =>
    by_cases key : pendingKey m.filepath m.hash = pendingKey task.filePath task.hash
    · have path : m.filepath = task.filePath :=
        (of_decide_eq_true (List.all_eq_true.mp alone m live)).resolve_left (not_not.mpr key)
      have own := (same details (key ▸ found)).symm.trans repo
      rw [path] at key
      refine .task task (Or.inl (SyncQueue.mem_requeue _ _)) ?_
      exact decide_eq_true ⟨own, type, path.symm, (hash_of_key key).symm⟩
    · exact .requested peer details asked there ((AList.lookup_erase_ne key).trans found) repo
  | session d msg told mine carries => exact .session d msg told mine carries

end Execute

theorem ledger_execute (before : Ledger rt h) {i : Nat} {sent : Bool}
    (handled : h.next rt (.execute i sent) = some after)
    (good : owedEvent rt h (.execute i sent) = true) : Ledger rt after := by
  simp only [Host.next, Option.map_eq_some_iff] at handled
  obtain ⟨task, at_, done⟩ := handled
  have fine : task.peerID ∉ h.sc.connections ∨
      ((h.sc.pendingDownloads.lookup (pendingKey task.filePath task.hash)).all
          (·.repoID = task.repoID) = true ∧
        sole h (pendingKey task.filePath task.hash) task.filePath = true) := by
    simpa only [owedEvent, at_, Option.all_some, decide_eq_true_eq] using good
  have left : ∀ t ∈ h.running, t = task ∨ t ∈ h.running.eraseIdx i :=
    fun t member => (mem_eraseIdx_or at_).mp member
  unfold executeSyncTask at done
  split at done
  · rename_i upload
    subst done
    refine ledger_tasks before rfl rfl rfl before.queue rfl (fun m _ owed => ?_)
    cases owed with
    | task t waiting fetches =>
      refine .task t (waiting.imp_right (Or.imp_left (fun member => ?_))) fetches
      refine (left t member).resolve_left ?_
      rintro rfl
      rw [(of_decide_eq_true fetches).2.1] at upload
      cases upload
    | requested peer details asked connected pending repo =>
      exact .requested peer details asked connected pending repo
    | session d msg told mine carries => exact .session d msg told mine carries
  · rename_i download
    simp only at done
    split at done
    · subst done
      exact ledger_tasks before rfl rfl rfl (before.queue.requeue task) rfl (fun m _ =>
        Owed.mono ⟨waiting_requeued left, fun _ => id, fun _ => id, rfl, fun _ => id⟩)
    · rename_i reachable
      obtain ⟨known, alone⟩ := fine.resolve_left reachable
      -- a download that was pending under the key was for the same repository
      have same : ∀ (details : PendingDownload), h.sc.pendingDownloads.lookup
          (pendingKey task.filePath task.hash) = some details → details.repoID = task.repoID := by
        intro details found
        rw [found, Option.all_some] at known
        exact of_decide_eq_true known
      split at done
      · subst done
        exact ledger_tasks before rfl rfl rfl before.queue rfl
          (fun m _ owed => owed_requested left owed (not_not.mp reachable) same)
      · subst done
        exact ledger_tasks before rfl rfl rfl (before.queue.requeue task) rfl
          (fun m live owed => owed_unsent left owed live download same alone)

theorem ledger_retry (before : Ledger rt h) {i : Nat} {now : Int}
    (handled : h.next rt (.retry i now) = some after) : Ledger rt after := by
  simp only [Host.next, Option.map_eq_some_iff] at handled
  obtain ⟨task, at_, rfl⟩ := handled
  refine ledger_tasks before rfl rfl rfl (before.queue.push _ _) rfl (fun m _ owed => ?_)
  cases owed with
  | task t waiting fetches =>
    rcases waiting with member | member | member
    · exact .task t (Or.inl ((SyncQueue.tasks_push _ _ _ _).1 member)) fetches
    · exact .task t (Or.inr (Or.inl member)) fetches
    · rcases (mem_eraseIdx_or at_).mp member with rfl | still
      · -- the queue may hold another task for the same content
        obtain ⟨other, queued, same⟩ :=
          SyncQueue.push_present rt.sort h.sc.queue { t with timestamp := now }
        obtain ⟨path, type, hash⟩ := of_decide_eq_true same
        obtain ⟨repo, download, named, digest⟩ := of_decide_eq_true fetches
        have own := (before.queue.push rt.sort { t with timestamp := now }) _ other queued
        refine .task other (Or.inl ?_) (decide_eq_true ⟨own.trans repo, type.trans download,
          path.trans named, hash.trans digest⟩)
        rw [own]
        exact queued
      · exact .task t (Or.inr (Or.inr still)) fetches
  | requested peer details asked connected pending repo =>
    exact .requested peer details asked connected pending repo
  | session d msg told mine carries => exact .session d msg told mine carries

end Tasks

section

variable (before : Ledger rt h) {repoID path resolution peerID : String} {removed : Bool}

include before

theorem ledger_remote
    (handled : h.next rt (.resolve repoID path "remote" peerID removed) = some after)
    (good : removed = true → (h.filePath repoID path).all
      (fun file => harmless rt h file none (some (repoID, path))) = true) : Ledger rt after := by
  rw [Host.next_remote, Option.some.injEq] at handled
  obtain ⟨-, inbox, running, timers, requests, daemons⟩ := h.edit_frame repoID path none
  have sc : after.sc = { h.sc with db := h.sc.db.hardDelete repoID path } := by rw [← handled]
  have repositories : after.sc.db.repositories = h.sc.db.repositories := by rw [sc]; rfl
  have row : ∀ m ∈ after.sc.db.live,
      m ∈ h.sc.db.live ∧ (m.repositoryID, m.filepath) ≠ (repoID, path) := by
    intro m live
    rw [sc] at live
    exact DB.live_hardDelete live
  cases removed with
  | false =>
    -- the file stays
    have same : after = { h with sc := { h.sc with db := h.sc.db.hardDelete repoID path } } :=
      handled.symm
    have grows : Grows h after := by
      rw [same]
      exact ⟨fun _ => id, fun _ => id, fun _ => id, rfl, fun _ => id⟩
    refine ⟨by rw [sc]; exact before.queue, by rw [same]; exact before.inbox,
      before.watched_same repositories (by rw [same]), fun m live => ?_⟩
    rw [onDisk_same repositories (by rw [same])]
    exact (before.rows m (row m live).1).imp id (Owed.mono grows)
  | true =>
    have same : after = { h.edit repoID path none with
        sc := { h.sc with db := h.sc.db.hardDelete repoID path } } := handled.symm
    have served : after.daemons = h.daemons := by rw [same]; exact daemons
    have grows : Grows h after := by
      rw [same]
      exact ⟨fun _ => by simp only [Host.Waiting, running, timers]; exact id,
        by rw [requests]; exact fun _ => id, fun _ => id, rfl, by rw [inbox]; exact fun _ => id⟩
    refine ⟨by rw [sc]; exact before.queue, ?_, before.watched_same repositories served,
      fun m live => ?_⟩
    · rw [served, show after.inbox = h.inbox by rw [same]; exact inbox]
      exact before.inbox
    · exact edit_others before repositories (by rw [same]) grows (good rfl) (row m live).1
        (row m live).2

theorem ledger_resolve
    (handled : h.next rt (.resolve repoID path resolution peerID removed) = some after)
    (good : owedEvent rt h (.resolve repoID path resolution peerID removed) = true) :
    Ledger rt after := by
  by_cases remote : resolution = "remote"
  · subst remote
    exact ledger_remote before handled ((of_decide_eq_true good) rfl)
  · have still : (handleConflictResolution h.sc repoID path resolution peerID).sc = h.sc := by
      simp only [handleConflictResolution, remote, if_false]
      split
      · rfl
      · split <;> rfl
    cases handled
    rw [still]
    refine ledger_performAll before ?_ rfl before.queue (Grows.refl h) (fun m => Or.inl)
    intro o kept
    have sent := List.mem_of_mem_filter kept
    simp only [handleConflictResolution, remote, if_false] at sent
    split at sent
    · simp only at sent
      split at sent
      · cases sent
      · cases List.mem_singleton.mp sent
        rfl
    · split at sent <;> cases sent

omit before in
theorem placeOf_target (d : Daemon) {path : String} (plain : '\\' ∉ path.toList)
    (relative : isAbs path = false) :
    placeOf (d.target path) = placeOf (join d.watchPath path) := by
  have same : normalizePath path = path := by
    have fixed : path.toList.map (fun ch => if ch = '\\' then '/' else ch) = path.toList := by
      refine (List.map_congr_left (fun ch member => if_neg ?_)).trans (List.map_id _)
      rintro rfl
      exact plain member
    rw [normalizePath, fixed, String.ofList_toList]
  simp only [placeOf, Daemon.target, same, fsAppend, join, String.toList_ofList]
  exact Posix.normal_append_join relative _

omit before in
theorem received_effect {d : Daemon} {env : DaemonEnv} {msg : IpcMessage}
    (carries : msg.carries m = true) (own : d.repoID = m.repositoryID)
    (fine : received rt env msg = true) : ∃ data,
      (handleIpcMessage rt d env msg).2 = .replaced (d.target m.filepath) data ∧
      rt.sha256 data = m.hash ∧ placeOf (d.target m.filepath) =
        placeOf (join d.watchPath m.filepath) := by
  cases msg with
  | prepareFileTransfer path repoID peerID hash size direction mode =>
    obtain ⟨rfl, repo, rfl, digest⟩ := of_decide_eq_true carries
    obtain ⟨connected, directory, opened, renamed, nonneg, whole, content, plain, relative⟩ :=
      of_decide_eq_true fine
    refine ⟨env.stream.take size.toNat, ?_, content.trans digest, placeOf_target d plain relative⟩
    have addressed : d.addressed repoID = true := decide_eq_true (Or.inr (repo.trans own.symm))
    simp [-List.length_take, handleIpcMessage, addressed, handleFileTransfer, connected,
      not_lt.mpr nonneg, receiveFile, directory, opened, renamed, whole, content]
  | _ => cases carries

theorem received_onDisk {i : Nat} {d : Daemon} {msg : IpcMessage}
    (at_ : h.inbox[i]? = some (d, msg)) {env : DaemonEnv} {m : FileMetadata}
    (own : d.repoID = m.repositoryID) (carries : msg.carries m = true)
    (whole : received rt env msg = true)
    (repositories : after.sc.db.repositories = h.sc.db.repositories)
    (done : ({ h with inbox := h.inbox.eraseIdx i } : Host).applyEffect
      (handleIpcMessage rt d env msg).2 = after) : onDisk rt after m = true := by
  obtain ⟨data, effect, digest, place⟩ := received_effect carries own whole
  obtain ⟨repo, found, root⟩ := before.watched d (before.inbox _ (List.mem_of_getElem? at_))
  refine onDisk_iff.mpr ⟨join repo.localPath m.filepath, data, ?_, ?_, digest⟩
  · rw [filePath_same repositories, ← own]
    simp only [Host.filePath, found, Option.map_some]
  · rw [← done, effect, Host.applyEffect, Host.setFile_disk, root, if_pos place.symm]

theorem ledger_daemon {i : Nat} {env : DaemonEnv} (handled : h.next rt (.daemon i env) = some after)
    (good : owedEvent rt h (.daemon i env) = true) : Ledger rt after := by
  simp only [Host.next, Option.map_eq_some_iff] at handled
  obtain ⟨⟨d, msg⟩, at_, done⟩ := handled
  have fine : harmlessEffect rt h (handleIpcMessage rt d env msg).2 = true ∧
      h.sc.db.live.all (fun m => d.repoID ≠ m.repositoryID ∨ msg.carries m = false ∨
        received rt env msg) = true := by
    simpa only [owedEvent, at_, Option.all_some, decide_eq_true_eq] using good
  obtain ⟨safe, ends⟩ := fine
  have taken := fun x => (mem_eraseIdx_or at_ (x := x)).mp
  obtain ⟨sc, inbox, running, timers, requests, daemons⟩ := Host.applyEffect_frame
    { h with inbox := h.inbox.eraseIdx i } (handleIpcMessage rt d env msg).2
  rw [done] at sc inbox running timers requests daemons
  have repositories : after.sc.db.repositories = h.sc.db.repositories := by rw [sc]
  refine ⟨by rw [sc]; exact before.queue, ?_, before.watched_same repositories daemons, ?_⟩
  · rw [inbox, daemons]
    exact fun x member => before.inbox x ((mem_eraseIdx_or at_).mpr (Or.inr member))
  · intro m live
    rw [sc] at live
    rcases before.rows m live with there | owed
    · left
      -- the effect takes no content away
      cases effect : (handleIpcMessage rt d env msg).2 with
      | none =>
        rw [effect] at done
        exact (onDisk_same repositories (by rw [← done]; rfl) m).trans there
      | removed file =>
        rw [effect] at done safe
        exact onDisk_harmless repositories (by rw [← done]; rfl) safe live (by simp) there
      | replaced file data =>
        rw [effect] at done safe
        exact onDisk_harmless repositories (by rw [← done]; rfl) safe live (by simp) there
    · cases owed with
      | task t waiting fetches =>
        refine Or.inr (.task t ?_ fetches)
        rw [Host.Waiting, sc, running, timers]
        exact waiting
      | requested peer details asked connected pending repo =>
        refine Or.inr (.requested peer details ?_ ?_ ?_ repo)
        · rw [requests]
          exact asked
        · rw [sc]
          exact connected
        · rw [sc]
          exact pending
      | session d' msg' told own carries =>
        rcases taken _ told with same | still
        · obtain ⟨rfl, rfl⟩ := Prod.mk.inj same
          left
          have ok := of_decide_eq_true (List.all_eq_true.mp ends m live)
          have whole := (ok.resolve_left (not_not.mpr own)).resolve_left (by rw [carries]; decide)
          exact received_onDisk before at_ own carries whole repositories done
        · exact Or.inr (.session d' msg' (by rw [inbox]; exact still) own carries)

theorem ledger_connect (handled : h.next rt (.connect peerID) = some after) : Ledger rt after := by
  cases handled
  refine ledger_performAll before ?_ rfl before.queue ?_ (fun m => Or.inl)
  · intro o sent
    obtain ⟨repo, -, sent⟩ := List.mem_flatMap.mp sent
    obtain ⟨m, -, rfl⟩ := List.mem_map.mp sent
    rfl
  · exact ⟨fun _ => id, fun _ => id, fun p member => List.mem_insert_of_mem member, rfl,
      fun _ => id⟩

theorem ledger_disconnect (handled : h.next rt (.disconnect peerID) = some after)
    (good : owedEvent rt h (.disconnect peerID) = true) : Ledger rt after := by
  cases handled
  have apart : ∀ r ∈ h.requests, r.1 ≠ peerID :=
    fun r member => of_decide_eq_true (List.all_eq_true.mp good r member)
  refine ledger_tasks before rfl rfl rfl before.queue rfl (fun m _ owed => ?_)
  cases owed with
  | task t waiting fetches => exact .task t waiting fetches
  | requested peer details asked connected pending repo =>
    have other := decide_eq_true (apart _ asked)
    exact .requested peer details (List.mem_filter.mpr ⟨asked, other⟩)
      (List.mem_filter.mpr ⟨connected, other⟩) pending repo
  | session d msg told own carries => exact .session d msg told own carries

theorem ledger_next {e : HostEvent} (handled : h.next rt e = some after)
    (good : owedEvent rt h e = true) : Ledger rt after := by
  cases e with
  | fileChanged now repoID payload content => exact ledger_fileChanged before handled good
  | message now peerID msg env =>
    cases msg with
    | fileMetadataUpdate repoID u => exact ledger_update before handled good
    | fileRequest payload => exact ledger_request before handled
    | fileResponse payload => exact ledger_response before handled good
  | queueRound => exact ledger_queueRound before handled
  | execute i sent => exact ledger_execute before handled good
  | retry i now => exact ledger_retry before handled
  | resolve repoID path resolution peerID removed => exact ledger_resolve before handled good
  | daemon i env => exact ledger_daemon before handled good
  | connect peerID => exact ledger_connect before handled
  | disconnect peerID => exact ledger_disconnect before handled good

end

end Events

def Host.Settled (rt : Runtime) (h : Host) : Prop :=
  h.Initial ∧ ∀ m ∈ h.sc.db.live, onDisk rt h m = true

def askedRun : List HostEvent :=
  [.message 0 "b" (.fileMetadataUpdate "r" ⟨"f", "#x", 1, 1, 5, false, 420, none⟩) .fine,
    .queueRound, .execute 0 true]

theorem Host.started_settled (peerID repoID root : String) (connections : List String)
    (rt : Runtime) : Settled rt (started peerID repoID root connections) :=
  ⟨started_initial peerID repoID root connections, fun _ live => absurd live List.not_mem_nil⟩

def refusedRun : List HostEvent :=
  askedRun ++ [.message 0 "b" (.fileResponse ⟨"f", "#x", "", "", 0, "file not found locally"⟩) .fine]

end P2PSync
