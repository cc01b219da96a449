import P2PSync.Host

/-! Which repository an update reaches. The store refuses a row for a repository it does
not have, but its error is dropped, and to the daemons an empty identifier means every
repository. -/
namespace P2PSync

def Daemon.Acts (rt : Runtime) (d : Daemon) (msg : IpcMessage) : Prop :=
  ∃ env, (handleIpcMessage rt d env msg).1 ≠ []

theorem acts_delete (rt : Runtime) (d : Daemon) (peerID path repoID hash : String) (time : Int) :
    d.Acts rt (.syncFromPeer peerID path repoID true hash time) ↔ d.addressed repoID = true := by
  constructor
  · rintro ⟨env, acts⟩
    by_cases addressed : d.addressed repoID = true
    · exact addressed
    · exact absurd (by simp [handleIpcMessage, addressed]) acts
  · intro addressed
    refine ⟨⟨true, true, true, true, true, [], true, true, true⟩, ?_⟩
    simp [handleIpcMessage, addressed]

theorem acts_conflict (rt : Runtime) (d : Daemon) (path : String)
    (versions : List VersionMetadata) : ¬ d.Acts rt (.conflictDetected path versions) := by
  rintro ⟨env, acts⟩
  exact acts rfl

section Update

variable (sc : SyncCoordinator) (missing : Bool) (peerID repoID : String) (u : Update)

def removes : Bool :=
  !ignoredPath u.path && decide ((decision sc peerID repoID u).action = .acceptRemote) && u.isDeleted

def downloads : Bool :=
  !ignoredPath u.path && !sc.queue.hasPending repoID u.path u.hash &&
    match (decision sc peerID repoID u).action with
    | .acceptRemote => !u.isDeleted && decide (pendingKey u.path u.hash ∉ sc.pendingDownloads)
    | .keepLocal => false
    | .skip => (sc.db.get repoID u.path).any (fun m => !m.isDeleted) &&
        (sc.db.getRepository repoID).isSome && missing

variable {sc missing peerID repoID u}

theorem removes_iff : removes sc peerID repoID u = true ↔ ignoredPath u.path = false ∧
    (decision sc peerID repoID u).action = .acceptRemote ∧ u.isDeleted = true := by
  simp only [removes, Bool.and_eq_true, Bool.not_eq_true', decide_eq_true_eq, and_assoc]

theorem update_queue (rt : Runtime) (now : Int) :
    (handlePeerMetadataUpdate rt sc now missing peerID repoID u).1.queue =
      if downloads sc missing peerID repoID u then
        sc.queue.push rt.sort (downloadTask peerID repoID u) else sc.queue := by
  obtain ⟨queue, pending⟩ := mergeRemoteClock_queue sc u
  cases heard : ignoredPath u.path with
  | true => simp [peer_ignored rt now missing heard, downloads, heard]
  | false =>
    cases waiting : sc.queue.hasPending repoID u.path u.hash with
    | true =>
      have same := SyncQueue.push_pending rt.sort (rfl : (downloadTask peerID repoID u).type = _)
        waiting
      rcases (peer_queue rt sc now missing peerID repoID u).2 with kept | pushed
      · simp [kept, downloads, waiting]
      · simp [pushed, same, downloads, waiting]
    | false =>
      cases h : (decision sc peerID repoID u).action with
      | acceptRemote =>
        cases deleted : u.isDeleted with
        | true => simp [peer_accept rt now missing heard h, applyAccept, downloads, h, deleted, queue]
        | false =>
          by_cases asked : pendingKey u.path u.hash ∈ sc.pendingDownloads <;>
            simp [peer_accept rt now missing heard h, applyAccept, downloads, heard, waiting, h,
              deleted, queue, pending, asked]
      | keepLocal => simp [peer_keep rt now missing heard h, downloads, h, queue]
      | skip =>
        simp only [peer_skip rt now missing heard h, applySkip, downloads, heard, waiting, h,
          mergeRemoteClock_db, queue, Bool.not_false, Bool.true_and, Bool.and_eq_true, and_assoc]
        split <;> simp_all

end Update

namespace Host

def ownDaemons (h : Host) (repoID : String) : Prop :=
  repoID ≠ "" ∨ ∀ d ∈ h.daemons, d.repoID = ""

instance (h : Host) (repoID : String) : Decidable (h.ownDaemons repoID) :=
  inferInstanceAs (Decidable (_ ∨ _))

theorem ownDaemons_iff (h : Host) (repoID : String) :
    h.ownDaemons repoID ↔ ∀ d ∈ h.daemons, d.addressed repoID = true → d.repoID = repoID := by
  unfold ownDaemons Daemon.addressed
  by_cases empty : repoID = ""
  · simp [empty]
  · simp only [ne_eq, empty, not_false_eq_true, true_or, false_or, decide_eq_true_eq, true_iff]
    exact fun d _ same => same.symm

/-- An update reaches files only through the daemon of its repository, and not at
all for a repository that the store does not have. -/
structure KeepsApart (rt : Runtime) (h : Host) (repoID : String) (result : Result) : Prop where
  told : ∀ msg, .sendIpc msg ∈ result.out → ∀ d ∈ h.daemons, d.Acts rt msg → d.repoID = repoID
  queued : ∀ r, ∀ t ∈ result.sc.queue.tasks r, t ∉ h.sc.queue.tasks r →
    ∀ d ∈ h.daemons, d.addressed t.repoID = true → d.repoID = repoID
  unknown : repoID ∉ h.sc.db.repositories → result.sc.queue = h.sc.queue ∧
    ∀ msg, .sendIpc msg ∈ result.out → ∀ d ∈ h.daemons, ¬ d.Acts rt msg

end Host

section Reach

variable (rt : Runtime) (h : Host) (now : Int) (env : Env) (peerID repoID : String) (u : Update)

theorem update_acts {msg : IpcMessage} {d : Daemon}
    (sent : .sendIpc msg ∈ (handleP2PMessage rt h.sc now env peerID
      (.fileMetadataUpdate repoID u)).out) (acts : d.Acts rt msg) :
    removes h.sc peerID repoID u = true ∧ d.addressed repoID = true := by
  rcases peer_ipc rt now env.missing sent with ⟨versions, rfl⟩ | ⟨heard, accept, deleted, rfl⟩
  · exact absurd acts (acts_conflict rt d u.path versions)
  · exact ⟨removes_iff.mpr ⟨heard, accept, deleted⟩, (acts_delete ..).mp acts⟩

theorem update_added {r : String} {t : SyncTask}
    (there : t ∈ (handleP2PMessage rt h.sc now env peerID
      (.fileMetadataUpdate repoID u)).sc.queue.tasks r) (new : t ∉ h.sc.queue.tasks r) :
    downloads h.sc env.missing peerID repoID u = true ∧ t = downloadTask peerID repoID u := by
  simp only [handleP2PMessage, update_queue] at there
  split at there
  · rename_i downloaded
    refine ⟨downloaded, ?_⟩
    rcases (SyncQueue.tasks_push rt.sort h.sc.queue _ r).2 t there with old | ⟨same, -⟩
    · exact absurd old new
    · exact same
  · exact absurd there new

theorem download_added (downloaded : downloads h.sc env.missing peerID repoID u = true) :
    downloadTask peerID repoID u ∈ (handleP2PMessage rt h.sc now env peerID
      (.fileMetadataUpdate repoID u)).sc.queue.tasks repoID ∧
    downloadTask peerID repoID u ∉ h.sc.queue.tasks repoID := by
  have absent : h.sc.queue.hasPending repoID u.path u.hash = false := by
    simp only [downloads, Bool.and_eq_true, Bool.not_eq_true'] at downloaded
    exact downloaded.1.2
  simp only [handleP2PMessage, update_queue, if_pos downloaded]
  exact SyncQueue.push_added rt.sort (rfl : (downloadTask peerID repoID u).type = .download) absent

/-- An update keeps to its repository exactly if a tombstone it brings names one
by an identifier of its own, and a download it starts one that the store has. -/
theorem update_keeps_apart_iff : h.KeepsApart rt repoID
        (handleP2PMessage rt h.sc now env peerID (.fileMetadataUpdate repoID u)) ↔
      (removes h.sc peerID repoID u = true → h.ownDaemons repoID ∧
        (repoID ∈ h.sc.db.repositories ∨ ∀ d ∈ h.daemons, d.repoID ≠ repoID)) ∧
      (downloads h.sc env.missing peerID repoID u = true →
        repoID ∈ h.sc.db.repositories ∧ h.ownDaemons repoID) := by
  constructor
  · intro apart
    constructor
    · intro removed
      obtain ⟨heard, accept, deleted⟩ := removes_iff.mp removed
      have sent := peer_told rt now env.missing heard accept deleted
      refine ⟨(h.ownDaemons_iff repoID).mpr (fun d member addressed =>
        apart.told _ sent d member ((acts_delete ..).mpr addressed)), ?_⟩
      by_cases known : repoID ∈ h.sc.db.repositories
      · exact Or.inl known
      · right
        rintro d member rfl
        exact (apart.unknown known).2 _ sent d member
          ((acts_delete ..).mpr (decide_eq_true (Or.inr rfl)))
    · intro downloaded
      obtain ⟨there, new⟩ := download_added rt h now env peerID repoID u downloaded
      refine ⟨?_, (h.ownDaemons_iff repoID).mpr (fun d member addressed =>
        apart.queued repoID _ there new d member addressed)⟩
      by_contra unknown
      rw [(apart.unknown unknown).1] at there
      exact new there
  · rintro ⟨removal, download⟩
    refine ⟨?_, ?_, ?_⟩
    · intro msg sent d member acts
      obtain ⟨removed, addressed⟩ := update_acts rt h now env peerID repoID u sent acts
      exact (h.ownDaemons_iff repoID).mp (removal removed).1 d member addressed
    · intro r t there new d member addressed
      obtain ⟨downloaded, rfl⟩ := update_added rt h now env peerID repoID u there new
      exact (h.ownDaemons_iff repoID).mp (download downloaded).2 d member addressed
    · intro unknown
      constructor
      · simp only [handleP2PMessage, update_queue]
        exact if_neg (fun downloaded => unknown (download downloaded).1)
      · intro msg sent d member acts
        obtain ⟨removed, addressed⟩ := update_acts rt h now env peerID repoID u sent acts
        obtain ⟨own, known | none⟩ := removal removed
        · exact unknown known
        · exact none d member ((h.ownDaemons_iff repoID).mp own d member addressed)

end Reach

def namelessUpdate : Update := ⟨"f", "h", 1, 1, 5, true, 420, none⟩

def strayUpdate : Update := ⟨"f", "h", 1, 1, 5, false, 420, none⟩

theorem nameless_update_removes : let h := Host.started "b" "docs" "/docs" ["a"]
    let removed := handleP2PMessage .plain h.sc 0 .fine "a" (.fileMetadataUpdate "" namelessUpdate)
    let strayed := handleP2PMessage .plain h.sc 0 .fine "a" (.fileMetadataUpdate "x" strayUpdate)
    "" ∉ h.sc.db.repositories ∧ "x" ∉ h.sc.db.repositories ∧
      removed.out = [.sendIpc (.syncFromPeer "a" "f" "" true "h" 5)] ∧
      (handleIpcMessage .plain ⟨"docs", "/docs"⟩ (.fine [])
        (.syncFromPeer "a" "f" "" true "h" 5)).1 = [.remove "/docs/f"] ∧
      strayed.sc.queue.tasks "x" = [downloadTask "a" "x" strayUpdate] := by
  decide

end P2PSync
