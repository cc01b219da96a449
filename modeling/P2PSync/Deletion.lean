import P2PSync.Scan

/-! A file that two peers hold is deleted at one of them. The watcher reports the
deletion while the coordinator runs; a later scan announces a tombstone with the hash of
the deleted content, and to the resolver equal hashes are the same file. -/
namespace P2PSync

structure Shared (repoID file : String) (sc other : SyncCoordinator) (m m' : FileMetadata) :
    Prop where
  own : sc.db.get repoID file = some m
  copy : other.db.get repoID file = some m'
  alive : m.isDeleted = false ∧ m'.isDeleted = false
  same : m.hash = m'.hash ∧ m.version = m'.version ∧ m.size = m'.size

inductive Deletion where
  | watched (payload : FileChangedPayload)
  | scanned (scanStart : Int) (items : List WalkItem)

def Deletion.Of (sc : SyncCoordinator) (repoID file : String) : Deletion → Prop
  | .watched payload =>
    payload.action = .delete ∧ relativePath sc repoID payload.path = file
  | .scanned _ items => ∀ isDir info, .entry file isDir info ∉ items

def Deletion.record (sc : SyncCoordinator) (now : Int) (repoID : String) : Deletion → Result
  | .watched payload => handleLocalFileChanged sc now repoID payload
  | .scanned scanStart items => scanAndIndexLocalFiles sc scanStart now repoID items

def Replicates (rt : Runtime) (sc other : SyncCoordinator) (repoID file : String) (now : Int)
    (missing : Bool) (out : List Output) : Prop :=
  ∃ u, .broadcast (.fileMetadataUpdate repoID u) ∈ out ∧ u.path = file ∧
    let result := handlePeerMetadataUpdate rt other now missing sc.localPeerID repoID u
    (∃ t, result.1.db.get repoID file = some t ∧ t.isDeleted = true) ∧
      .sendIpc (.syncFromPeer sc.localPeerID file repoID true u.hash u.decodedTime) ∈ result.2

def outranks (sc other : SyncCoordinator) (m m' : FileMetadata) (payload : FileChangedPayload) :
    Bool :=
  let version := Binary64.toUint64 (Binary64.wrapUint64 (Binary64.wrapInt64 (m.version + 1)))
  let time := Binary64.toInt64 payload.modifiedTime
  payload.hash ≠ m'.hash ∧ (Binary64.wrapUint64 m'.version < version ∨
    (Binary64.wrapUint64 m'.version = version ∧ (m'.localLastModified < time ∨
      (m'.localLastModified = time ∧ other.localPeerID < sc.localPeerID))))

section Deletion

variable {sc other : SyncCoordinator} {repoID file : String} {m m' : FileMetadata}
  (shared : Shared repoID file sc other m m')

include shared

section

variable (rt : Runtime) (now later : Int) (missing : Bool) {payload : FileChangedPayload}

theorem replicated_iff {u : Update} (here : u.path = file) :
    ((∃ t, (handlePeerMetadataUpdate rt other now missing sc.localPeerID repoID u).1.db.get repoID
        file = some t ∧ t.isDeleted = true) ∧
      .sendIpc (.syncFromPeer sc.localPeerID file repoID true u.hash u.decodedTime) ∈
        (handlePeerMetadataUpdate rt other now missing sc.localPeerID repoID u).2) ↔
      ignoredPath file = false ∧ u.isDeleted = true ∧
        (decision other sc.localPeerID repoID u).action = .acceptRemote := by
  have rows := peer_row rt now missing sc.localPeerID u (DB.repository_of_get shared.copy) repoID file
  rw [here] at rows
  constructor
  · rintro ⟨⟨t, row, deleted⟩, -⟩
    rw [rows] at row
    split at row
    · rename_i taken
      cases row
      exact ⟨taken.1, deleted, taken.2.1⟩
    · rw [shared.copy] at row
      cases row
      rw [shared.alive.2] at deleted
      cases deleted
  · rintro ⟨heard, deleted, accept⟩
    refine ⟨⟨_, by rw [rows, if_pos ⟨heard, accept, rfl⟩], deleted⟩, ?_⟩
    rw [← here] at heard ⊢
    exact peer_told rt now missing heard accept deleted

theorem outranks_iff (deleted : payload.action = .delete)
    (path : relativePath sc repoID payload.path = file) :
    (decision other sc.localPeerID repoID (recordedUpdate sc repoID payload)).action =
      .acceptRemote ↔ outranks sc other m m' payload = true := by
  have fresh : reusesVersion m payload = false := by simp [reusesVersion, deleted]
  have at_ : (recordedUpdate sc repoID payload).path = file := path
  have version : (recordedUpdate sc repoID payload).decodedVersion =
      Binary64.toUint64 (Binary64.wrapUint64 (Binary64.wrapInt64 (m.version + 1))) := by
    simp only [recordedUpdate, metadataUpdate, Update.decodedVersion, path, shared.own, nextVersion,
      fresh, Bool.false_eq_true, if_false]
  rw [decision, at_, shared.copy, resolve_accept_iff, rank_lt_iff]
  simp only [ownVersion, remoteVersion, version, outranks, decide_eq_true_eq]
  exact and_congr_left (fun _ => ne_comm)

theorem watched_replicates_iff (deleted : payload.action = .delete)
    (path : relativePath sc repoID payload.path = file) :
    Replicates rt sc other repoID file later missing
        (handleLocalFileChanged sc now repoID payload).out ↔
      repoID ∈ sc.workers ∧ ignoredPath file = false ∧ outranks sc other m m' payload = true := by
  have tombstone : (recordedUpdate sc repoID payload).isDeleted = true := decide_eq_true deleted
  constructor
  · rintro ⟨u, sent, here, effect⟩
    obtain ⟨-, eq⟩ := local_out sent
    cases eq
    obtain ⟨heard, -, accept⟩ := (replicated_iff shared rt later missing here).mp effect
    refine ⟨?_, heard, (outranks_iff shared deleted path).mp accept⟩
    by_contra inactive
    rw [(local_dropped (fun recorded => inactive recorded.1) now).2] at sent
    cases sent
  · rintro ⟨active, heard, higher⟩
    have recorded : Recorded sc repoID payload := by
      refine ⟨active, ?_, ?_⟩
      · rw [path]
        exact (Bool.or_eq_false_iff.mp heard).1
      · rw [path, shared.own, Option.any_some]
        simp [redundant, shared.alive.1, deleted]
    obtain ⟨db, saved⟩ := DB.save_known (m := recordedMeta sc repoID payload)
      (DB.repository_of_get shared.own) now
    refine ⟨recordedUpdate sc repoID payload, ?_, path, ?_⟩
    · rw [local_recorded recorded saved]
      simp [announced, deleted]
    · exact (replicated_iff shared rt later missing path).mpr
        ⟨heard, tombstone, (outranks_iff shared deleted path).mpr higher⟩

theorem scanned_skipped (scanStart : Int) (missing : Bool) {items : List WalkItem}
    (unmet : ∀ isDir info, .entry file isDir info ∉ items) :
    ¬ Replicates rt sc other repoID file later missing
      (scanAndIndexLocalFiles sc scanStart now repoID items).out := by
  rintro ⟨u, sent, here, effect⟩
  obtain ⟨-, -, accept⟩ := (replicated_iff shared rt later missing here).mp effect
  obtain ⟨r, row, hash⟩ := scan_unmet unmet sent here
  cases Option.some.inj (shared.own.symm.trans row)
  refine ((resolve_accept_iff _ _).mp accept).1 ?_
  rw [here, shared.copy]
  exact shared.same.1.symm.trans hash.symm

end

/-- A deletion replicates exactly if the watcher reports it, to a running worker,
for a path that peers look at, and its version outranks the copy. -/
theorem deletion_replicates_iff (rt : Runtime) (now later : Int) (missing : Bool)
    {deletion : Deletion} (of : deletion.Of sc repoID file) :
    Replicates rt sc other repoID file later missing (deletion.record sc now repoID).out ↔
      ∃ payload, deletion = .watched payload ∧ repoID ∈ sc.workers ∧ ignoredPath file = false ∧
        outranks sc other m m' payload = true := by
  cases deletion with
  | watched payload =>
    refine (watched_replicates_iff shared rt now later missing of.1 of.2).trans ⟨?_, ?_⟩
    · exact fun holds => ⟨payload, rfl, holds⟩
    · rintro ⟨payload', eq, holds⟩
      cases eq
      exact holds
  | scanned scanStart items =>
    refine ⟨fun replicates => absurd replicates
      (scanned_skipped shared rt now later scanStart missing of), ?_⟩
    rintro ⟨payload, eq, -⟩
    cases eq

end Deletion

def holder (peerID : String) : SyncCoordinator :=
  (handleLocalFileChanged (addRepository (.new peerID) 0 "r" "/r") 0 "r"
    ⟨.add, "f", "h", 1, 5, 420⟩).sc

def holderRow (peerID : String) : FileMetadata :=
  recordedMeta (addRepository (.new peerID) 0 "r" "/r") "r" ⟨.add, "f", "h", 1, 5, 420⟩

theorem holder_shared :
    Shared "r" "f" (holder "a") (holder "b") (holderRow "a") (holderRow "b") where
  own := rfl
  copy := rfl
  alive := by decide
  same := by decide

theorem deletion_replicates_iff_holders :
    Replicates .plain (holder "a") (holder "b") "r" "f" 0 false
      ((Deletion.watched ⟨.delete, "f", "", 0, 9, 0⟩).record (holder "a") 0 "r").out := by
  have of : (Deletion.watched ⟨.delete, "f", "", 0, 9, 0⟩).Of (holder "a") "r" "f" := ⟨rfl, rfl⟩
  exact (deletion_replicates_iff holder_shared .plain 0 0 false of).mpr
    ⟨_, rfl, by decide, by decide, by decide⟩

theorem offline_deletion_skipped :
    Shared "r" "f" (holder "a") (holder "b") (holderRow "a") (holderRow "b") ∧
    (((Deletion.scanned 1 []).record (holder "a") 1 "r").sc.db.get "r" "f").any (·.isDeleted) ∧
    ∃ u, ((Deletion.scanned 1 []).record (holder "a") 1 "r").out =
        [.broadcast (.fileMetadataUpdate "r" u)] ∧ u.path = "f" ∧ u.isDeleted = true ∧
      let result := handlePeerMetadataUpdate .plain (holder "b") 0 false "a" "r" u
      (result.1.db.get "r" "f").any (fun m => !m.isDeleted) ∧ result.2 = [] :=
  ⟨holder_shared, by decide, _, rfl, by decide, by decide, by decide⟩

end P2PSync
