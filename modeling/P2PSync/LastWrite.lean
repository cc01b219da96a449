import P2PSync.Indexing
import P2PSync.Limits
import P2PSync.Network

/-! Concurrent edits recorded by the watcher or by the scan. Both read the
modification time of the file; the watcher stores it in seconds, the scan in
milliseconds, and the resolver compares the numbers. -/
namespace P2PSync

inductive Recorder where
  | watcher | scan
  deriving DecidableEq, Repr

/-- An edit of a file. The modification time counts nanoseconds since the epoch,
in the 64 bits of the daemon's file clock. -/
structure TimedEdit where
  recorder : Recorder
  content : Content
  mtime : Int
  mode : Nat
  lower : - 2 ^ 63 ≤ mtime
  upper : mtime < 2 ^ 63

/-- The daemon's duration_cast to seconds cuts towards zero. -/
def castSeconds (mtime : Int) : Int := mtime.tdiv 1000000000

/-- Go's UnixMilli rounds down. -/
def unixMilli (mtime : Int) : Int := mtime / 1000000

namespace TimedEdit

def stamp (e : TimedEdit) : Int :=
  match e.recorder with
  | .watcher => castSeconds e.mtime
  | .scan => unixMilli e.mtime

def event (rt : Runtime) (e : TimedEdit) (action path : String) : FileChangedEvent :=
  ⟨action, path, rt.sha256 e.content, e.content.length, castSeconds e.mtime, e.mode⟩

def file (e : TimedEdit) : DiskFile := ⟨e.content, unixMilli e.mtime, e.mode⟩

/-- The edit is recorded: the watcher's event passes its checks and changes the row,
or a scan finds the file with another size, time or mode than the row has. -/
def Records (rt : Runtime) (repoID path : String) (e : TimedEdit) (before after : SyncCoordinator) :
    Prop :=
  repoID ∈ before.db.repositories ∧
  match e.recorder with
  | .watcher => ∃ now action payload, (e.event rt action path).validate = .ok payload ∧
      payload.action ≠ .delete ∧ Recorded before repoID payload ∧
      relativePath before repoID path = path ∧
      after = (handleLocalFileChanged before now repoID payload).sc
  | .scan => ∃ scanStart now d, Directory.file d path = some e.file ∧
      (∀ m, before.db.get repoID path = some m → ¬ Exact e.file m) ∧
      after = (scanAndIndexLocalFiles before scanStart now repoID (d.walkItems rt)).sc

end TimedEdit

/-! What is stored and sent. -/

theorem validate_fields {e : FileChangedEvent} {p : FileChangedPayload} (ok : e.validate = .ok p) :
    p.path = e.path ∧ p.hash = e.hash ∧ p.modifiedTime = e.modifiedTime ∧ 0 < e.modifiedTime := by
  have valid := ((validate_ok_iff p).mpr ⟨e, ok⟩).2.2
  have fields : p.path = e.path ∧ p.hash = e.hash ∧ p.modifiedTime = e.modifiedTime := by
    unfold FileChangedEvent.validate at ok
    split at ok
    · cases ok
    · split at ok
      · cases ok
      · split at ok
        · cases ok
        · split at ok
          · cases ok
          · split at ok
            · cases ok
            · cases ok
              exact ⟨rfl, rfl, rfl⟩
  exact ⟨fields.1, fields.2.1, fields.2.2, fields.2.2 ▸ valid⟩

section Records

variable {rt : Runtime} {repoID path : String} {e : TimedEdit} {before after : SyncCoordinator}

theorem TimedEdit.Records.row (recorded : e.Records rt repoID path before after) {m : FileMetadata}
    (row : after.db.get repoID path = some m) :
    m.filepath = path ∧ m.hash = rt.sha256 e.content ∧ m.localLastModified = e.stamp := by
  refine ⟨(DB.get_fields row).2, ?_⟩
  obtain ⟨known, recorded⟩ := recorded
  unfold TimedEdit.stamp
  cases by_ : e.recorder with
  | watcher =>
    rw [by_] at recorded
    obtain ⟨now, action, payload, ok, -, passed, here, rfl⟩ := recorded
    obtain ⟨file, hash, time, -⟩ := validate_fields ok
    obtain ⟨db, saved⟩ := DB.save_known (m := recordedMeta before repoID payload) known now
    rw [local_recorded passed saved] at row
    have self := DB.get_save_self saved
    have place : (recordedMeta before repoID payload).filepath = path := by
      simp only [recordedMeta, localMeta, file, TimedEdit.event, here]
    rw [place] at self
    cases row.symm.trans self
    exact ⟨hash, time⟩
  | scan =>
    rw [by_] at recorded
    obtain ⟨scanStart, now, d, found, changed, rfl⟩ := recorded
    rw [scan_tracked known found scanStart now] at row
    cases row
    refine ⟨?_, (indexedRow_exact rt now repoID path _ e.file _).2.1⟩
    cases old : before.db.get repoID path with
    | none => rfl
    | some m =>
      have skipped : ¬ (m.size = (e.file.info rt).size ∧
          m.localLastModified = (e.file.info rt).modTime ∧ m.mode = (e.file.info rt).mode ∧
          m.isDeleted = false) := changed m old
      simp only [indexedRow, if_neg skipped]
      split
      · rename_i same
        exact same.1
      · rfl

theorem TimedEdit.Records.positive (recorded : e.Records rt repoID path before after)
    (watched : e.recorder = .watcher) : 0 < castSeconds e.mtime := by
  obtain ⟨-, recorded⟩ := recorded
  rw [watched] at recorded
  obtain ⟨now, action, payload, ok, -⟩ := recorded
  exact (validate_fields ok).2.2.2

end Records

theorem TellsRow.fields {m : FileMetadata} {u : Update} (sent : TellsRow m u)
    (carried : WireExact m.version) :
    u.path = m.filepath ∧ u.hash = m.hash ∧ u.decodedVersion = Binary64.wrapUint64 m.version ∧
      u.decodedTime = Binary64.toInt64 m.localLastModified := by
  have version : Binary64.toUint64 (Binary64.wrapUint64 m.version) = Binary64.wrapUint64 m.version :=
    Int.ofNat_inj.mp (carried.exact.trans carried.wrap.symm)
  obtain ⟨sc, rfl | rfl⟩ := sent
  · exact ⟨rfl, rfl, version, rfl⟩
  · rw [carried.wrap] at version
    exact ⟨rfl, rfl, version, rfl⟩

/-! The order of the stamps. -/

theorem castSeconds_eq (mtime : Int) :
    castSeconds mtime = if 0 ≤ mtime then mtime / 1000000000 else -(-mtime / 1000000000) := by
  unfold castSeconds
  split
  · rename_i sign
    exact Int.tdiv_eq_ediv_of_nonneg sign
  · rename_i sign
    rw [← Int.tdiv_eq_ediv_of_nonneg (by omega : 0 ≤ -mtime), Int.neg_tdiv, neg_neg]

theorem TimedEdit.stamp_exact (e : TimedEdit) : Binary64.toInt64 e.stamp = e.stamp := by
  have lower := e.lower
  have upper := e.upper
  have range : - 2 ^ 53 < e.stamp ∧ e.stamp < 2 ^ 53 := by
    unfold TimedEdit.stamp unixMilli
    rw [castSeconds_eq]
    cases e.recorder <;> simp only <;> omega
  exact Binary64.toInt64_small range.1 range.2

/-- The seconds of a watched edit are compared with the milliseconds of an earlier
scanned one, and come out smaller, or equal under a smaller peer ID. -/
def Misread (early late : TimedEdit) (earlyPeer latePeer : String) : Prop :=
  early.recorder = .scan ∧ late.recorder = .watcher ∧
    (castSeconds late.mtime < unixMilli early.mtime ∨
      castSeconds late.mtime = unixMilli early.mtime ∧ latePeer < earlyPeer)

instance (early late : TimedEdit) (p q : String) : Decidable (Misread early late p q) :=
  inferInstanceAs (Decidable (_ ∧ _ ∧ _))

theorem stamp_lt {early late : TimedEdit} (apart : early.mtime + 1000000000 ≤ late.mtime)
    (first : early.recorder = .watcher → 0 < castSeconds early.mtime)
    (same : ¬ (early.recorder = .scan ∧ late.recorder = .watcher)) : early.stamp < late.stamp := by
  unfold TimedEdit.stamp unixMilli
  rw [castSeconds_eq] at first ⊢
  rw [castSeconds_eq]
  cases e : early.recorder with
  | watcher =>
    have positive := first e
    cases late.recorder with
    | watcher => simp only; omega
    | scan => simp only; omega
  | scan =>
    cases l : late.recorder with
    | watcher => exact absurd ⟨e, l⟩ same
    | scan => simp only; omega

theorem resolve_equal {own remote : FileVersion} (hashes : own.hash ≠ remote.hash)
    (version : own.lamportVersion = remote.lamportVersion) : (resolve own remote).action =
      if own.timestamp < remote.timestamp ∨
        (own.timestamp = remote.timestamp ∧ own.peerID < remote.peerID)
      then .acceptRemote else .keepLocal := by
  rw [resolve_action hashes]
  simp only [rank_lt_iff, version, lt_self_iff_false, true_and, false_or]

theorem decision_edits {rt : Runtime} {repoID path : String} {e f : TimedEdit}
    {before sc before' sc' : SyncCoordinator} (recorded : e.Records rt repoID path before sc)
    (recorded' : f.Records rt repoID path before' sc') {m m' : FileMetadata}
    (row : sc.db.get repoID path = some m) (row' : sc'.db.get repoID path = some m')
    (version : m.version = m'.version) (carried : WireExact m'.version)
    (contents : rt.sha256 e.content ≠ rt.sha256 f.content) {u : Update} (sent : TellsRow m' u) :
    (decision sc sc'.localPeerID repoID u).action =
      if e.stamp < f.stamp ∨ (e.stamp = f.stamp ∧ sc.localPeerID < sc'.localPeerID)
      then .acceptRemote else .keepLocal := by
  obtain ⟨-, hash, time⟩ := recorded.row row
  obtain ⟨file', hash', time'⟩ := recorded'.row row'
  obtain ⟨here, content, number, stamp⟩ := sent.fields carried
  rw [time', f.stamp_exact] at stamp
  rw [decision, here, file', row]
  rw [resolve_equal]
  · simp only [ownVersion, remoteVersion, time, stamp]
  · simpa only [ownVersion, remoteVersion, hash, content, hash'] using contents
  · simp only [ownVersion, remoteVersion, number, version]

def knowing (peerID : String) : SyncCoordinator := addRepository (.new peerID) 0 "r" "/r"

def watching (peerID : String) (e : TimedEdit) : SyncCoordinator :=
  (handleLocalFileChanged (knowing peerID) 0 "r"
    ⟨.add, "f", Runtime.plain.sha256 e.content, e.content.length, castSeconds e.mtime, e.mode⟩).sc

def treeOf (f : DiskFile) : Directory where
  entries := .file ⟨['f'], by unfold Posix.Name; decide⟩ f .nil
  distinct := ⟨by simp [Forest.names], trivial⟩

def scanning (peerID : String) (e : TimedEdit) : SyncCoordinator :=
  (scanAndIndexLocalFiles (knowing peerID) 0 0 "r" ((treeOf e.file).walkItems .plain)).sc

def earlierEdit (recorder : Recorder) : TimedEdit :=
  ⟨recorder, [1], 1700000000000000000, 420, by decide, by decide⟩

def laterEdit : TimedEdit := ⟨.watcher, [2], 1700000100000000000, 420, by decide, by decide⟩

theorem earlier_watched : (earlierEdit .watcher).Records .plain "r" "f" (knowing "a")
    (watching "a" (earlierEdit .watcher)) :=
  ⟨by decide, 0, "created", _, rfl, by decide, by decide, by decide, rfl⟩

theorem earlier_scanned : (earlierEdit .scan).Records .plain "r" "f" (knowing "a")
    (scanning "a" (earlierEdit .scan)) :=
  ⟨by decide, 0, 0, treeOf (earlierEdit .scan).file, rfl, fun m row => (by cases row), rfl⟩

theorem later_watched : laterEdit.Records .plain "r" "f" (knowing "b") (watching "b" laterEdit) :=
  ⟨by decide, 0, "created", _, rfl, by decide, by decide, by decide, rfl⟩

end P2PSync
