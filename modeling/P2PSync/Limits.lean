import P2PSync.Scan

/-! Versions at the limits of their types. On the way to a peer and back a version
is a signed 64-bit number in the table, an unsigned one in memory, a JSON number
on the wire and a double at the receiver. -/
namespace P2PSync

def announcedRow (sc : SyncCoordinator) (m : FileMetadata) : Update :=
  metadataUpdate sc m.filepath m.size (Binary64.wrapUint64 m.version) m.hash m.localLastModified
    m.isDeleted m.mode

/-- The update that tells of a row: in the form of the broadcast after a scan, which
has the signed version, or in the form of all the others. -/
def TellsRow (m : FileMetadata) (u : Update) : Prop :=
  ∃ sc, u = announcedRow sc m ∨ u = scannedUpdate sc m

def changedVersion (accepted : Nat) (reused : Bool) : Nat :=
  if reused then accepted else (accepted + 1) % 2 ^ 64

/-- A change on top of a version comes back above it: the two conversions, there
and back, have not lost the one that was counted up. -/
def ComesBackAbove (version : Nat) (sent : Int) (reused : Bool) : Prop :=
  version < Binary64.toUint64 (changedVersion (Binary64.toUint64 sent) reused)

instance (version : Nat) (sent : Int) (reused : Bool) :
    Decidable (ComesBackAbove version sent reused) :=
  inferInstanceAs (Decidable (_ < _))

theorem accepted_quietly_iff {sc : SyncCoordinator} {peerID repoID : String} {u : Update}
    {m : FileMetadata} (row : sc.db.get repoID u.path = some m) (another : u.hash ≠ m.hash) :
    (decision sc peerID repoID u).action = .acceptRemote ∧
      (decision sc peerID repoID u).isConflict = false ↔
      Binary64.wrapUint64 m.version < u.decodedVersion := by
  have own : ownVersion sc (sc.db.get repoID u.path) =
      ⟨m.hash, Binary64.wrapUint64 m.version, m.localLastModified, sc.localPeerID⟩ := by
    rw [row]
    rfl
  rw [decision, resolve_accept_iff, ← Bool.not_eq_true, resolve_conflict_iff, rank_lt_iff, own]
  simp only [remoteVersion, ne_eq, another.symm, not_false_eq_true, true_and]
  omega

theorem local_sent {sc : SyncCoordinator} {now : Int} {repoID : String}
    {payload : FileChangedPayload} {o : Output}
    (sent : o ∈ (handleLocalFileChanged sc now repoID payload).out) :
    repoID ∈ sc.db.repositories := by
  by_contra unknown
  by_cases recorded : Recorded sc repoID payload
  · obtain ⟨active, tmp, fresh⟩ := recorded
    have refused := DB.save_unknown (m := recordedMeta sc repoID payload) unknown now
    have ticked : (tickClocks sc).db = sc.db := rfl
    rw [recordedMeta] at refused
    simp [handleLocalFileChanged, active, tmp, fresh, ticked, refused] at sent
  · rw [(local_dropped recorded now).2] at sent
    cases sent

theorem toUint64_succ_lt (n : Nat) : Binary64.toUint64 (n : Int) + 1 < 2 ^ 64 := by
  have bound := Binary64.toUint64_lt (n : Int)
  by_contra last
  have top : Binary64.toUint64 (n : Int) = 2 ^ 64 - 1 := by omega
  have again := Binary64.toUint64_toUint64 n
  rw [top] at again
  exact absurd again (by decide)

/-- For a version sent as the unsigned number it is: if it is rounded up on the way
there, or, where the change counts one up, if it is below 2 ^ 53 or the successor is
rounded up on the way back. -/
theorem comesBackAbove_unsigned (version : Nat) (reused : Bool) :
    ComesBackAbove version version reused ↔
      version < Binary64.toUint64 version ∨ reused = false ∧ (version < 2 ^ 53 ∨
        Binary64.toUint64 version < 2 ^ 54 ∧ Binary64.toUint64 version % 4 = 2) := by
  unfold ComesBackAbove changedVersion
  cases reused with
  | true => simp only [if_true, Binary64.toUint64_toUint64, Bool.true_eq_false, false_and, or_false]
  | false =>
    rw [if_neg Bool.false_ne_true, Nat.mod_eq_of_lt (toUint64_succ_lt version),
      Binary64.lt_toUint64_succ_iff]
    simp only [true_and]

theorem reusesVersion_updatedAt (m : FileMetadata) (now : Int) (payload : FileChangedPayload) :
    reusesVersion { m with updatedAt := now } payload = reusesVersion m payload := rfl

theorem wrapUint64_nextVersion {accepted : Nat} (bound : accepted < 2 ^ 64) {m : FileMetadata}
    (stored : m.version = Binary64.wrapInt64 accepted) (payload : FileChangedPayload) :
    Binary64.wrapUint64 (nextVersion (some m) payload) =
      changedVersion accepted (reusesVersion m payload) := by
  have back : Binary64.wrapUint64 m.version = accepted := by
    rw [stored, Binary64.wrapUint64_wrapInt64, Binary64.wrapUint64_natCast bound]
  unfold changedVersion
  cases reused : reusesVersion m payload with
  | true => simp only [nextVersion, reused, if_true, back]
  | false =>
    simp only [nextVersion, reused, Bool.false_eq_true, if_false,
      Binary64.wrapUint64_wrapInt64, Binary64.wrapUint64_succ, back]
    split <;> omega

def countedRow (version : Int) :
    FileMetadata := ⟨"r", "f", "#a", 1, version, 5, false, 0, 420, none⟩

def counting (version : Int) : SyncCoordinator :=
  { addRepository (.new "a") 0 "r" "/r" with
    db := ((addRepository (.new "a") 0 "r" "/r").db.save 0 (countedRow version)).getD .empty }

def listener : SyncCoordinator := addRepository (.new "b") 0 "r" "/r"

def followed (version : Int) : SyncCoordinator :=
  (handlePeerMetadataUpdate .plain listener 6 false "a" "r"
    (announcedRow (counting version) (countedRow version))).1

def edited : FileChangedPayload := ⟨.modify, "f", "#b", 2, 9, 420⟩

end P2PSync
