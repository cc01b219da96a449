import P2PSync.Coordinator

/-! One change of a file, from the peer that records it to a peer with the same row.
The sender records a change of content, size, mode or deletion flag; the receiver
looks at the content first and skips what it has. -/
namespace P2PSync

def SameRecord (x y : FileMetadata) : Prop :=
  x.hash = y.hash ∧ x.size = y.size ∧ x.mode = y.mode ∧ x.isDeleted = y.isDeleted ∧
    x.version = y.version

def Identical : Option FileMetadata → Option FileMetadata → Prop
  | none, none => True
  | some x, some y =>
    SameRecord x y ∧ x.localLastModified = y.localLastModified ∧ x.isDeleted = false
  | _, _ => False

section Edit

variable (a b : SyncCoordinator) (repoID : String) (payload : FileChangedPayload)

/-- The change ranks above the row: by its number or, where it reuses that of the row,
by its time. -/
def exceeds (m : FileMetadata) : Bool :=
  if reusesVersion m payload then
    m.localLastModified < Binary64.toInt64 payload.modifiedTime ∨
      m.localLastModified = Binary64.toInt64 payload.modifiedTime ∧ b.localPeerID < a.localPeerID
  else Binary64.wrapUint64 m.version + 1 < 2 ^ 64

structure Conveys : Prop where
  heard : ignoredPath (relativePath a repoID payload.path) = false
  known : repoID ∈ b.db.repositories
  content : ∀ m, a.db.get repoID (relativePath a repoID payload.path) = some m →
    m.hash ≠ payload.hash ∧ exceeds a b payload m = true
  size : Binary64.toInt64 payload.size = payload.size
  mode : Binary64.toUint32 payload.mode = payload.mode
  version : Binary64.wrapInt64 (recordedUpdate a repoID payload).decodedVersion =
    (recordedMeta a repoID payload).version

variable {a b repoID payload}

theorem Identical.own {row row' : Option FileMetadata} (same : Identical row row')
    (sc : SyncCoordinator) : ownVersion sc row' = ownVersion sc row := by
  cases row with
  | none =>
    cases row' with
    | none => rfl
    | some y => cases same
  | some x =>
    cases row' with
    | none => cases same
    | some y =>
      obtain ⟨⟨hash, -, -, -, version⟩, time, -⟩ := same
      simp only [ownVersion, hash, version, time]

theorem decoded_number
    (version : Binary64.wrapInt64 (recordedUpdate a repoID payload).decodedVersion =
      (recordedMeta a repoID payload).version) : (recordedUpdate a repoID payload).decodedVersion =
      Binary64.wrapUint64 (recordedMeta a repoID payload).version := by
  rw [← version, Binary64.wrapUint64_wrapInt64]
  exact (Binary64.wrapUint64_natCast (Binary64.toUint64_lt _)).symm

theorem edit_accepted_iff (content : payload.hash ≠ "")
    (same : Identical (a.db.get repoID (relativePath a repoID payload.path))
      (b.db.get repoID (relativePath a repoID payload.path)))
    (version : Binary64.wrapInt64 (recordedUpdate a repoID payload).decodedVersion =
      (recordedMeta a repoID payload).version) :
    (decision b a.localPeerID repoID (recordedUpdate a repoID payload)).action = .acceptRemote ↔
      ∀ m, a.db.get repoID (relativePath a repoID payload.path) = some m →
        m.hash ≠ payload.hash ∧ exceeds a b payload m = true := by
  have number := decoded_number version
  have own := same.own b
  rw [decision, resolve_accept_iff, rank_lt_iff]
  simp only [remoteVersion, number]
  rw [show (recordedUpdate a repoID payload).path = relativePath a repoID payload.path from rfl, own,
    show (recordedUpdate a repoID payload).hash = payload.hash from rfl,
    show (recordedUpdate a repoID payload).decodedTime = Binary64.toInt64 payload.modifiedTime from rfl]
  simp only [recordedMeta, localMeta]
  cases row : a.db.get repoID (relativePath a repoID payload.path) with
  | none =>
    have first : Binary64.wrapUint64 (nextVersion none payload) = 1 := by
      rw [nextVersion]
      decide
    simp only [ownVersion, first, reduceCtorEq, false_implies, implies_true, iff_true]
    exact ⟨content.symm, Or.inl Nat.zero_lt_one⟩
  | some m =>
    simp only [ownVersion, nextVersion, Option.some.injEq, forall_eq', exceeds]
    refine and_congr_right (fun _ => ?_)
    split
    · simp
    · rw [decide_eq_true_eq, Binary64.wrapUint64_wrapInt64, Binary64.wrapUint64_succ]
      constructor
      · rintro (above | ⟨same, -⟩) <;>
          split at * <;> omega
      · intro below
        rw [if_pos below]
        exact Or.inl (Nat.lt_succ_self _)

theorem edit_received (rt : Runtime) (now : Int) (missing : Bool) :
    (handlePeerMetadataUpdate rt b now missing a.localPeerID repoID
        (recordedUpdate a repoID payload)).1.db.get repoID (relativePath a repoID payload.path) =
      if ignoredPath (relativePath a repoID payload.path) = false ∧ repoID ∈ b.db.repositories ∧
        (decision b a.localPeerID repoID (recordedUpdate a repoID payload)).action = .acceptRemote
      then some { acceptedMeta repoID (recordedUpdate a repoID payload) with updatedAt := now }
      else b.db.get repoID (relativePath a repoID payload.path) := by
  have path : (recordedUpdate a repoID payload).path = relativePath a repoID payload.path := rfl
  by_cases known : repoID ∈ b.db.repositories
  · rw [peer_row rt now missing a.localPeerID _ known]
    simp only [path, known, true_and, and_true]
  · rw [if_neg (fun taken => known taken.2.1), handlePeerMetadataUpdate_db]
    split
    · rw [DB.save_unknown known]
      rfl
    · rfl

theorem recorded_apart (recorded : Recorded a repoID payload) (edit : payload.action ≠ .delete)
    (same : Identical (a.db.get repoID (relativePath a repoID payload.path))
      (b.db.get repoID (relativePath a repoID payload.path))) {y : FileMetadata}
    (row : b.db.get repoID (relativePath a repoID payload.path) = some y) :
    ¬ SameRecord (recordedMeta a repoID payload) y := by
  have fresh := recorded.2.2
  cases held : a.db.get repoID (relativePath a repoID payload.path) with
  | none =>
    rw [held, row] at same
    cases same
  | some x =>
    rw [held, row] at same
    rw [held, Option.any_some] at fresh
    obtain ⟨⟨hash, size, mode, -, -⟩, -, alive⟩ := same
    rintro ⟨hash', size', mode', -, -⟩
    refine Bool.eq_false_iff.mp fresh (decide_eq_true ?_)
    exact ⟨hash.trans hash'.symm, size.trans size'.symm, mode.trans mode'.symm,
      alive.trans (decide_eq_false edit).symm⟩

theorem sameRecord_accepted (now now' : Int) :
    SameRecord { recordedMeta a repoID payload with updatedAt := now }
        { acceptedMeta repoID (recordedUpdate a repoID payload) with updatedAt := now' } ↔
      Binary64.toInt64 payload.size = payload.size ∧ Binary64.toUint32 payload.mode = payload.mode ∧
        Binary64.wrapInt64 (recordedUpdate a repoID payload).decodedVersion =
          (recordedMeta a repoID payload).version := by
  have size : (recordedUpdate a repoID payload).decodedSize = Binary64.toInt64 payload.size := rfl
  have mode : (recordedUpdate a repoID payload).decodedMode = Binary64.toUint32 payload.mode := rfl
  have hash : (recordedUpdate a repoID payload).hash = (recordedMeta a repoID payload).hash := rfl
  have flag : (recordedUpdate a repoID payload).isDeleted =
    (recordedMeta a repoID payload).isDeleted := rfl
  simp only [SameRecord, acceptedMeta, size, mode, hash, flag, true_and]
  rw [eq_comm, eq_comm (a := (recordedMeta a repoID payload).mode),
    eq_comm (a := (recordedMeta a repoID payload).version)]
  exact Iff.rfl

/-- After the receiver has processed the broadcast of a change, its row agrees with
the sender's exactly if the content changed, the number or the time grew, and the
numbers survived the wire. -/
theorem edit_replicates_iff (rt : Runtime) (now now' : Int) (missing : Bool)
    (valid : payload.Valid) (edit : payload.action ≠ .delete) (filled : 0 < payload.size)
    (recorded : Recorded a repoID payload) (tracked : repoID ∈ a.db.repositories)
    (same : Identical (a.db.get repoID (relativePath a repoID payload.path))
      (b.db.get repoID (relativePath a repoID payload.path))) :
    ∃ u x, (handleLocalFileChanged a now repoID payload).out =
        [.broadcast (.fileMetadataUpdate repoID u)] ∧
      (handleLocalFileChanged a now repoID payload).sc.db.get repoID
        (relativePath a repoID payload.path) = some x ∧
      ((∃ y, (handlePeerMetadataUpdate rt b now' missing a.localPeerID repoID u).1.db.get repoID
          (relativePath a repoID payload.path) = some y ∧ SameRecord x y) ↔
        Conveys a b repoID payload) := by
  obtain ⟨db, saved⟩ := DB.save_known (m := recordedMeta a repoID payload) tracked now
  have content := (valid.2.1 edit).1
  refine ⟨recordedUpdate a repoID payload, { recordedMeta a repoID payload with updatedAt := now },
    ?_, ?_, ?_⟩
  · rw [local_recorded recorded saved]
    exact if_pos (decide_eq_true (Or.inl filled))
  · rw [local_recorded recorded saved]
    exact DB.get_save_self saved
  · rw [edit_received]
    constructor
    · rintro ⟨y, row, agree⟩
      split at row
      · rename_i taken
        cases row
        obtain ⟨size, mode, version⟩ := (sameRecord_accepted now now').mp agree
        exact ⟨taken.1, taken.2.1, (edit_accepted_iff content same version).mp taken.2.2, size, mode,
          version⟩
      · exact absurd agree (recorded_apart recorded edit same row)
    · intro conveys
      rw [if_pos ⟨conveys.heard, conveys.known,
        (edit_accepted_iff content same conveys.version).mpr conveys.content⟩]
      exact ⟨_, rfl, (sameRecord_accepted now now').mpr
        ⟨conveys.size, conveys.mode, conveys.version⟩⟩

end Edit

def adder : SyncCoordinator :=
  (handleLocalFileChanged (addRepository (.new "a") 0 "r" "/r") 0 "r"
    ⟨.add, "f", "h", 1, 5, 420⟩).sc

def follower : SyncCoordinator :=
  (handlePeerMetadataUpdate .plain (addRepository (.new "b") 0 "r" "/r") 0 false "a" "r"
    ⟨"f", "h", 1, 1, 5, false, 420, none⟩).1

theorem adder_follower : Identical (adder.db.get "r" "f") (follower.db.get "r" "f") :=
  ⟨⟨rfl, by decide, by decide, rfl, by decide⟩, by decide, rfl⟩

def rewritten : FileChangedPayload := ⟨.modify, "f", "h2", 2, 6, 420⟩

theorem edit_replicates_iff_rewritten : ∃ u x y,
    (handleLocalFileChanged adder 0 "r" rewritten).out = [.broadcast (.fileMetadataUpdate "r" u)] ∧
    (handleLocalFileChanged adder 0 "r" rewritten).sc.db.get "r" "f" = some x ∧
    (handlePeerMetadataUpdate .plain follower 0 false "a" "r" u).1.db.get "r" "f" = some y ∧
    SameRecord x y := by
  obtain ⟨u, x, out, own, agree⟩ := edit_replicates_iff .plain 0 0 false
    (by decide : rewritten.Valid) (by decide) (by decide) (by decide : Recorded adder "r" rewritten)
    (by decide) adder_follower
  have content : ∀ m ∈ adder.db.get "r" "f", m.hash ≠ rewritten.hash ∧
      exceeds adder follower rewritten m = true := by decide
  obtain ⟨y, row, same⟩ := agree.mpr
    ⟨by decide, by decide, content, by decide, by decide, by decide⟩
  exact ⟨u, x, y, out, own, row, same⟩

def madeExecutable : FileChangedPayload := ⟨.modify, "f", "h", 1, 6, 493⟩

theorem mode_not_replicated : madeExecutable.Valid ∧ Recorded adder "r" madeExecutable ∧
    Identical (adder.db.get "r" "f") (follower.db.get "r" "f") ∧ ∃ u x y,
    (handleLocalFileChanged adder 0 "r" madeExecutable).out =
      [.broadcast (.fileMetadataUpdate "r" u)] ∧
    (handleLocalFileChanged adder 0 "r" madeExecutable).sc.db.get "r" "f" = some x ∧
    (handlePeerMetadataUpdate .plain follower 0 false "a" "r" u).1.db.get "r" "f" = some y ∧
    (x.mode, x.version) = (493, 2) ∧ (y.mode, y.version) = (420, 1) :=
  ⟨by decide, by decide, adder_follower, _, _, _, rfl, rfl, rfl, by decide, by decide⟩

end P2PSync
