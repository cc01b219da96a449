import P2PSync.Clocks
import P2PSync.Indexing
import P2PSync.Restart

/-! What a peer knows of its own clock after a crash. The clock is stored only inside
rows, by local changes. A scan counts its findings without storing the clock, and
whoever else writes a row drops the clock that was in it. -/
namespace P2PSync

open Transition

def FileMetadata.count (p : String) (m : FileMetadata) : Nat :=
  (m.vectorClock.map (·.get p)).getD 0

def DB.count (db : DB) (p : String) : Nat := (loadVectorClocks db).get p

def Update.count (p : String) (u : Update) : Nat :=
  (u.vectorClock.bind (·.lookup p)).getD 0

def Output.count (p : String) : Output → Nat
  | .broadcast (.fileMetadataUpdate _ u) | .sendToPeer _ (.fileMetadataUpdate _ u) => u.count p
  | _ => 0

def countSent (p : String) (out : List Output) : Nat := (out.map (Output.count p)).foldr max 0

def SyncCoordinator.ownCount (sc : SyncCoordinator) : Nat := sc.vectorClock.get sc.localPeerID

def spares (sc : SyncCoordinator) (repoID file : String) : Bool :=
  sc.ownCount ≤ (sc.db.hardDelete repoID file).count sc.localPeerID

theorem le_foldl_rows (p : String) (n : Nat) (rows : List FileMetadata) (vc : VectorClock) :
    n ≤ (rows.foldl (fun vc (m : FileMetadata) =>
        vc.merge ((m.vectorClock.map (fun c => c.clocks)).getD ∅)) vc).get p ↔
      n ≤ vc.get p ∨ ∃ m ∈ rows, n ≤ m.count p := by
  induction rows generalizing vc with
  | nil => simp
  | cons m rest ih =>
    have one : (((m.vectorClock.map (fun c : VectorClock => c.clocks)).getD ∅).lookup p).getD 0 =
        m.count p := by
      unfold FileMetadata.count
      cases m.vectorClock <;> rfl
    rw [List.foldl_cons, ih, VectorClock.get_merge, one, le_max_iff]
    simp only [List.mem_cons, or_and_right, exists_or, exists_eq_left, or_assoc]

namespace DB

theorem mem_listAll {db : DB} {repoID : String} {m : FileMetadata} :
    m ∈ db.listByRepository repoID true ↔
      db.get m.repositoryID m.filepath = some m ∧ m.repositoryID = repoID := by
  rw [listByRepository, List.mem_insertionSort, List.mem_filter, mem_rows]
  simp

theorem le_count_iff (db : DB) (p : String) (n : Nat) :
    n ≤ db.count p ↔ n = 0 ∨ ∃ r f m, db.get r f = some m ∧ n ≤ m.count p := by
  have zero : VectorClock.new.get p = 0 := rfl
  rw [count, loadVectorClocks, le_foldl_rows, zero, Nat.le_zero]
  refine or_congr_right ⟨?_, ?_⟩
  · rintro ⟨m, member, le⟩
    obtain ⟨repo, -, listed⟩ := List.mem_flatMap.mp member
    exact ⟨_, _, m, (mem_listAll.mp listed).1, le⟩
  · rintro ⟨r, f, m, row, le⟩
    obtain ⟨rfl, rfl⟩ := get_fields row
    have known := repository_of_get row
    obtain ⟨repo, found⟩ := Option.isSome_iff_exists.mp (AList.lookup_isSome.mpr known)
    exact ⟨m, List.mem_flatMap.mpr ⟨⟨_, repo⟩, AList.mem_lookup_iff.mp found,
      mem_listAll.mpr ⟨row, rfl⟩⟩, le⟩

end DB

theorem spares_kept {sc : SyncCoordinator} {repoID file : String} {db : DB}
    (spared : spares sc repoID file = true)
    (rows : ∀ r f, (r, f) ≠ (repoID, file) → db.get r f = sc.db.get r f) :
    sc.ownCount ≤ db.count sc.localPeerID := by
  rcases (DB.le_count_iff _ _ _).mp (of_decide_eq_true spared) with none | ⟨r, f, m, row, le⟩
  · exact (DB.le_count_iff _ _ _).mpr (Or.inl none)
  · by_cases here : (r, f) = (repoID, file)
    · cases here
      rw [DB.get_hardDelete_self] at row
      cases row
    · rw [DB.get_hardDelete_other _ here, ← rows r f here] at row
      exact (DB.le_count_iff _ _ _).mpr (Or.inr ⟨r, f, m, row, le⟩)

theorem countSent_le {p : String} {out : List Output} {n : Nat}
    (each : ∀ o ∈ out, o.count p ≤ n) : countSent p out ≤ n := by
  induction out with
  | nil => exact Nat.zero_le n
  | cons o rest ih =>
    exact max_le (each o List.mem_cons_self)
      (ih (fun x member => each x (List.mem_cons_of_mem _ member)))

theorem carries_count {vc : VectorClock} {out : List Output} (carries : Carries vc out)
    (p : String) : countSent p out ≤ vc.get p := by
  refine countSent_le (fun o member => ?_)
  unfold Output.count
  split
  · rename_i r u
    rw [Update.count, carries r u (Or.inl member)]
    exact le_rfl
  · rename_i q r u
    rw [Update.count, carries r u (Or.inr ⟨q, member⟩)]
    exact le_rfl
  · exact Nat.zero_le _

/-- What a handler call does to the own count: nothing is sent that is not counted,
and what is counted is in some row. -/
structure Accounts (sc sc' : SyncCoordinator) (out : List Output) : Prop where
  sent : countSent sc.localPeerID out ≤ sc'.ownCount
  grows : sc.ownCount ≤ sc'.ownCount
  stored : sc'.ownCount ≤ sc'.db.count sc.localPeerID

section Handlers

variable {sc : SyncCoordinator} (stored : sc.ownCount ≤ sc.db.count sc.localPeerID)

include stored

theorem accounts_same {sc' : SyncCoordinator} {out : List Output}
    (named : sc'.localPeerID = sc.localPeerID)
    (clock : sc'.vectorClock = sc.vectorClock) (carries : Carries sc.vectorClock out)
    (rows : sc'.db = sc.db ∨ ∃ repoID file, spares sc repoID file = true ∧
      ∀ r f, (r, f) ≠ (repoID, file) → sc'.db.get r f = sc.db.get r f) : Accounts sc sc' out := by
  have own : sc'.ownCount = sc.ownCount := by
    rw [SyncCoordinator.ownCount, clock, named, SyncCoordinator.ownCount]
  refine ⟨?_, own.ge, ?_⟩
  · rw [own]
    exact carries_count carries sc.localPeerID
  · rw [own]
    rcases rows with same | ⟨repoID, file, spared, rows⟩
    · rw [same]
      exact stored
    · exact spares_kept spared rows

theorem accounts_local (now : Int) {repoID : String} (payload : FileChangedPayload)
    (rooted : ∀ r ∈ sc.workers, r ∈ sc.db.repositories) (room : sc.ownCount + 1 < 2 ^ 64) :
    Accounts sc (handleLocalFileChanged sc now repoID payload).sc
      (handleLocalFileChanged sc now repoID payload).out := by
  have carries := carries_count (local_carries sc now repoID payload) sc.localPeerID
  have named := (local_frame sc now repoID payload).1
  by_cases recorded : Recorded sc repoID payload
  · obtain ⟨db, saved⟩ := DB.save_known (m := recordedMeta sc repoID payload)
      (rooted repoID recorded.1) now
    rw [local_recorded recorded saved] at named carries ⊢
    have own : SyncCoordinator.ownCount { tickClocks sc with db := db } = sc.ownCount + 1 := by
      rw [SyncCoordinator.ownCount] at room ⊢
      simp only [tickClocks, VectorClock.get_tick, if_true, Nat.mod_eq_of_lt room]
      rfl
    refine ⟨carries, by rw [own]; omega, ?_⟩
    refine (DB.le_count_iff _ _ _).mpr (Or.inr ⟨_, _, _, DB.get_save_self saved, le_of_eq ?_⟩)
    rfl
  · obtain ⟨same, silent⟩ := local_dropped recorded now
    rw [same, silent]
    exact accounts_same stored rfl rfl (carries_nil _) (Or.inl rfl)

theorem accounts_update (rt : Runtime) (now : Int) (missing : Bool) {peerID repoID : String}
    {u : Update} (honest : ∀ remote, u.vectorClock = some remote →
      ((decodeClock remote).lookup sc.localPeerID).getD 0 ≤ sc.ownCount)
    (spared : (decision sc peerID repoID u).action = .acceptRemote →
      spares sc repoID u.path = true) :
    Accounts sc (handlePeerMetadataUpdate rt sc now missing peerID repoID u).1
      (handlePeerMetadataUpdate rt sc now missing peerID repoID u).2 := by
  have carries := carries_count (peer_carries rt sc now missing peerID repoID u) sc.localPeerID
  have named := (peer_frame rt sc now missing peerID repoID u).1
  have own : (handlePeerMetadataUpdate rt sc now missing peerID repoID u).1.ownCount =
      sc.ownCount := by
    rw [SyncCoordinator.ownCount, named]
    cases heard : ignoredPath u.path with
    | true =>
      rw [peer_ignored rt now missing heard]
      rfl
    | false =>
      rw [peer_clock rt sc now missing peerID repoID u heard, mergeRemoteClock]
      split
      · rfl
      · rename_i remote clock
        rw [VectorClock.get_merge]
        exact max_eq_left (honest remote clock)
  refine ⟨?_, own.ge, ?_⟩
  · rw [SyncCoordinator.ownCount, named]
    exact carries
  · rw [own]
    by_cases accept : (decision sc peerID repoID u).action = .acceptRemote
    · apply spares_kept (spared accept)
      intro r f other
      rw [handlePeerMetadataUpdate_db]
      split
      · cases saved : sc.db.save now (acceptedMeta repoID u) with
        | none => rfl
        | some db => exact DB.get_save_other saved other
      · rfl
    · rw [handlePeerMetadataUpdate_db, if_neg (fun taken => accept taken.2)]
      exact stored

theorem accounts_response (rt : Runtime) (now : Int) (env : Env) (peerID : String)
    {payload : FileResponsePayload}
    (spared : ∀ details, sc.pendingDownloads.lookup (pendingKey (clean payload.path) payload.hash) =
        some details → payload.contentBase64 ≠ "" ∨ finalFailure env payload details = true →
      spares sc details.repoID (clean payload.path) = true) :
    Accounts sc (handleFileResponse rt sc now env peerID payload).sc
      (handleFileResponse rt sc now env peerID payload).out := by
  have silent : Carries sc.vectorClock (handleFileResponse rt sc now env peerID payload).out := by
    rintro r u (sent | ⟨q, sent⟩) <;>
      obtain ⟨details, -, ⟨data, repo, -, eq⟩ | ⟨-, -, eq⟩ | ⟨-, eq⟩⟩ := response_out sent <;>
      cases eq
  refine accounts_same stored (response_frame rt sc now env peerID payload).1
    (response_clock rt sc now env peerID payload) silent ?_
  by_cases consumed : ∃ details, Consumes sc peerID payload details
  · obtain ⟨details, consumed⟩ := consumed
    by_cases touches : payload.contentBase64 ≠ "" ∨ finalFailure env payload details = true
    · refine Or.inr ⟨_, _, spared details consumed.2.2.2 touches, fun r f other => ?_⟩
      rcases response_row rt sc now env peerID payload r f with same | ⟨details', again, here, -⟩
      · exact same
      · cases Option.some.inj (consumed.2.2.2.symm.trans again.2.2.2)
        exact absurd here other
    · obtain ⟨stream, running⟩ := not_or.mp touches
      left
      rw [response_consumed consumed rt now env, if_neg stream, (beginStream_eq _ _ _ _ _ _).1,
        if_neg]
      · rfl
      · rintro ⟨-, failed, last⟩
        exact running (by simp [finalFailure, not_not.mp stream, failed, last])
  · left
    rw [(response_ignored (fun d h => consumed ⟨d, h⟩) rt now env).1]

theorem accounts_request (env : Env) (peerID : String) (payload : FileRequestPayload) :
    Accounts sc (handleFileRequest sc env peerID payload).sc
      (handleFileRequest sc env peerID payload).out := by
  obtain ⟨same, out⟩ := handleFileRequest_spec sc env peerID payload
  rw [same]
  refine accounts_same stored rfl rfl ?_ (Or.inl rfl)
  rintro r u (sent | ⟨q, sent⟩) <;>
    rcases out _ sent with ⟨response, eq⟩ | ⟨-, m, base, -, -, eq | eq⟩ <;> cases eq

theorem accounts_resolution {repoID path resolution : String} (peerID : String) (removed : Bool)
    (spared : resolution = "remote" → spares sc repoID path = true) :
    Accounts sc (handleConflictResolution sc repoID path resolution peerID).sc
      ((handleConflictResolution sc repoID path resolution peerID).out.filter
        (Output.happens removed)) := by
  obtain ⟨db, eq, -⟩ := resolution_touches sc repoID path resolution peerID
  refine accounts_same stored (resolution_frame sc repoID path resolution peerID).1 (by rw [eq])
    ((resolution_carries sc repoID path resolution peerID).sublist List.filter_sublist) ?_
  by_cases remote : resolution = "remote"
  · refine Or.inr ⟨repoID, path, spared remote, fun r f other => ?_⟩
    rw [resolution_row, if_neg (fun here => other here.2)]
  · left
    unfold handleConflictResolution
    split_ifs <;> rfl

end Handlers

/-! A scan that counts nothing. -/

def findsRow (db : DB) (repoID : String) (found : String × FileInfo) : Bool :=
  found.2.sha256 = none ∨ (db.get repoID found.1).any (fun m =>
    m.isDeleted = false ∧ m.size = found.2.size ∧ m.mode = found.2.mode ∧
      (m.localLastModified = found.2.modTime ∨ found.2.sha256 = some m.hash))

def walkedFiles (items : List WalkItem) : List (String × FileInfo) :=
  (items.takeWhile WalkItem.completes).filterMap WalkItem.found

/-- The walk meets no file twice and none that is new or changed, and, if it gets to
its end, every live row that is older than the scan. -/
def nothingNew (db : DB) (scanStart : Int) (repoID : String) (items : List WalkItem) : Bool :=
  ((walkedFiles items).map Prod.fst).Nodup ∧
    (∀ found ∈ walkedFiles items, findsRow db repoID found) ∧
    (items.all WalkItem.completes → ∀ m ∈ db.listByRepository repoID false,
      scanStart ≤ m.updatedAt ∨ m.filepath ∈ (walkedFiles items).map Prod.fst)

structure Quiet (repoID : String) (sc : SyncCoordinator) (s : ScanState) : Prop where
  clock : s.sc.vectorClock = sc.vectorClock
  named : s.sc.localPeerID = sc.localPeerID
  silent : s.out = []
  rows : ∀ r f, s.sc.db.get r f = sc.db.get r f ∨ r = repoID ∧ f ∈ s.seenFiles ∧
    ∃ m modTime now, sc.db.get r f = some m ∧
      s.sc.db.get r f = some { m with localLastModified := modTime, updatedAt := now }

theorem indexFile_findsRow {sc : SyncCoordinator} (now : Int) {repoID rel : String}
    {info : FileInfo} (finds : findsRow sc.db repoID (rel, info) = true) :
    indexFile sc now repoID rel info = (sc, []) ∨
      ∃ m db, sc.db.get repoID rel = some m ∧
        sc.db.save now { m with localLastModified := info.modTime } = some db ∧
        indexFile sc now repoID rel info = ({ sc with db := db }, []) := by
  have finds := of_decide_eq_true finds
  unfold indexFile
  cases hashed : info.sha256 with
  | none =>
    left
    split
    · rfl
    · split <;> rfl
  | some hash =>
    simp only [hashed, reduceCtorEq, false_or] at finds
    obtain ⟨m, row, same⟩ := (Option.any_eq_true _ _).mp finds
    obtain ⟨alive, size, mode, timed⟩ := of_decide_eq_true same
    rw [row]
    simp only
    split
    · exact Or.inl rfl
    · rename_i moved
      have content : m.hash = hash := by
        rcases timed with time | content
        · exact absurd ⟨size, time, mode, alive⟩ moved
        · exact (Option.some.inj content).symm
      rw [if_pos ⟨content, size, mode, alive⟩]
      cases saved : sc.db.save now { m with localLastModified := info.modTime } with
      | none => exact Or.inl rfl
      | some db => exact Or.inr ⟨m, db, rfl, saved, rfl⟩

theorem Quiet.index {repoID rel : String} {sc : SyncCoordinator} {s : ScanState}
    (quiet : Quiet repoID sc s) (now : Int) {info : FileInfo} (new : rel ∉ s.seenFiles)
    (finds : findsRow sc.db repoID (rel, info) = true) :
    Quiet repoID sc ⟨(indexFile s.sc now repoID rel info).1, rel :: s.seenFiles,
      s.out ++ (indexFile s.sc now repoID rel info).2⟩ := by
  have row : s.sc.db.get repoID rel = sc.db.get repoID rel := by
    rcases quiet.rows repoID rel with same | ⟨-, met, -⟩
    · exact same
    · exact absurd met new
  have later : ∀ r f, s.sc.db.get r f = sc.db.get r f ∨ r = repoID ∧ f ∈ rel :: s.seenFiles ∧
      ∃ m modTime now, sc.db.get r f = some m ∧
        s.sc.db.get r f = some { m with localLastModified := modTime, updatedAt := now } :=
    fun r f => (quiet.rows r f).imp_right
      (fun met => ⟨met.1, List.mem_cons_of_mem _ met.2.1, met.2.2⟩)
  have here : findsRow s.sc.db repoID (rel, info) = true := by
    simpa only [findsRow, row] using finds
  rcases indexFile_findsRow now here with same | ⟨m, db, found, saved, touched⟩
  · rw [same]
    exact ⟨quiet.clock, quiet.named, by rw [quiet.silent]; rfl, later⟩
  · rw [touched]
    refine ⟨quiet.clock, quiet.named, by rw [quiet.silent]; rfl, fun r f => ?_⟩
    obtain ⟨rfl, rfl⟩ := DB.get_fields found
    by_cases own : (r, f) = (m.repositoryID, m.filepath)
    · cases own
      exact Or.inr ⟨rfl, List.mem_cons_self, m, info.modTime, now, row ▸ found,
        DB.get_save_self saved⟩
    · simp only [DB.get_save_other saved own]
      exact later r f

theorem Quiet.walk {repoID : String} {sc : SyncCoordinator} (now : Int) {items : List WalkItem}
    {s : ScanState} (quiet : Quiet repoID sc s) (once : ((walkedFiles items).map Prod.fst).Nodup)
    (fresh : ∀ found ∈ walkedFiles items, found.1 ∉ s.seenFiles)
    (finds : ∀ found ∈ walkedFiles items, findsRow sc.db repoID found = true) :
    Quiet repoID sc (walkDir now repoID s items).1 ∧
      (∀ f, f ∈ s.seenFiles ∨ f ∈ (walkedFiles items).map Prod.fst →
        f ∈ (walkDir now repoID s items).1.seenFiles) ∧
      (walkDir now repoID s items).2 = items.all WalkItem.completes := by
  induction items generalizing s with
  | nil => exact ⟨quiet, by simp [walkedFiles, walkDir], rfl⟩
  | cons item rest ih =>
    cases item with
    | failed => exact ⟨quiet, by simp [walkedFiles, walkDir, WalkItem.completes], rfl⟩
    | entry rel isDir info =>
      have whole : (WalkItem.entry rel isDir info :: rest).all WalkItem.completes =
          rest.all WalkItem.completes := rfl
      have files : walkedFiles (.entry rel isDir info :: rest) =
          (WalkItem.entry rel isDir info).found.toList ++ walkedFiles rest := by
        cases found : (WalkItem.entry rel isDir info).found <;>
          simp [walkedFiles, List.takeWhile_cons, WalkItem.completes, found]
      rw [files] at once fresh finds
      rw [whole, files, walkDir]
      unfold visit
      by_cases passed : hidden rel ∨ isDir ∨ hasSuffix rel ".tmp"
      · simp only [WalkItem.found, if_pos passed, Option.toList_none, List.nil_append]
          at once fresh finds ⊢
        exact ih quiet once fresh finds
      · cases info with
        | none =>
          simp only [WalkItem.found, if_neg passed, Option.map_none, Option.toList_none,
            List.nil_append] at once fresh finds ⊢
          exact ih quiet once fresh finds
        | some info =>
          simp only [WalkItem.found, if_neg passed, Option.map_some, Option.toList_some,
            List.singleton_append, List.map_cons, List.nodup_cons, List.forall_mem_cons]
            at once fresh finds ⊢
          have next := quiet.index now fresh.1 finds.1
          have unseen : ∀ found ∈ walkedFiles rest, found.1 ∉ rel :: s.seenFiles := by
            intro found member again
            rcases List.mem_cons.mp again with same | old
            · exact once.1 (same ▸ List.mem_map_of_mem member)
            · exact fresh.2 found member old
          obtain ⟨still, seen, ends⟩ := ih next once.2 unseen finds.2
          refine ⟨still, fun f met => seen f ?_, ends⟩
          rcases met with old | now
          · exact Or.inl (List.mem_cons_of_mem _ old)
          · rcases List.mem_cons.mp now with rfl | later
            · exact Or.inl List.mem_cons_self
            · exact Or.inr later

theorem deleteMissing_none {now scanStart : Int} {s : ScanState} {rows : List FileMetadata}
    (spared : ∀ m ∈ rows, scanStart ≤ m.updatedAt ∨ m.filepath ∈ s.seenFiles) :
    rows.foldl (deleteMissing now scanStart) s = s := by
  induction rows with
  | nil => rfl
  | cons m rest ih =>
    obtain ⟨first, later⟩ := List.forall_mem_cons.mp spared
    have skip : scanStart ≤ m.updatedAt ∨ m.filepath ∈ s.seenFiles ∨ m.isDeleted = true :=
      first.imp_right Or.inl
    rw [List.foldl_cons, deleteMissing, if_pos skip]
    exact ih later

theorem quiet_scan {sc : SyncCoordinator} {scanStart : Int} (now : Int) {repoID : String}
    {items : List WalkItem} (idle : nothingNew sc.db scanStart repoID items = true) :
    ∃ s, Quiet repoID sc s ∧ (scanAndIndexLocalFiles sc scanStart now repoID items).sc = s.sc ∧
      (scanAndIndexLocalFiles sc scanStart now repoID items).out = s.out := by
  obtain ⟨once, finds, met⟩ := of_decide_eq_true idle
  have start : Quiet repoID sc ⟨sc, [], []⟩ := ⟨rfl, rfl, rfl, fun _ _ => Or.inl rfl⟩
  obtain ⟨quiet, seen, ends⟩ := start.walk now once (fun _ _ => List.not_mem_nil) finds
  unfold scanAndIndexLocalFiles
  generalize walkDir now repoID ⟨sc, [], []⟩ items = walked at quiet seen ends
  obtain ⟨s, done⟩ := walked
  refine ⟨s, quiet, ?_⟩
  cases done with
  | false => exact ⟨rfl, rfl⟩
  | true =>
    have spared : ∀ m ∈ s.sc.db.listByRepository repoID false,
        scanStart ≤ m.updatedAt ∨ m.filepath ∈ s.seenFiles := by
      intro m listed
      obtain ⟨live, repo⟩ := DB.mem_listByRepository.mp listed
      rcases quiet.rows m.repositoryID m.filepath with same | ⟨-, there, -⟩
      · obtain ⟨row, alive⟩ := DB.mem_live.mp live
        have old := DB.mem_listByRepository.mpr ⟨DB.mem_live.mpr ⟨same ▸ row, alive⟩, repo⟩
        exact (met ends.symm m old).imp_right (fun found => seen _ (Or.inr found))
      · exact Or.inr there
    simp only [deleteMissing_none spared, and_self]

theorem accounts_scan {sc : SyncCoordinator} (stored : sc.ownCount ≤ sc.db.count sc.localPeerID)
    {scanStart : Int} (now : Int) {repoID : String} {items : List WalkItem}
    (idle : nothingNew sc.db scanStart repoID items = true) :
    Accounts sc (scanAndIndexLocalFiles sc scanStart now repoID items).sc
      (scanAndIndexLocalFiles sc scanStart now repoID items).out := by
  obtain ⟨s, quiet, final, out⟩ := quiet_scan now idle
  rw [final, out, quiet.silent]
  have own : s.sc.ownCount = sc.ownCount := by
    rw [SyncCoordinator.ownCount, quiet.clock, quiet.named, SyncCoordinator.ownCount]
  refine ⟨Nat.zero_le _, own.ge, ?_⟩
  rw [own]
  apply (DB.le_count_iff _ _ _).mpr
  refine ((DB.le_count_iff _ _ _).mp stored).imp_right ?_
  rintro ⟨r, f, m, row, le⟩
  rcases quiet.rows r f with same | ⟨-, -, m', modTime, at_, before, after⟩
  · exact ⟨r, f, m, same.trans row, le⟩
  · cases Option.some.inj (row.symm.trans before)
    exact ⟨r, f, _, after, le⟩

/-! Whole runs. -/

def Machine.outputs (rt : Runtime) (s : Machine) : MachineEvent → List Output
  | .host event => s.host.outputs rt event
  | .restart => []
  | .scan repoID scanStart now items =>
    (scanAndIndexLocalFiles s.host.sc scanStart now repoID items).out

structure Chronicle where
  machine : Machine
  /-- History: the largest own count that was sent in an update. -/
  sent : Nat

namespace Chronicle

def sc (c : Chronicle) : SyncCoordinator := c.machine.host.sc

def next (rt : Runtime) (c : Chronicle) (event : MachineEvent) : Option Chronicle :=
  (c.machine.next rt event).map
    (⟨·, max c.sent (countSent c.sc.localPeerID (c.machine.outputs rt event))⟩)

structure Initial (c : Chronicle) : Prop where
  machine : c.machine.Initial
  ids : ∀ k repo, c.sc.db.repositories.lookup k = some repo → repo.id = k
  workers : ∀ r ∈ c.sc.workers, r ∈ c.sc.db.repositories
  clock : c.sc.vectorClock = loadVectorClocks c.sc.db
  silent : c.sent = 0

/-- The event neither counts a change without storing the clock nor drops the only
clock that has the own count; the count does not wrap, and no peer claims more
changes than there were. -/
def keepsCount (c : Chronicle) : MachineEvent → Bool
  | .host (.fileChanged ..) => c.sc.ownCount + 1 < 2 ^ 64
  | .host (.message _ peerID (.fileMetadataUpdate repoID u) _) =>
    u.vectorClock.all (fun remote =>
      ((decodeClock remote).lookup c.sc.localPeerID).getD 0 ≤ c.sc.ownCount) ∧
    ((decision c.sc peerID repoID u).action = .acceptRemote → spares c.sc repoID u.path)
  | .host (.message _ _ (.fileResponse payload) env) =>
    (c.sc.pendingDownloads.lookup (pendingKey (clean payload.path) payload.hash)).all
      (fun details => payload.contentBase64 ≠ "" ∨ finalFailure env payload details →
        spares c.sc details.repoID (clean payload.path))
  | .host (.resolve repoID path resolution _ _) => resolution = "remote" → spares c.sc repoID path
  | .scan repoID scanStart _ items => nothingNew c.sc.db scanStart repoID items
  | _ => true

structure Balanced (c : Chronicle) : Prop where
  ids : ∀ k repo, c.sc.db.repositories.lookup k = some repo → repo.id = k
  workers : ∀ r ∈ c.sc.workers, r ∈ c.sc.db.repositories
  sent : c.sent ≤ c.sc.ownCount
  stored : c.sc.ownCount ≤ c.sc.db.count c.sc.localPeerID

variable {rt : Runtime} {c c' : Chronicle}

theorem accounts_message (balanced : c.Balanced) (now : Int) {peerID : String} {msg : P2PMessage}
    {env : Env} (kept : c.keepsCount (.host (.message now peerID msg env)) = true) :
    Accounts c.sc (handleP2PMessage rt c.sc now env peerID msg).sc
      (handleP2PMessage rt c.sc now env peerID msg).out := by
  cases msg with
  | fileMetadataUpdate repoID u =>
    obtain ⟨honest, spared⟩ := of_decide_eq_true kept
    refine accounts_update balanced.stored rt now env.missing (fun remote clock => ?_) spared
    rw [clock, Option.all_some] at honest
    exact of_decide_eq_true honest
  | fileRequest payload => exact accounts_request balanced.stored env peerID payload
  | fileResponse payload =>
    refine accounts_response balanced.stored rt now env peerID (fun details found touches => ?_)
    simp only [keepsCount, found, Option.all_some, decide_eq_true_eq] at kept
    exact kept touches

theorem accounts_rest (balanced : c.Balanced) {sc' : SyncCoordinator} {out : List Output}
    (rest : ∃ queue pending connections, sc' = { c.sc with
      queue := queue, pendingDownloads := pending, connections := connections })
    (carries : Carries c.sc.vectorClock out) : Accounts c.sc sc' out := by
  obtain ⟨queue, pending, connections, rfl⟩ := rest
  exact accounts_same balanced.stored rfl rfl carries (Or.inl rfl)

theorem execute_carries (vc : VectorClock) (sc : SyncCoordinator) (sent : Bool) (task : SyncTask) :
    Carries vc (executeSyncTask sc sent task).2 := by
  rcases executeSyncTask_cases sc sent task with same | ⟨pending, -, back⟩ | asked
  · rw [same]
    exact carries_nil vc
  · rw [back]
    exact carries_nil vc
  · rw [asked]
    rintro r u (sent | ⟨q, sent⟩) <;> cases List.mem_singleton.mp sent

theorem accounts_host (balanced : c.Balanced) {event : HostEvent} {after : Host}
    (moved : c.machine.host.next rt event = some after) (kept : c.keepsCount (.host event) = true) :
    Accounts c.sc after.sc (c.machine.host.outputs rt event) := by
  cases event with
  | fileChanged now repoID payload content =>
    simp only [Host.next] at moved
    split at moved
    · cases moved
      rw [Host.performAll_sc]
      exact accounts_local balanced.stored now payload balanced.workers (of_decide_eq_true kept)
    · cases moved
  | message now peerID msg env =>
    cases moved
    rw [Host.performAll_sc]
    exact accounts_message balanced now kept
  | queueRound =>
    obtain ⟨queue, popped⟩ := queueRound_touches c.sc
    rw [Host.next_queueRound moved]
    exact accounts_rest balanced ⟨queue, _, _, popped⟩ (carries_nil _)
  | execute i sent =>
    obtain ⟨task, at_, rfl⟩ := Option.map_eq_some_iff.mp moved
    obtain ⟨queue, pending, executed⟩ := executeSyncTask_touches c.sc sent task
    rw [Host.performAll_sc]
    simp only [Host.outputs, at_, Option.elim_some]
    exact accounts_rest balanced ⟨queue, pending, _, executed⟩ (execute_carries _ _ sent task)
  | retry i now =>
    obtain ⟨task, -, rfl⟩ := Option.map_eq_some_iff.mp moved
    exact accounts_rest balanced ⟨_, _, _, rfl⟩ (carries_nil _)
  | resolve repoID path resolution peerID removed =>
    cases moved
    rw [Host.performAll_sc]
    exact accounts_resolution balanced.stored peerID removed (of_decide_eq_true kept)
  | daemon i env =>
    obtain ⟨x, -, rfl⟩ := Option.map_eq_some_iff.mp moved
    rw [(Host.applyEffect_frame _ _).1]
    exact accounts_rest balanced ⟨_, _, _, rfl⟩ (carries_nil _)
  | connect peerID =>
    cases moved
    rw [Host.performAll_sc]
    exact accounts_rest balanced ⟨_, _, _, rfl⟩ (announce_carries _ peerID)
  | disconnect peerID =>
    cases moved
    exact accounts_rest balanced ⟨_, _, _, rfl⟩ (carries_nil _)

theorem Balanced.accounts (balanced : c.Balanced) {out : List Output}
    (setup : SameSetup c'.sc c.sc) (accounts : Accounts c.sc c'.sc out)
    (sent : c'.sent = max c.sent (countSent c.sc.localPeerID out)) : c'.Balanced where
  ids := by
    rw [setup.2.2]
    exact balanced.ids
  workers := by
    rw [setup.2.1, setup.2.2]
    exact balanced.workers
  sent := by
    rw [sent]
    exact max_le (balanced.sent.trans accounts.grows) accounts.sent
  stored := by
    rw [setup.1]
    exact accounts.stored

theorem Balanced.restart (balanced : c.Balanced) (sc : c'.sc = c.sc.start)
    (sent : c'.sent = c.sent) : c'.Balanced := by
  have own : c'.sc.ownCount = c.sc.db.count c.sc.localPeerID := by
    rw [sc]
    rfl
  refine ⟨?_, ?_, ?_, ?_⟩
  · rw [sc]
    exact balanced.ids
  · rw [sc]
    intro r active
    obtain ⟨repo, member, rfl⟩ := List.mem_map.mp active
    obtain ⟨⟨k, repo'⟩, entry, rfl⟩ := List.mem_map.mp (List.mem_filter.mp member).1
    have found := AList.mem_lookup_iff.mpr entry
    rw [balanced.ids k repo' found]
    exact AList.lookup_isSome.mp (by rw [show AList.lookup k _ = some repo' from found]; rfl)
  · rw [sent, own]
    exact balanced.sent.trans balanced.stored
  · rw [own, sc]
    exact le_rfl

theorem balanced_next (balanced : c.Balanced) {event : MachineEvent}
    (moved : c.next rt event = some c') (kept : c.keepsCount event = true) : c'.Balanced := by
  obtain ⟨after, step, rfl⟩ := Option.map_eq_some_iff.mp moved
  cases event with
  | host event =>
    obtain ⟨host, inner, rfl⟩ := Option.map_eq_some_iff.mp step
    exact balanced.accounts (Host.next_setup inner) (accounts_host balanced inner kept) rfl
  | restart =>
    cases step
    exact balanced.restart rfl (max_eq_left (Nat.zero_le _))
  | scan repoID scanStart now items =>
    simp only [Machine.next] at step
    split at step
    · cases step
      refine balanced.accounts ?_ ?_ rfl <;> simp only [sc, Machine.advance] <;>
        rw [Host.performAll_sc]
      · exact scan_setup c.sc scanStart now repoID items
      · exact accounts_scan balanced.stored now kept
    · cases step

theorem balanced_reach (reached : Reach Initial
      (Guarded (Runs (next rt)) (fun c event => c.keepsCount event = true)) c) : c.Balanced := by
  apply reach_invariant Balanced _ _ reached
  · rintro c ⟨-, ids, workers, clock, silent⟩
    refine ⟨ids, workers, by rw [silent]; exact Nat.zero_le _, ?_⟩
    rw [SyncCoordinator.ownCount, clock]
    exact le_rfl
  · rintro c event c' before ⟨moved, kept⟩
    exact balanced_next before moved kept

end Chronicle

/-- A crash at any point of a run that keeps the count gives back an own component that
is not below any that was sent. -/
theorem restart_keeps_count {rt : Runtime} {c : Chronicle} (reached : Reach Chronicle.Initial
      (Guarded (Runs (Chronicle.next rt))
        (fun c event => c.keepsCount event = true)) c) :
    c.sent ≤ c.sc.start.vectorClock.get c.sc.localPeerID := by
  have balanced := Chronicle.balanced_reach reached
  exact balanced.sent.trans balanced.stored

def quietPeer : Chronicle := ⟨⟨Host.started "b" "r" "/r" ["a"], []⟩, 0⟩

theorem quietPeer_initial : quietPeer.Initial where
  machine := ⟨Host.started_initial "b" "r" "/r" ["a"], rfl⟩
  ids := by
    intro k repo found
    have entry := AList.mem_lookup_iff.mp found
    cases List.mem_singleton.mp entry
    rfl
  workers := by decide
  clock := rfl
  silent := rfl

def countedRun : List MachineEvent :=
  [.host (.fileChanged 1 "r" ⟨.add, "f", "#h", 1, 5, 420⟩ (some [104])), .restart,
    .host (.fileChanged 2 "r" ⟨.modify, "f", "#k", 1, 6, 420⟩ (some [107])),
    .scan "r" 3 4 [.entry "." true none, .entry "f" false (some ⟨1, 6, 420, some "#k"⟩)]]

theorem restart_keeps_count_countedRun : ∃ c : Chronicle,
    c.sent = 2 ∧ c.sent ≤ c.sc.start.vectorClock.get c.sc.localPeerID := by
  obtain ⟨c, reached, two⟩ := reach_of_replay (Chronicle.next .plain)
    (fun c event => c.keepsCount event = true) (.start quietPeer_initial) countedRun
    (fun c => c.sent = 2) (by decide +kernel)
  exact ⟨c, two, restart_keeps_count reached⟩

def overwrittenRun : List MachineEvent :=
  [.host (.fileChanged 1 "r" ⟨.add, "f", "#h", 1, 5, 420⟩ (some [104])),
    .host (.message 2 "a" (.fileMetadataUpdate "r" ⟨"f", "#k", 1, 2, 6, false, 420, none⟩) Env.fine)]

/-- After the crash the next change gets the number that was already sent. -/
theorem restart_rewinds_count : ∃ c : Chronicle,
    Reach Chronicle.Initial (Guarded (Runs (Chronicle.next .plain))
      (fun _ _ => True)) c ∧
    c.sent = 1 ∧ c.sc.start.vectorClock.get c.sc.localPeerID = 0 ∧
    ((c.next .plain .restart).bind (·.next .plain
      (.host (.fileChanged 9 "r" ⟨.add, "g", "#n", 1, 7, 420⟩ (some [110]))))).any
        (fun after => after.sc.ownCount = 1) = true :=
  reach_of_replay (Chronicle.next .plain) (fun _ _ => True) (.start quietPeer_initial)
    overwrittenRun (fun c => c.sent = 1 ∧ c.sc.start.vectorClock.get c.sc.localPeerID = 0 ∧
      ((c.next .plain .restart).bind (·.next .plain
        (.host (.fileChanged 9 "r" ⟨.add, "g", "#n", 1, 7, 420⟩ (some [110]))))).any
          (fun after => after.sc.ownCount = 1) = true) (by decide +kernel)

end P2PSync
