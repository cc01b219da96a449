import P2PSync.Coordinator

/-! The scan of a repository's directory when its worker starts, and the
announcement of whole repositories to a peer. -/
namespace P2PSync

structure FileInfo where
  size : Int
  modTime : Int
  mode : Nat
  /-- None is an error while hashing. -/
  sha256 : Option String

/-- One call of the walk's function; the path is relative to the root. -/
inductive WalkItem where
  | failed
  | entry (rel : String) (isDir : Bool) (info : Option FileInfo)

def hidden (rel : String) : Bool :=
  rel ≠ "." ∧ (Posix.parts rel.toList).any (fun part => part.head? = some '.')

def scannedMeta (repoID rel hash : String) (info : FileInfo) (version : Int) : FileMetadata where
  repositoryID := repoID
  filepath := rel
  hash := hash
  size := info.size
  version := version
  localLastModified := info.modTime
  isDeleted := false
  updatedAt := 0
  mode := info.mode
  vectorClock := none

/-- The version is sent as the signed number it is. -/
def broadcastLocalMetadataUpdate (sc : SyncCoordinator) (repoID filepath : String)
    (m : FileMetadata) : Output :=
  .broadcast (.fileMetadataUpdate repoID
    ⟨filepath, m.hash, m.size, m.version, m.localLastModified, m.isDeleted, m.mode,
      some sc.vectorClock.clocks⟩)

def recordScanned (sc : SyncCoordinator) (now : Int) (m : FileMetadata) (announce : Bool) :
    SyncCoordinator × List Output :=
  let sc := tickClocks sc
  match sc.db.save now m with
  | none => (sc, [])
  | some db =>
    let sc := { sc with db := db }
    (sc, if announce then [broadcastLocalMetadataUpdate sc m.repositoryID m.filepath m] else [])

def indexFile (sc : SyncCoordinator) (now : Int) (repoID rel : String) (info : FileInfo) :
    SyncCoordinator × List Output :=
  match sc.db.get repoID rel with
  | none =>
    match info.sha256 with
    | none => (sc, [])
    | some hash => recordScanned sc now (scannedMeta repoID rel hash info 1) (0 < info.size)
  | some m =>
    if m.size = info.size ∧ m.localLastModified = info.modTime ∧ m.mode = info.mode ∧
        m.isDeleted = false then (sc, [])
    else
      match info.sha256 with
      | none => (sc, [])
      | some hash =>
        if m.hash = hash ∧ m.size = info.size ∧ m.mode = info.mode ∧ m.isDeleted = false then
          ({ sc with
            db := (sc.db.save now { m with localLastModified := info.modTime }).getD sc.db }, [])
        else
          recordScanned sc now
            (scannedMeta repoID rel hash info (Binary64.wrapInt64 (m.version + 1))) (0 < info.size)

structure ScanState where
  sc : SyncCoordinator
  seenFiles : List String
  out : List Output

def visit (now : Int) (repoID : String) (s : ScanState) (rel : String) (isDir : Bool)
    (info : Option FileInfo) : ScanState :=
  if hidden rel ∨ isDir ∨ hasSuffix rel ".tmp" then s
  else
    match info with
    | none => s
    | some info =>
      let (sc, out) := indexFile s.sc now repoID rel info
      ⟨sc, rel :: s.seenFiles, s.out ++ out⟩

def walkDir (now : Int) (repoID : String) (s : ScanState) : List WalkItem → ScanState × Bool
  | [] => (s, true)
  | .failed :: _ => (s, false)
  | .entry rel isDir info :: rest => walkDir now repoID (visit now repoID s rel isDir info) rest

/-- The row of a file that disappeared: a tombstone that keeps the old hash,
size and time. -/
def offlineDeleted (m : FileMetadata) : FileMetadata :=
  { m with version := Binary64.wrapInt64 (m.version + 1), isDeleted := true }

def deleteMissing (now scanStart : Int) (s : ScanState) (m : FileMetadata) : ScanState :=
  if scanStart ≤ m.updatedAt ∨ m.filepath ∈ s.seenFiles ∨ m.isDeleted then s
  else
    let (sc, out) := recordScanned s.sc now (offlineDeleted m) true
    ⟨sc, s.seenFiles, s.out ++ out⟩

def scanAndIndexLocalFiles (sc : SyncCoordinator) (scanStart now : Int) (repoID : String)
    (items : List WalkItem) : Result :=
  match walkDir now repoID ⟨sc, [], []⟩ items with
  | (s, false) => ⟨s.sc, s.out, some "directory walk failed"⟩
  | (s, true) =>
    let s := (s.sc.db.listByRepository repoID false).foldl (deleteMissing now scanStart) s
    ⟨s.sc, s.out, none⟩

/-! What the scan does for a file that the walk does not meet. -/

def scannedUpdate (sc : SyncCoordinator) (m : FileMetadata) : Update :=
  ⟨m.filepath, m.hash, m.size, m.version, m.localLastModified, m.isDeleted, m.mode,
    some sc.vectorClock.clocks⟩

theorem recordScanned_row {sc : SyncCoordinator} {now : Int} {m : FileMetadata} {announce : Bool}
    {repoID file : String} (other : (repoID, file) ≠ (m.repositoryID, m.filepath)) :
    (recordScanned sc now m announce).1.db.get repoID file = sc.db.get repoID file := by
  have ticked : (tickClocks sc).db = sc.db := rfl
  simp only [recordScanned, ticked]
  split
  · rw [ticked]
  · rename_i db saved
    exact DB.get_save_other saved other

theorem recordScanned_out {sc : SyncCoordinator} {now : Int} {m : FileMetadata} {announce : Bool}
    {o : Output} (sent : o ∈ (recordScanned sc now m announce).2) :
    ∃ sc', o = .broadcast (.fileMetadataUpdate m.repositoryID (scannedUpdate sc' m)) := by
  simp only [recordScanned] at sent
  split at sent
  · cases sent
  · simp only at sent
    split at sent
    · exact ⟨_, List.mem_singleton.mp sent⟩
    · cases sent

section

variable (sc : SyncCoordinator) (scanStart now : Int) (repoID : String)

theorem indexFile_other {rel file : String} (info : FileInfo) (other : rel ≠ file) :
    (indexFile sc now repoID rel info).1.db.get repoID file = sc.db.get repoID file ∧
      ∀ o ∈ (indexFile sc now repoID rel info).2, ∃ u,
        o = .broadcast (.fileMetadataUpdate repoID u) ∧ u.path ≠ file := by
  have elsewhere : (repoID, file) ≠ (repoID, rel) := fun same => other (Prod.mk.inj same).2.symm
  have recorded : ∀ hash version announce,
      (recordScanned sc now (scannedMeta repoID rel hash info version) announce).1.db.get repoID file =
        sc.db.get repoID file ∧
      ∀ o ∈ (recordScanned sc now (scannedMeta repoID rel hash info version) announce).2, ∃ u,
        o = .broadcast (.fileMetadataUpdate repoID u) ∧ u.path ≠ file := by
    intro hash version announce
    refine ⟨recordScanned_row elsewhere, fun o sent => ?_⟩
    obtain ⟨sc', rfl⟩ := recordScanned_out sent
    exact ⟨_, rfl, other⟩
  have silent : ∀ o ∈ ([] : List Output), ∃ u,
      o = .broadcast (.fileMetadataUpdate repoID u) ∧ u.path ≠ file :=
    fun o none => absurd none (by simp)
  unfold indexFile
  split
  · split
    · exact ⟨rfl, silent⟩
    · exact recorded _ _ _
  · rename_i m row
    split
    · exact ⟨rfl, silent⟩
    · split
      · exact ⟨rfl, silent⟩
      · split
        · refine ⟨?_, silent⟩
          obtain ⟨repo, path⟩ := DB.get_fields row
          cases saved : sc.db.save now { m with localLastModified := info.modTime } with
          | none => rfl
          | some db => exact DB.get_save_other saved (by simpa [repo, path] using other.symm)
        · exact recorded _ _ _

structure Unmet (repoID file : String) (sc : SyncCoordinator) (s : ScanState) : Prop where
  row : s.sc.db.get repoID file = sc.db.get repoID file
  out : ∀ o ∈ s.out, ∃ u, o = .broadcast (.fileMetadataUpdate repoID u) ∧ u.path ≠ file

theorem Unmet.visit {repoID file : String} {sc : SyncCoordinator} {s : ScanState}
    (unmet : Unmet repoID file sc s) (now : Int) {rel : String} (other : rel ≠ file) (isDir : Bool)
    (info : Option FileInfo) : Unmet repoID file sc (visit now repoID s rel isDir info) := by
  unfold P2PSync.visit
  split
  · exact unmet
  · cases info with
    | none => exact unmet
    | some info =>
      obtain ⟨row, out⟩ := indexFile_other s.sc now repoID info other
      exact ⟨row.trans unmet.row, fun o sent => (List.mem_append.mp sent).elim (unmet.out o) (out o)⟩

theorem unmet_walk {file : String} {items : List WalkItem}
    (missing : ∀ isDir info, .entry file isDir info ∉ items) :
    Unmet repoID file sc (walkDir now repoID ⟨sc, [], []⟩ items).1 := by
  have start : Unmet repoID file sc ⟨sc, [], []⟩ := ⟨rfl, fun o none => absurd none (by simp)⟩
  generalize (⟨sc, [], []⟩ : ScanState) = s at start
  induction items generalizing s with
  | nil => exact start
  | cons item rest ih =>
    have later : ∀ isDir info, .entry file isDir info ∉ rest :=
      fun isDir info member => missing isDir info (List.mem_cons_of_mem _ member)
    cases item with
    | failed => exact start
    | entry rel isDir info =>
      have other : rel ≠ file := by
        rintro rfl
        exact missing isDir info List.mem_cons_self
      exact ih later _ (start.visit now other isDir info)

theorem deleteMissing_out {now scanStart : Int} {rows : List FileMetadata} {s : ScanState}
    {o : Output} (sent : o ∈ (rows.foldl (deleteMissing now scanStart) s).out) :
    o ∈ s.out ∨ ∃ m ∈ rows, ∃ sc',
      o = .broadcast (.fileMetadataUpdate m.repositoryID (scannedUpdate sc' (offlineDeleted m))) := by
  induction rows generalizing s with
  | nil => exact Or.inl sent
  | cons m rest ih =>
    rcases ih sent with old | ⟨m', member, new⟩
    · unfold deleteMissing at old
      split at old
      · exact Or.inl old
      · rcases List.mem_append.mp old with old | new
        · exact Or.inl old
        · obtain ⟨sc', rfl⟩ := recordScanned_out new
          exact Or.inr ⟨m, List.mem_cons_self, sc', rfl⟩
    · exact Or.inr ⟨m', List.mem_cons_of_mem _ member, new⟩

theorem scan_unmet {sc : SyncCoordinator} {scanStart now : Int} {repoID file r : String}
    {items : List WalkItem} (missing : ∀ isDir info, .entry file isDir info ∉ items) {u : Update}
    (sent : .broadcast (.fileMetadataUpdate r u) ∈
      (scanAndIndexLocalFiles sc scanStart now repoID items).out) (here : u.path = file) :
    ∃ m, sc.db.get repoID file = some m ∧ u.hash = m.hash := by
  have unmet := unmet_walk sc now repoID missing
  unfold scanAndIndexLocalFiles at sent
  generalize walkDir now repoID ⟨sc, [], []⟩ items = walked at sent unmet
  obtain ⟨s, done⟩ := walked
  have before : ∀ o ∈ s.out, o ≠ .broadcast (.fileMetadataUpdate r u) := by
    rintro o member rfl
    obtain ⟨u', eq, elsewhere⟩ := unmet.out _ member
    cases eq
    exact elsewhere here
  cases done with
  | false => exact absurd rfl (before _ sent)
  | true =>
    rcases deleteMissing_out sent with old | ⟨m, listed, sc', eq⟩
    · exact absurd rfl (before _ old)
    · cases eq
      obtain ⟨live, repo⟩ := DB.mem_listByRepository.mp listed
      have row := (DB.mem_live.mp live).1
      rw [repo, show m.filepath = file from here, unmet.row] at row
      exact ⟨m, row, rfl⟩

/-! What the scan does to a live row. -/

def WalkItem.met : WalkItem → Option String
  | .failed => none
  | .entry rel isDir info =>
    if hidden rel ∨ isDir ∨ hasSuffix rel ".tmp" then none else info.map (fun _ => rel)

def WalkItem.completes : WalkItem → Bool
  | .failed => false
  | .entry .. => true

theorem recordScanned_frame (m : FileMetadata) (announce : Bool) :
    SameSetup (recordScanned sc now m announce).1 sc := by
  have ticked : (tickClocks sc).db = sc.db := rfl
  simp only [recordScanned, ticked]
  split
  · exact ⟨rfl, rfl, rfl⟩
  · rename_i db saved
    exact ⟨rfl, rfl, (DB.save_some saved).2.1⟩

theorem recordScanned_self {sc : SyncCoordinator} {m : FileMetadata}
    (known : m.repositoryID ∈ sc.db.repositories) (now : Int) (announce : Bool) :
    (recordScanned sc now m announce).1.db.get m.repositoryID m.filepath =
      some { m with updatedAt := now } := by
  have ticked : (tickClocks sc).db = sc.db := rfl
  obtain ⟨db, saved⟩ := DB.save_known known now
  simp only [recordScanned, ticked, saved]
  exact DB.get_save_self saved

theorem visit_eq (s : ScanState) (rel : String) (isDir : Bool) (info : Option FileInfo) :
    (WalkItem.entry rel isDir info).met = none ∧ visit now repoID s rel isDir info = s ∨
    ∃ found, (WalkItem.entry rel isDir info).met = some rel ∧
      visit now repoID s rel isDir info =
        ⟨(indexFile s.sc now repoID rel found).1, rel :: s.seenFiles,
          s.out ++ (indexFile s.sc now repoID rel found).2⟩ := by
  by_cases passed : hidden rel ∨ isDir ∨ hasSuffix rel ".tmp"
  · exact Or.inl ⟨if_pos passed, if_pos passed⟩
  · simp only [visit, WalkItem.met, if_neg passed]
    cases info with
    | none => exact Or.inl ⟨rfl, rfl⟩
    | some found => exact Or.inr ⟨found, rfl, rfl⟩

def LiveRow (repoID file : String) (sc : SyncCoordinator) : Prop :=
  ∃ m, sc.db.get repoID file = some m ∧ m.isDeleted = false

theorem indexFile_frame (rel : String) (info : FileInfo) :
    SameSetup (indexFile sc now repoID rel info).1 sc := by
  unfold indexFile
  split
  · split
    · exact ⟨rfl, rfl, rfl⟩
    · exact recordScanned_frame _ _ _ _
  · rename_i m row
    split
    · exact ⟨rfl, rfl, rfl⟩
    · split
      · exact ⟨rfl, rfl, rfl⟩
      · split
        · cases saved : sc.db.save now { m with localLastModified := info.modTime } with
          | none => exact ⟨rfl, rfl, rfl⟩
          | some db => exact ⟨rfl, rfl, (DB.save_some saved).2.1⟩
        · exact recordScanned_frame _ _ _ _

theorem scan_keeps {R : ScanState → ScanState → Prop} (refl : ∀ s, R s s)
    (trans : ∀ {s t u}, R s t → R t u → R s u) (scanStart now : Int) (repoID : String)
    (index : ∀ s rel info, R s ⟨(indexFile s.sc now repoID rel info).1, rel :: s.seenFiles,
      s.out ++ (indexFile s.sc now repoID rel info).2⟩)
    (delete : ∀ s m, R s ⟨(recordScanned s.sc now (offlineDeleted m) true).1, s.seenFiles,
      s.out ++ (recordScanned s.sc now (offlineDeleted m) true).2⟩)
    (sc : SyncCoordinator) (items : List WalkItem) :
    ∃ s, R ⟨sc, [], []⟩ s ∧ (scanAndIndexLocalFiles sc scanStart now repoID items).sc = s.sc ∧
      (scanAndIndexLocalFiles sc scanStart now repoID items).out = s.out := by
  have walk : ∀ s, R s (walkDir now repoID s items).1 := by
    induction items with
    | nil => exact refl
    | cons item rest ih =>
      intro s
      cases item with
      | failed => exact refl s
      | entry rel isDir info =>
        refine trans ?_ (ih (visit now repoID s rel isDir info))
        rcases visit_eq now repoID s rel isDir info with ⟨-, same⟩ | ⟨found, -, indexed⟩
        · rw [same]
          exact refl s
        · rw [indexed]
          exact index s rel found
  have deletions : ∀ (rows : List FileMetadata) (s : ScanState),
      R s (rows.foldl (deleteMissing now scanStart) s) := by
    intro rows
    induction rows with
    | nil => exact refl
    | cons m rest ih =>
      intro s
      refine trans ?_ (ih (deleteMissing now scanStart s m))
      unfold deleteMissing
      split
      · exact refl s
      · exact delete s m
  have walked := walk ⟨sc, [], []⟩
  unfold scanAndIndexLocalFiles
  generalize walkDir now repoID ⟨sc, [], []⟩ items = result at walked
  obtain ⟨s, done⟩ := result
  cases done with
  | false => exact ⟨s, walked, rfl, rfl⟩
  | true => exact ⟨_, trans walked (deletions _ s), rfl, rfl⟩

theorem scan_setup (items : List WalkItem) :
    SameSetup (scanAndIndexLocalFiles sc scanStart now repoID items).sc sc := by
  obtain ⟨s, same, final, -⟩ := scan_keeps (R := fun s t => SameSetup t.sc s.sc)
    (fun _ => ⟨rfl, rfl, rfl⟩) (fun first second => second.trans first) scanStart now repoID
    (fun s rel info => indexFile_frame s.sc now repoID rel info)
    (fun s m => recordScanned_frame s.sc now (offlineDeleted m) true) sc items
  rw [final]
  exact same

end

section

variable {repoID file : String} {sc : SyncCoordinator} {items : List WalkItem} {s : ScanState}

theorem indexFile_live (now : Int) {repoID file : String} (rel : String) (info : FileInfo)
    (live : LiveRow repoID file sc) : LiveRow repoID file (indexFile sc now repoID rel info).1 := by
  by_cases here : rel = file
  · subst here
    obtain ⟨m, row, alive⟩ := live
    obtain ⟨repo, path⟩ := DB.get_fields row
    have known := DB.repository_of_get row
    unfold indexFile
    rw [row]
    simp only
    split
    · exact ⟨m, row, alive⟩
    · split
      · exact ⟨m, row, alive⟩
      · rename_i hash _
        split
        · obtain ⟨db, saved⟩ := DB.save_known (m := { m with localLastModified := info.modTime })
            (repo ▸ known) now
          have self := DB.get_save_self saved
          simp only [repo, path] at self
          rw [saved, Option.getD_some]
          exact ⟨_, self, alive⟩
        · exact ⟨_, recordScanned_self (m := scannedMeta repoID rel hash info
            (Binary64.wrapInt64 (m.version + 1))) known now _, rfl⟩
  · obtain ⟨m, row, alive⟩ := live
    exact ⟨m, (indexFile_other sc now repoID info here).1.trans row, alive⟩

structure Walked (repoID file : String) (sc : SyncCoordinator) (items : List WalkItem)
    (s : ScanState) : Prop where
  repositories : s.sc.db.repositories = sc.db.repositories
  live : LiveRow repoID file s.sc
  unseen : file ∉ items.filterMap WalkItem.met → s.sc.db.get repoID file = sc.db.get repoID file
  seen : file ∈ s.seenFiles ↔ file ∈ items.filterMap WalkItem.met

theorem Walked.visit (walked : Walked repoID file sc items s) (now : Int) (rel : String)
    (isDir : Bool) (info : Option FileInfo) :
    Walked repoID file sc (items ++ [.entry rel isDir info])
      (P2PSync.visit now repoID s rel isDir info) := by
  rcases visit_eq now repoID s rel isDir info with ⟨passed, same⟩ | ⟨found, met, indexed⟩
  · rw [same]
    have list : (items ++ [WalkItem.entry rel isDir info]).filterMap WalkItem.met =
        items.filterMap WalkItem.met := by simp [passed]
    exact ⟨walked.repositories, walked.live, list ▸ walked.unseen, list ▸ walked.seen⟩
  · rw [indexed]
    have list : (items ++ [WalkItem.entry rel isDir info]).filterMap WalkItem.met =
        items.filterMap WalkItem.met ++ [rel] := by simp [met]
    constructor
    · exact (indexFile_frame s.sc now repoID rel found).2.2.trans walked.repositories
    · exact indexFile_live now rel found walked.live
    · intro absent
      rw [list, List.mem_append, List.mem_singleton, not_or] at absent
      exact ((indexFile_other s.sc now repoID found (Ne.symm absent.2)).1).trans
        (walked.unseen absent.1)
    · rw [list, List.mem_append, List.mem_singleton, List.mem_cons, walked.seen, or_comm]

theorem walked_walk (live : LiveRow repoID file sc) (now : Int) {items : List WalkItem}
    (whole : items.all WalkItem.completes = true) :
    (walkDir now repoID ⟨sc, [], []⟩ items).2 = true ∧
      Walked repoID file sc items (walkDir now repoID ⟨sc, [], []⟩ items).1 := by
  have run : ∀ (done rest : List WalkItem) (s : ScanState), rest.all WalkItem.completes = true →
      Walked repoID file sc done s → (walkDir now repoID s rest).2 = true ∧
        Walked repoID file sc (done ++ rest) (walkDir now repoID s rest).1 := by
    intro done rest
    induction rest generalizing done with
    | nil =>
      intro s _ walked
      rw [List.append_nil]
      exact ⟨rfl, walked⟩
    | cons item rest ih =>
      intro s whole walked
      rw [List.all_cons, Bool.and_eq_true] at whole
      cases item with
      | failed => simp [WalkItem.completes] at whole
      | entry rel isDir info =>
        have next := ih (done ++ [.entry rel isDir info]) _ whole.2
          (walked.visit now rel isDir info)
        rwa [List.append_assoc, List.singleton_append] at next
  have start : Walked repoID file sc [] ⟨sc, [], []⟩ := ⟨rfl, live, fun _ => rfl, by simp⟩
  exact run [] items _ whole start

theorem failed_walk (live : LiveRow repoID file sc) (now : Int) {items : List WalkItem}
    (broken : items.all WalkItem.completes = false) :
    (walkDir now repoID ⟨sc, [], []⟩ items).2 = false ∧
      LiveRow repoID file (walkDir now repoID ⟨sc, [], []⟩ items).1.sc := by
  have start : LiveRow repoID file (⟨sc, [], []⟩ : ScanState).sc := live
  generalize (⟨sc, [], []⟩ : ScanState) = s at start
  induction items generalizing s with
  | nil => simp at broken
  | cons item rest ih =>
    cases item with
    | failed => exact ⟨rfl, start⟩
    | entry rel isDir info =>
      have later : rest.all WalkItem.completes = false := by
        simpa [WalkItem.completes] using broken
      have next : LiveRow repoID file (visit now repoID s rel isDir info).sc := by
        rcases visit_eq now repoID s rel isDir info with ⟨-, same⟩ | ⟨found, -, indexed⟩
        · rwa [same]
        · rw [indexed]
          exact indexFile_live now rel found start
      exact ih later _ next

theorem deleteMissing_spared {now scanStart : Int} {s : ScanState} {rows : List FileMetadata}
    (spared : file ∈ s.seenFiles ∨
      ∀ m ∈ rows, (m.repositoryID, m.filepath) = (repoID, file) → scanStart ≤ m.updatedAt) :
    (rows.foldl (deleteMissing now scanStart) s).sc.db.get repoID file =
      s.sc.db.get repoID file := by
  induction rows generalizing s with
  | nil => rfl
  | cons m rest ih =>
    have seen : (deleteMissing now scanStart s m).seenFiles = s.seenFiles := by
      unfold deleteMissing
      split <;> rfl
    have row : (deleteMissing now scanStart s m).sc.db.get repoID file = s.sc.db.get repoID file := by
      by_cases here : (m.repositoryID, m.filepath) = (repoID, file)
      · have skip : scanStart ≤ m.updatedAt ∨ m.filepath ∈ s.seenFiles ∨ m.isDeleted = true := by
          rcases spared with met | late
          · exact Or.inr (Or.inl ((Prod.mk.inj here).2 ▸ met))
          · exact Or.inl (late m List.mem_cons_self here)
        rw [deleteMissing, if_pos skip]
      · unfold deleteMissing
        split
        · rfl
        · exact recordScanned_row (Ne.symm here)
    rw [List.foldl_cons, ih, row]
    rw [seen]
    exact spared.imp id (fun late m' mem => late m' (List.mem_cons_of_mem _ mem))

def DeadRow (repoID file : String) (sc : SyncCoordinator) : Prop :=
  ∃ m, sc.db.get repoID file = some m ∧ m.isDeleted = true

theorem deleteMissing_dead {now scanStart : Int} {s : ScanState} {rows : List FileMetadata}
    (dead : DeadRow repoID file s.sc) :
    DeadRow repoID file (rows.foldl (deleteMissing now scanStart) s).sc := by
  induction rows generalizing s with
  | nil => exact dead
  | cons m rest ih =>
    apply ih
    unfold deleteMissing
    split
    · exact dead
    · obtain ⟨t, row, deleted⟩ := dead
      by_cases here : (repoID, file) = (m.repositoryID, m.filepath)
      · obtain ⟨rfl, rfl⟩ := Prod.mk.inj here
        exact ⟨_, recordScanned_self (m := offlineDeleted m) (DB.repository_of_get row) now true, rfl⟩
      · exact ⟨t, (recordScanned_row (m := offlineDeleted m) here).trans row, deleted⟩

theorem deleteMissing_deleted {now scanStart : Int} {s : ScanState} {rows : List FileMetadata}
    {m : FileMetadata} (listed : m ∈ rows) (here : (m.repositoryID, m.filepath) = (repoID, file))
    (known : repoID ∈ s.sc.db.repositories) (old : m.updatedAt < scanStart)
    (unseen : file ∉ s.seenFiles) (alive : m.isDeleted = false) :
    DeadRow repoID file (rows.foldl (deleteMissing now scanStart) s).sc := by
  induction rows generalizing s with
  | nil => cases listed
  | cons r rest ih =>
    rw [List.foldl_cons]
    rcases List.mem_cons.mp listed with rfl | later
    · apply deleteMissing_dead
      obtain ⟨rfl, rfl⟩ := Prod.mk.inj here
      rw [deleteMissing, if_neg (by simp [not_le.mpr old, unseen, alive])]
      exact ⟨_, recordScanned_self (m := offlineDeleted m) known now true, rfl⟩
    · apply ih later
      · unfold deleteMissing
        split
        · exact known
        · exact (recordScanned_frame s.sc now (offlineDeleted r) true).2.2 ▸ known
      · unfold deleteMissing
        split <;> exact unseen

theorem LiveRow.not_dead (live : LiveRow repoID file sc) : ¬ DeadRow repoID file sc := by
  rintro ⟨b, rowB, dead⟩
  obtain ⟨a, rowA, alive⟩ := live
  cases Option.some.inj (rowA.symm.trans rowB)
  rw [alive] at dead
  cases dead

theorem Walked.spared (walked : Walked repoID file sc items s) (now : Int) {scanStart : Int}
    {m : FileMetadata} (row : sc.db.get repoID file = some m)
    (spared : scanStart ≤ m.updatedAt ∨ file ∈ items.filterMap WalkItem.met) :
    LiveRow repoID file ((s.sc.db.listByRepository repoID false).foldl
      (deleteMissing now scanStart) s).sc := by
  obtain ⟨a, rowA, alive⟩ := walked.live
  refine ⟨a, (deleteMissing_spared ?_).trans rowA, alive⟩
  by_cases met : file ∈ items.filterMap WalkItem.met
  · exact Or.inl (walked.seen.mpr met)
  · right
    intro m' listed here
    have stored := (DB.mem_live.mp (DB.mem_listByRepository.mp listed).1).1
    obtain ⟨repo, path⟩ := Prod.mk.inj here
    rw [repo, path, walked.unseen met, row] at stored
    cases stored
    exact spared.resolve_right met

/-- A live row is a tombstone after the scan exactly if the walk came to its end
without meeting the file and the row is older than the scan. -/
theorem scan_dead_iff (scanStart now : Int) {repoID file : String} (items : List WalkItem)
    {m : FileMetadata} (row : sc.db.get repoID file = some m) (alive : m.isDeleted = false) :
    DeadRow repoID file (scanAndIndexLocalFiles sc scanStart now repoID items).sc ↔
      items.all WalkItem.completes = true ∧ m.updatedAt < scanStart ∧
        file ∉ items.filterMap WalkItem.met := by
  have live : LiveRow repoID file sc := ⟨m, row, alive⟩
  unfold scanAndIndexLocalFiles
  cases whole : items.all WalkItem.completes with
  | false =>
    obtain ⟨ended, kept⟩ := failed_walk live now whole
    generalize walkDir now repoID ⟨sc, [], []⟩ items = result at ended kept
    obtain ⟨s, done⟩ := result
    cases ended
    simp only [Bool.false_eq_true, false_and, iff_false]
    exact kept.not_dead
  | true =>
    obtain ⟨ended, walked⟩ := walked_walk live now whole
    generalize walkDir now repoID ⟨sc, [], []⟩ items = result at ended walked
    obtain ⟨s, done⟩ := result
    cases ended
    simp only [true_and]
    constructor
    · intro dead
      by_contra spared
      rw [not_and_or, not_lt, not_not] at spared
      exact (walked.spared now row spared).not_dead dead
    · rintro ⟨old, unmet⟩
      obtain ⟨repo, path⟩ := DB.get_fields row
      have stored : s.sc.db.get repoID file = some m := (walked.unseen unmet).trans row
      have listed : m ∈ s.sc.db.listByRepository repoID false := by
        apply DB.mem_listByRepository.mpr
        refine ⟨DB.mem_live.mpr ⟨?_, alive⟩, repo⟩
        rw [repo, path]
        exact stored
      exact deleteMissing_deleted listed (by rw [repo, path]) (DB.repository_of_get stored) old
        (fun seen => unmet (walked.seen.mp seen)) alive

end

/-! Announcing what is stored. -/

def announceRepository (sc : SyncCoordinator) (peerID repoID : String) : List Output :=
  (sc.db.listByRepository repoID false).map (fun m =>
    sendMetadataUpdateToPeer sc peerID repoID m.filepath m.size (Binary64.wrapUint64 m.version)
      m.hash m.localLastModified m.isDeleted m.mode)

/-- Repositories are listed by creation time. -/
def syncAllRepositoriesWithPeer (sc : SyncCoordinator) (peerID : String) : List Output :=
  (((sc.db.repositories.entries.map Sigma.snd).insertionSort
    (fun a b => a.createdAt ≤ b.createdAt)).filter (fun repo => repo.status = .active)).flatMap
      (fun repo => announceRepository sc peerID repo.id)

end P2PSync
