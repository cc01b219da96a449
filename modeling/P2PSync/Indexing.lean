import P2PSync.Scan
import P2PSync.Library.Forest

/-! The scan over a directory tree: what the walk finds in the tree, and what the
table says about the tree afterwards. -/
namespace P2PSync

/-! The tree and its walk. -/

abbrev EntryName := { part : List Char // Posix.Name part }

def relPath (p : List EntryName) : String := String.ofList (['/'].intercalate (p.map Subtype.val))

theorem normal_relPath (p : List EntryName) :
    Posix.normal (relPath p).toList = p.map Subtype.val := by
  have proper : ∀ q ∈ p.map Subtype.val, Posix.Name q := by
    intro q member
    obtain ⟨name, -, rfl⟩ := List.mem_map.mp member
    exact name.2
  rw [relPath, String.toList_ofList]
  exact Posix.normal_intercalate (k := 0) proper

theorem relPath_injective : Function.Injective relPath := by
  intro p q same
  have places := congrArg (fun path : String => Posix.normal path.toList) same
  simp only [normal_relPath] at places
  exact Subtype.val_injective.list_map places

def dotted (name : EntryName) : Bool := name.1.head? = some '.'

theorem hidden_relPath (p : List EntryName) : hidden (relPath p) = p.any dotted := by
  cases p with
  | nil => rfl
  | cons name rest =>
    have pieces : Posix.parts (relPath (name :: rest)).toList = (name :: rest).map Subtype.val := by
      rw [relPath, String.toList_ofList]
      refine List.splitOn_intercalate '/' ?_ (by simp)
      intro q member
      obtain ⟨name, -, rfl⟩ := List.mem_map.mp member
      exact name.2.2.2.2
    have proper : relPath (name :: rest) ≠ "." := by
      intro root
      rw [root] at pieces
      exact name.2.2.1 (List.cons.inj pieces).1.symm
    unfold hidden
    rw [pieces, List.any_map]
    simp only [ne_eq, proper, not_false_eq_true, true_and, Bool.decide_eq_true]
    rfl

/-- A regular file; its modification time is in milliseconds. -/
structure DiskFile where
  content : Content
  modTime : Int
  mode : Nat

structure Directory where
  entries : Forest EntryName DiskFile
  distinct : entries.Distinct

def DiskFile.info (rt : Runtime) (f : DiskFile) : FileInfo :=
  ⟨f.content.length, f.modTime, f.mode, some (rt.sha256 f.content)⟩

def walkItem (rt : Runtime) : Forest.Visit EntryName DiskFile → WalkItem
  | .file p f => .entry (relPath p) false (some (f.info rt))
  | .dir p => .entry (relPath p) true none

/-- The calls of the walk's function. The root comes first; a hidden directory is
answered with SkipDir. -/
def Directory.walkItems (rt : Runtime) (d : Directory) : List WalkItem :=
  .entry "." true none :: (d.entries.walk (fun p => hidden (relPath p)) []).map (walkItem rt)

/-! The files that belong to the repository. -/

def Indexable (p : List EntryName) : Bool := !p.any dotted && !hasSuffix (relPath p) ".tmp"

def Directory.tracked (d : Directory) : List (String × DiskFile) :=
  (d.entries.files.filter (fun e => Indexable e.1)).map (fun e => (relPath e.1, e.2))

def Directory.file (d : Directory) (path : String) : Option DiskFile := d.tracked.lookup path

theorem Directory.tracked_nodup (d : Directory) : (d.tracked.map Prod.fst).Nodup := by
  have paths : d.tracked.map Prod.fst =
      ((d.entries.files.filter (fun e => Indexable e.1)).map Prod.fst).map relPath := by
    simp [Directory.tracked, Function.comp_def]
  rw [paths]
  have sub := List.Sublist.map Prod.fst
    (List.filter_sublist (l := d.entries.files) (p := fun e => Indexable e.1))
  exact ((Forest.files_nodup d.distinct).sublist sub).map relPath_injective

def WalkItem.found : WalkItem → Option (String × FileInfo)
  | .failed => none
  | .entry rel isDir info =>
    if hidden rel ∨ isDir ∨ hasSuffix rel ".tmp" then none else info.map (fun i => (rel, i))

/-- Nothing below a hidden directory is tracked, so that entering no hidden
directory loses nothing. -/
theorem found_walkItems (rt : Runtime) (d : Directory) : (d.walkItems rt).filterMap WalkItem.found =
      d.tracked.map (fun e => (e.1, e.2.info rt)) := by
  have pruned : ∀ p q, hidden (relPath p) = true → Indexable (p ++ q) = false := by
    intro p q skipped
    rw [hidden_relPath] at skipped
    simp [Indexable, List.any_append, skipped]
  have kept := Forest.walk_kept pruned d.entries []
  have item : ∀ v, (walkItem rt v).found =
      (v.kept Indexable).map (fun e => (relPath e.1, e.2.info rt)) := by
    intro v
    cases v with
    | dir p => simp [walkItem, WalkItem.found, Forest.Visit.kept]
    | file p f =>
      simp only [walkItem, WalkItem.found, Forest.Visit.kept, Indexable, hidden_relPath]
      by_cases dots : p.any dotted = true
      · simp [dots]
      · by_cases temporary : hasSuffix (relPath p) ".tmp" = true
        · simp [temporary]
        · simp [dots, temporary]
  have root : (WalkItem.entry "." true none).found = none := by simp [WalkItem.found]
  rw [Directory.walkItems, List.filterMap_cons, root, List.filterMap_map]
  simp only [Function.comp_def, item]
  rw [← List.map_filterMap, kept]
  simp [Directory.tracked, Function.comp_def]

theorem completes_walkItems (rt : Runtime) (d : Directory) :
    (d.walkItems rt).all WalkItem.completes = true := by
  rw [List.all_eq_true]
  intro item member
  rcases List.mem_cons.mp member with rfl | later
  · rfl
  · obtain ⟨v, -, rfl⟩ := List.mem_map.mp later
    cases v <;> rfl

/-! What one scan makes of a row. -/

def indexedRow (now : Int) (repoID rel hash : String) (info : FileInfo) :
    Option FileMetadata → FileMetadata
  | none => { scannedMeta repoID rel hash info 1 with updatedAt := now }
  | some m =>
    if m.size = info.size ∧ m.localLastModified = info.modTime ∧ m.mode = info.mode ∧
        m.isDeleted = false then m
    else if m.hash = hash ∧ m.size = info.size ∧ m.mode = info.mode ∧ m.isDeleted = false then
      { m with localLastModified := info.modTime, updatedAt := now }
    else
      { scannedMeta repoID rel hash info (Binary64.wrapInt64 (m.version + 1)) with updatedAt := now }

theorem indexFile_self {sc : SyncCoordinator} {repoID : String}
    (known : repoID ∈ sc.db.repositories) (now : Int) (rel : String) {info : FileInfo}
    {hash : String} (hashed : info.sha256 = some hash) :
    (indexFile sc now repoID rel info).1.db.get repoID rel =
      some (indexedRow now repoID rel hash info (sc.db.get repoID rel)) := by
  unfold indexFile
  rw [hashed]
  cases row : sc.db.get repoID rel with
  | none => exact recordScanned_self (m := scannedMeta repoID rel hash info 1) known now _
  | some m =>
    obtain ⟨rfl, rfl⟩ := DB.get_fields row
    simp only [indexedRow]
    split
    · exact row
    · split
      · obtain ⟨db, saved⟩ := DB.save_known (m := { m with localLastModified := info.modTime })
          known now
        rw [saved, Option.getD_some]
        exact DB.get_save_self saved
      · exact recordScanned_self (m := scannedMeta m.repositoryID m.filepath hash info
          (Binary64.wrapInt64 (m.version + 1))) known now _

def ScanState.index (rt : Runtime) (now : Int) (repoID : String) (s : ScanState)
    (e : String × DiskFile) : ScanState :=
  ⟨(indexFile s.sc now repoID e.1 (e.2.info rt)).1, e.1 :: s.seenFiles,
    s.out ++ (indexFile s.sc now repoID e.1 (e.2.info rt)).2⟩

theorem walkDir_found {rt : Runtime} {now : Int} {repoID : String} {items : List WalkItem}
    {files : List (String × DiskFile)} (whole : items.all WalkItem.completes = true)
    (found : items.filterMap WalkItem.found = files.map (fun e => (e.1, e.2.info rt)))
    (s : ScanState) :
    walkDir now repoID s items = (files.foldl (ScanState.index rt now repoID) s, true) := by
  induction items generalizing files s with
  | nil =>
    cases files with
    | nil => rfl
    | cons => cases found
  | cons item rest ih =>
    rw [List.all_cons, Bool.and_eq_true] at whole
    cases item with
    | failed => cases whole.1
    | entry rel isDir info =>
      unfold walkDir visit
      by_cases passed : hidden rel ∨ isDir ∨ hasSuffix rel ".tmp"
      · rw [List.filterMap_cons, WalkItem.found, if_pos passed] at found
        rw [if_pos passed]
        exact ih whole.2 found s
      · rw [List.filterMap_cons, WalkItem.found, if_neg passed] at found
        rw [if_neg passed]
        cases info with
        | none => exact ih whole.2 found s
        | some info =>
          cases files with
          | nil => cases found
          | cons e files =>
            obtain ⟨first, later⟩ := List.cons.inj found
            obtain ⟨rfl, rfl⟩ := Prod.mk.inj first
            exact ih whole.2 later _

section Rows

theorem lookup_cons_ne {files : List (String × DiskFile)} {e : String × DiskFile} {path : String}
    (other : path ≠ e.1) : (e :: files).lookup path = files.lookup path := by
  rw [List.lookup_cons, beq_eq_false_iff_ne.mpr other]

variable {rt : Runtime} {now scanStart : Int} {repoID : String} {files : List (String × DiskFile)}

theorem indexAll_repositories (rt : Runtime) (now : Int) (repoID : String)
    (files : List (String × DiskFile)) (s : ScanState) :
    (files.foldl (ScanState.index rt now repoID) s).sc.db.repositories =
      s.sc.db.repositories := by
  induction files generalizing s with
  | nil => rfl
  | cons e files ih => exact (ih _).trans (indexFile_frame s.sc now repoID e.1 (e.2.info rt)).2.2

theorem indexAll_seen (rt : Runtime) (now : Int) (repoID : String)
    (files : List (String × DiskFile)) (s : ScanState) (path : String) :
    path ∈ (files.foldl (ScanState.index rt now repoID) s).seenFiles ↔
      path ∈ s.seenFiles ∨ (files.lookup path).isSome := by
  induction files generalizing s with
  | nil => simp
  | cons e files ih =>
    rw [List.foldl_cons, ih]
    by_cases here : path = e.1
    · simp [ScanState.index, here]
    · rw [lookup_cons_ne here]
      simp [ScanState.index, here]

/-- Each file is met once, so that its row is made from the row the scan began with. -/
theorem indexAll_row (rt : Runtime) (now : Int) (once : (files.map Prod.fst).Nodup)
    {s : ScanState} (known : repoID ∈ s.sc.db.repositories) (path : String) :
    (files.foldl (ScanState.index rt now repoID) s).sc.db.get repoID path =
      match files.lookup path with
      | none => s.sc.db.get repoID path
      | some f => some (indexedRow now repoID path (rt.sha256 f.content) (f.info rt)
          (s.sc.db.get repoID path)) := by
  induction files generalizing s with
  | nil => rfl
  | cons e files ih =>
    obtain ⟨fresh, once⟩ := List.nodup_cons.mp once
    have known' : repoID ∈ (s.index rt now repoID e).sc.db.repositories :=
      (indexFile_frame s.sc now repoID e.1 (e.2.info rt)).2.2 ▸ known
    rw [List.foldl_cons, ih once known']
    by_cases here : path = e.1
    · subst here
      have last : files.lookup e.1 = none := by
        apply List.lookup_eq_none_iff.mpr
        intro e' member
        apply bne_iff_ne.mpr
        intro same
        exact fresh (same ▸ List.mem_map_of_mem member)
      have first : (e :: files).lookup e.1 = some e.2 := by
        rw [List.lookup_cons, beq_self_eq_true]
      rw [last, first]
      exact indexFile_self known now e.1 rfl
    · have row : (s.index rt now repoID e).sc.db.get repoID path = s.sc.db.get repoID path :=
        (indexFile_other s.sc now repoID (e.2.info rt) (Ne.symm here)).1
      rw [lookup_cons_ne here, row]

theorem deleteMissing_tombstone {s : ScanState} {rows : List FileMetadata} {m : FileMetadata}
    {path : String} (only : ∀ r ∈ rows, (r.repositoryID, r.filepath) = (repoID, path) → r = m)
    (here : (m.repositoryID, m.filepath) = (repoID, path)) (known : repoID ∈ s.sc.db.repositories)
    (old : m.updatedAt < scanStart) (unseen : path ∉ s.seenFiles) (alive : m.isDeleted = false)
    (pending : m ∈ rows ∨
      s.sc.db.get repoID path = some { offlineDeleted m with updatedAt := now }) :
    (rows.foldl (deleteMissing now scanStart) s).sc.db.get repoID path =
      some { offlineDeleted m with updatedAt := now } := by
  induction rows generalizing s with
  | nil => exact pending.resolve_left (by simp)
  | cons r rest ih =>
    have same : (deleteMissing now scanStart s r).seenFiles = s.seenFiles ∧
        (deleteMissing now scanStart s r).sc.db.repositories = s.sc.db.repositories := by
      unfold deleteMissing
      split
      · exact ⟨rfl, rfl⟩
      · exact ⟨rfl, (recordScanned_frame s.sc now (offlineDeleted r) true).2.2⟩
    apply ih (fun r' later => only r' (List.mem_cons_of_mem _ later)) (same.2 ▸ known)
      (same.1 ▸ unseen)
    by_cases own : (r.repositoryID, r.filepath) = (repoID, path)
    · right
      cases only r List.mem_cons_self own
      obtain ⟨rfl, rfl⟩ := Prod.mk.inj own
      rw [deleteMissing, if_neg (by simp [not_le.mpr old, unseen, alive])]
      exact recordScanned_self (m := offlineDeleted m) known now true
    · have row : (deleteMissing now scanStart s r).sc.db.get repoID path =
          s.sc.db.get repoID path := by
        unfold deleteMissing
        split
        · rfl
        · exact recordScanned_row (Ne.symm own)
      rw [row]
      refine pending.imp_left ?_
      intro listed
      rcases List.mem_cons.mp listed with rfl | later
      · exact absurd here own
      · exact later

end Rows

def scannedRow (rt : Runtime) (d : Directory) (now : Int) (repoID path : String)
    (row : Option FileMetadata) : Option FileMetadata :=
  match d.file path with
  | some f => some (indexedRow now repoID path (rt.sha256 f.content) (f.info rt) row)
  | none => row.map (fun m =>
      if m.isDeleted then m else { offlineDeleted m with updatedAt := now })

section Scanned

variable {rt : Runtime} {d : Directory} {sc : SyncCoordinator} {scanStart now : Int}
  {repoID : String}

theorem scan_eq (sc : SyncCoordinator) (scanStart now : Int) :
    scanAndIndexLocalFiles sc scanStart now repoID (d.walkItems rt) =
      let s := d.tracked.foldl (ScanState.index rt now repoID) ⟨sc, [], []⟩
      let t := (s.sc.db.listByRepository repoID false).foldl (deleteMissing now scanStart) s
      ⟨t.sc, t.out, none⟩ := by
  rw [scanAndIndexLocalFiles, walkDir_found (completes_walkItems rt d) (found_walkItems rt d)]

theorem scan_tracked (known : repoID ∈ sc.db.repositories) {path : String} {f : DiskFile}
    (found : d.file path = some f) (scanStart now : Int) :
    (scanAndIndexLocalFiles sc scanStart now repoID (d.walkItems rt)).sc.db.get repoID path =
      some (indexedRow now repoID path (rt.sha256 f.content) (f.info rt)
        (sc.db.get repoID path)) := by
  rw [scan_eq]
  have walked := indexAll_row rt now d.tracked_nodup (s := ⟨sc, [], []⟩) known path
  have seen := indexAll_seen rt now repoID d.tracked ⟨sc, [], []⟩ path
  rw [← Directory.file, found] at walked seen
  exact (deleteMissing_spared (Or.inl (seen.mpr (by simp)))).trans walked

theorem scan_untracked (known : repoID ∈ sc.db.repositories) {path : String}
    (old : ∀ m, sc.db.get repoID path = some m → m.updatedAt < scanStart)
    (missing : d.file path = none) (now : Int) :
    (scanAndIndexLocalFiles sc scanStart now repoID (d.walkItems rt)).sc.db.get repoID path =
      (sc.db.get repoID path).map (fun m =>
        if m.isDeleted then m else { offlineDeleted m with updatedAt := now }) := by
  rw [scan_eq]
  have walked := indexAll_row rt now d.tracked_nodup (s := ⟨sc, [], []⟩) known path
  have seen := indexAll_seen rt now repoID d.tracked ⟨sc, [], []⟩ path
  have known' := indexAll_repositories rt now repoID d.tracked ⟨sc, [], []⟩ ▸ known
  rw [← Directory.file, missing] at walked seen
  generalize d.tracked.foldl (ScanState.index rt now repoID) ⟨sc, [], []⟩ = s at walked seen known'
  have unseen : path ∉ s.seenFiles := by
    intro met
    simpa using seen.mp met
  have stored : ∀ r ∈ s.sc.db.listByRepository repoID false,
      (r.repositoryID, r.filepath) = (repoID, path) →
        sc.db.get repoID path = some r ∧ r.isDeleted = false := by
    intro r listed here
    obtain ⟨rfl, rfl⟩ := Prod.mk.inj here
    obtain ⟨row, alive⟩ := DB.mem_live.mp (DB.mem_listByRepository.mp listed).1
    exact ⟨walked.symm.trans row, alive⟩
  -- a row that is spared is not in the list, or not at this path
  have spared : (∀ m, sc.db.get repoID path = some m → m.isDeleted = true) →
      ((s.sc.db.listByRepository repoID false).foldl (deleteMissing now scanStart) s).sc.db.get
        repoID path = sc.db.get repoID path := by
    intro dead
    refine (deleteMissing_spared (Or.inr ?_)).trans walked
    intro r listed here
    obtain ⟨row, alive⟩ := stored r listed here
    rw [dead r row] at alive
    cases alive
  cases row : sc.db.get repoID path with
  | none => exact (spared (by simp [row])).trans row
  | some m =>
    obtain ⟨repo, file⟩ := DB.get_fields row
    cases dead : m.isDeleted with
    | true =>
      refine (spared (by simp [row, dead])).trans ?_
      simp [row, dead]
    | false =>
      have listed : m ∈ s.sc.db.listByRepository repoID false := by
        refine DB.mem_listByRepository.mpr ⟨DB.mem_live.mpr ⟨?_, dead⟩, repo⟩
        rw [repo, file]
        exact walked.trans row
      refine (deleteMissing_tombstone ?_ (by rw [repo, file]) known' (old m row) unseen dead
        (Or.inl listed)).trans (by simp [dead])
      intro r member here
      exact (Option.some.inj (row.symm.trans (stored r member here).1)).symm

theorem scan_row (known : repoID ∈ sc.db.repositories)
    (old : ∀ path m, sc.db.get repoID path = some m → m.updatedAt < scanStart) (path : String) :
    (scanAndIndexLocalFiles sc scanStart now repoID (d.walkItems rt)).sc.db.get repoID path =
      scannedRow rt d now repoID path (sc.db.get repoID path) := by
  unfold scannedRow
  cases found : d.file path with
  | some f => exact scan_tracked known found scanStart now
  | none => exact scan_untracked known (old path) found now

def Right (rt : Runtime) (file : Option DiskFile) (m : FileMetadata) : Prop :=
  match file with
  | some f => m.hash = rt.sha256 f.content ∧ m.size = f.content.length ∧ m.mode = f.mode ∧
      m.isDeleted = false
  | none => m.isDeleted = true

instance (file : Option DiskFile) (m : FileMetadata) : Decidable (Right rt file m) :=
  match file with
  | some _ => inferInstanceAs (Decidable (_ ∧ _))
  | none => inferInstanceAs (Decidable (_ = true))

def HashesHold (rt : Runtime) (d : Directory) (db : DB) (repoID : String) : Prop :=
  ∀ path f m, d.file path = some f → db.get repoID path = some m → m.isDeleted = false →
    m.size = f.content.length → m.localLastModified = f.modTime → m.mode = f.mode →
    m.hash = rt.sha256 f.content

def Exact (f : DiskFile) (m : FileMetadata) : Prop :=
  m.size = f.content.length ∧ m.localLastModified = f.modTime ∧ m.mode = f.mode ∧
    m.isDeleted = false

theorem indexedRow_exact (rt : Runtime) (now : Int) (repoID path hash : String) (f : DiskFile)
    (row : Option FileMetadata) : Exact f (indexedRow now repoID path hash (f.info rt) row) := by
  cases row with
  | none => exact ⟨rfl, rfl, rfl, rfl⟩
  | some m =>
    simp only [indexedRow]
    split
    · rename_i same
      exact same
    · split
      · rename_i same
        exact ⟨same.2.1, rfl, same.2.2.1, same.2.2.2⟩
      · exact ⟨rfl, rfl, rfl, rfl⟩

section

variable {path : String} {f : DiskFile} {m : FileMetadata}

theorem indexedRow_hash (found : d.file path = some f) (holds : HashesHold rt d sc.db repoID)
    (now : Int) :
    (indexedRow now repoID path (rt.sha256 f.content) (f.info rt) (sc.db.get repoID path)).hash =
      rt.sha256 f.content := by
  cases row : sc.db.get repoID path with
  | none => rfl
  | some m =>
    simp only [indexedRow]
    split
    · rename_i same
      exact holds path f m found row same.2.2.2 same.1 same.2.1 same.2.2.1
    · split
      · rename_i same
        exact same.1
      · rfl

theorem scannedRow_version (holds : HashesHold rt d sc.db repoID)
    (row : sc.db.get repoID path = some m) (now : Int) :
    ∃ m', scannedRow rt d now repoID path (some m) = some m' ∧
      m'.version =
        if Right rt (d.file path) m then m.version else Binary64.wrapInt64 (m.version + 1) := by
  unfold scannedRow
  cases found : d.file path with
  | none =>
    refine ⟨_, rfl, ?_⟩
    cases dead : m.isDeleted <;> simp [Right, dead, offlineDeleted]
  | some f =>
    refine ⟨_, rfl, ?_⟩
    simp only [indexedRow]
    split
    · rename_i same
      have hash := holds path f m found row same.2.2.2 same.1 same.2.1 same.2.2.1
      have right : Right rt (some f) m := ⟨hash, same.1, same.2.2.1, same.2.2.2⟩
      rw [if_pos right]
    · split
      · rename_i same
        have right : Right rt (some f) m := same
        rw [if_pos right]
      · rename_i other
        have wrong : ¬ Right rt (some f) m := other
        rw [if_neg wrong]
        rfl

theorem scannedRow_exact (found : d.file path = some f) (rt : Runtime) (now : Int)
    (row : Option FileMetadata) :
    ∃ m, scannedRow rt d now repoID path row = some m ∧ Exact f m := by
  rw [scannedRow, found]
  exact ⟨_, rfl, indexedRow_exact rt now repoID path _ f row⟩

theorem scannedRow_live {row : Option FileMetadata} {m' : FileMetadata}
    (after : scannedRow rt d now repoID path row = some m') (alive : m'.isDeleted = false) :
    (d.file path).isSome := by
  cases found : d.file path with
  | some f => rfl
  | none =>
    rw [scannedRow, found] at after
    obtain ⟨m, -, rfl⟩ := Option.map_eq_some_iff.mp after
    cases dead : m.isDeleted <;> simp [dead, offlineDeleted] at alive

theorem scannedRow_new {m' : FileMetadata}
    (after : scannedRow rt d now repoID path none = some m') : m'.version = 1 := by
  unfold scannedRow at after
  cases found : d.file path with
  | none =>
    rw [found] at after
    cases after
  | some f =>
    rw [found] at after
    cases after
    rfl

/-! A scan of a tree that the table already describes. -/

theorem indexFile_idle (row : sc.db.get repoID path = some m) (same : Exact f m) (now : Int) :
    indexFile sc now repoID path (f.info rt) = (sc, []) := by
  unfold indexFile
  rw [row]
  exact if_pos same

theorem indexAll_idle (rt : Runtime) (now : Int) {files : List (String × DiskFile)} {s : ScanState}
    (right : ∀ e ∈ files, ∃ m, s.sc.db.get repoID e.1 = some m ∧ Exact e.2 m) :
    (files.foldl (ScanState.index rt now repoID) s).sc = s.sc ∧
      (files.foldl (ScanState.index rt now repoID) s).out = s.out := by
  induction files generalizing s with
  | nil => exact ⟨rfl, rfl⟩
  | cons e files ih =>
    obtain ⟨m, row, same⟩ := right e List.mem_cons_self
    have idle : s.index rt now repoID e = ⟨s.sc, e.1 :: s.seenFiles, s.out⟩ := by
      rw [ScanState.index, indexFile_idle row same, List.append_nil]
    rw [List.foldl_cons, idle]
    exact ih (fun e' later => right e' (List.mem_cons_of_mem _ later))

theorem deleteMissing_idle {s : ScanState} {rows : List FileMetadata}
    (seen : ∀ m ∈ rows, m.filepath ∈ s.seenFiles) :
    rows.foldl (deleteMissing now scanStart) s = s := by
  induction rows with
  | nil => rfl
  | cons m rest ih =>
    have spared : deleteMissing now scanStart s m = s :=
      if_pos (Or.inr (Or.inl (seen m List.mem_cons_self)))
    rw [List.foldl_cons, spared]
    exact ih (fun r later => seen r (List.mem_cons_of_mem _ later))

theorem Directory.file_of_mem (member : (path, f) ∈ d.tracked) : d.file path = some f := by
  have once := d.tracked_nodup
  unfold Directory.file
  generalize d.tracked = files at member once
  induction files with
  | nil => cases member
  | cons e files ih =>
    obtain ⟨fresh, once⟩ := List.nodup_cons.mp once
    rcases List.mem_cons.mp member with rfl | later
    · rw [List.lookup_cons, beq_self_eq_true]
    · have other : path ≠ e.1 := by
        rintro rfl
        exact fresh (List.mem_map.mpr ⟨_, later, rfl⟩)
      rw [lookup_cons_ne other]
      exact ih later once

theorem Directory.mem_of_file (found : d.file path = some f) : (path, f) ∈ d.tracked := by
  obtain ⟨before, after, split, -⟩ := List.lookup_eq_some_iff.mp found
  rw [split]
  exact List.mem_append_right _ List.mem_cons_self

end

theorem rescan {sc : SyncCoordinator}
    (right : ∀ path f, d.file path = some f → ∃ m, sc.db.get repoID path = some m ∧ Exact f m)
    (live : ∀ path, LiveRow repoID path sc → (d.file path).isSome) (scanStart now : Int) :
    scanAndIndexLocalFiles sc scanStart now repoID (d.walkItems rt) = ⟨sc, [], none⟩ := by
  rw [scan_eq]
  have walked := indexAll_idle rt now (s := ⟨sc, [], []⟩)
    (fun e member => right e.1 e.2 (Directory.file_of_mem member))
  have seen := indexAll_seen rt now repoID d.tracked ⟨sc, [], []⟩
  generalize d.tracked.foldl (ScanState.index rt now repoID) ⟨sc, [], []⟩ = s at walked seen
  obtain ⟨same, silent⟩ := walked
  simp only
  rw [deleteMissing_idle, same, silent]
  intro m listed
  obtain ⟨alive, repo⟩ := DB.mem_listByRepository.mp listed
  obtain ⟨row, alive⟩ := DB.mem_live.mp alive
  rw [same, repo] at row
  exact (seen m.filepath).mpr (Or.inr (live m.filepath ⟨m, row, alive⟩))

/-- The live rows after a scan are those of the tracked files, with what the disk has;
a version stays where the row was right, is 1 in a new row and is incremented in every
other row. -/
theorem scan_matches_disk (rt : Runtime) (d : Directory) (sc : SyncCoordinator)
    (scanStart now : Int) (repoID : String) (known : repoID ∈ sc.db.repositories)
    (old : ∀ path m, sc.db.get repoID path = some m → m.updatedAt < scanStart)
    (holds : HashesHold rt d sc.db repoID) :
    let after := (scanAndIndexLocalFiles sc scanStart now repoID (d.walkItems rt)).sc
    (∀ path, LiveRow repoID path after ↔ path ∈ d.tracked.map Prod.fst) ∧
    (∀ path f, (path, f) ∈ d.tracked → ∃ m, after.db.get repoID path = some m ∧
      m.size = f.content.length ∧ m.mode = f.mode ∧ m.localLastModified = f.modTime ∧
      m.hash = rt.sha256 f.content) ∧
    (∀ path m, sc.db.get repoID path = some m → ∃ m', after.db.get repoID path = some m' ∧
      m'.version =
        if Right rt (d.file path) m then m.version else Binary64.wrapInt64 (m.version + 1)) ∧
    (∀ path m', sc.db.get repoID path = none → after.db.get repoID path = some m' →
      m'.version = 1) ∧
    ∀ scanStart' now', scanAndIndexLocalFiles after scanStart' now' repoID (d.walkItems rt) =
      ⟨after, [], none⟩ := by
  intro after
  have rows : ∀ path, after.db.get repoID path =
      scannedRow rt d now repoID path (sc.db.get repoID path) := scan_row known old
  have right : ∀ path f, d.file path = some f →
      ∃ m, after.db.get repoID path = some m ∧ Exact f m := by
    intro path f found
    rw [rows]
    exact scannedRow_exact found rt now _
  have live : ∀ path, LiveRow repoID path after → (d.file path).isSome := by
    rintro path ⟨m', row, alive⟩
    rw [rows] at row
    exact scannedRow_live row alive
  refine ⟨?_, ?_, ?_, ?_, fun scanStart' now' => rescan right live scanStart' now'⟩
  · intro path
    constructor
    · intro row
      obtain ⟨f, found⟩ := Option.isSome_iff_exists.mp (live path row)
      exact List.mem_map_of_mem (f := Prod.fst) (Directory.mem_of_file found)
    · intro member
      obtain ⟨⟨_, f⟩, tracked, rfl⟩ := List.mem_map.mp member
      obtain ⟨m, row, same⟩ := right _ f (Directory.file_of_mem tracked)
      exact ⟨m, row, same.2.2.2⟩
  · intro path f member
    have found := Directory.file_of_mem member
    rw [rows, scannedRow, found]
    have same := indexedRow_exact rt now repoID path (rt.sha256 f.content) f
      (sc.db.get repoID path)
    exact ⟨_, rfl, same.1, same.2.2.1, same.2.1, indexedRow_hash found holds now⟩
  · intro path m row
    rw [rows, row]
    exact scannedRow_version holds row now
  · intro path m' absent row
    rw [rows, absent] at row
    exact scannedRow_new row

end Scanned

def smallTree : Directory where
  entries := .dir ⟨['.', 'g'], by unfold Posix.Name; decide⟩
    (.file ⟨['c'], by unfold Posix.Name; decide⟩ ⟨[1], 5, 420⟩ .nil)
    (.file ⟨['a'], by unfold Posix.Name; decide⟩ ⟨[2, 3], 7, 420⟩ .nil)
  distinct := ⟨by simp [Forest.names], ⟨by simp [Forest.names], trivial⟩,
    by simp [Forest.names], trivial⟩

def stale : SyncCoordinator :=
  { addRepository (.new "p") 0 "r" "/r" with
    db := ((addRepository (.new "p") 0 "r" "/r").db.save 0
      ⟨"r", "b", "#b", 1, 3, 5, false, 0, 420, none⟩).getD .empty }

theorem stale_row {path : String} {m : FileMetadata} (row : stale.db.get "r" path = some m) :
    path = "b" ∧ m.updatedAt = 0 := by
  by_cases here : path = "b"
  · subst here
    cases row
    exact ⟨rfl, rfl⟩
  · have saved : (addRepository (.new "p") 0 "r" "/r").db.save 0
        ⟨"r", "b", "#b", 1, 3, 5, false, 0, 420, none⟩ = some stale.db := rfl
    rw [DB.get_save_other saved (by simpa using here)] at row
    cases row

theorem scan_matches_disk_small :
    let after := (scanAndIndexLocalFiles stale 1 2 "r" (smallTree.walkItems .plain)).sc
    LiveRow "r" "a" after ∧ ¬ LiveRow "r" ".g/c" after ∧
    (∃ m, after.db.get "r" "b" = some m ∧ m.version = 4) ∧
    scanAndIndexLocalFiles after 3 4 "r" (smallTree.walkItems .plain) = ⟨after, [], none⟩ := by
  have holds : HashesHold .plain smallTree stale.db "r" := by
    intro path f m found row
    rw [(stale_row row).1] at found
    cases found
  have whole := scan_matches_disk .plain smallTree stale 1 2 "r" (by decide)
    (fun path m row => by rw [(stale_row row).2]; decide) holds
  refine ⟨(whole.1 "a").mpr (by decide), ?_, ?_, whole.2.2.2.2 3 4⟩
  · rw [whole.1]
    decide
  · exact whole.2.2.1 "b" _ rfl

end P2PSync
