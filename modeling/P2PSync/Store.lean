import Mathlib.Data.List.Sort
import P2PSync.Versioning

/-! The local SQLite database: the repositories and file_metadata tables. The keys of
the schema are part of the type, so a row without its repository cannot be built. The
sync_history table is write-only and is left out. -/
namespace P2PSync

inductive RepoStatus where
  | active | paused | error
  deriving DecidableEq, Repr

structure Repository where
  id : String
  localPath : String
  status : RepoStatus
  createdAt : Int
  updatedAt : Int
  deriving DecidableEq, Repr

structure FileMetadata where
  repositoryID : String
  filepath : String
  hash : String
  size : Int
  version : Int
  localLastModified : Int
  isDeleted : Bool
  updatedAt : Int
  mode : Nat
  /-- The JSON text of the source; none is the empty text. -/
  vectorClock : Option VectorClock
  deriving DecidableEq

def rowVersion : Option FileMetadata → Int
  | some m => m.version
  | none => 0

def rowHash : Option FileMetadata → String
  | some m => m.hash
  | none => ""

structure DB where
  repositories : AList fun _ : String => Repository
  fileMetadata : AList fun _ : String × String => FileMetadata
  primaryKey : ∀ k m, fileMetadata.lookup k = some m → (m.repositoryID, m.filepath) = k
  foreignKey : ∀ k ∈ fileMetadata, k.1 ∈ repositories

namespace DB

def empty : DB where
  repositories := ∅
  fileMetadata := ∅
  primaryKey := fun _ _ h => absurd h (by simp)
  foreignKey := fun k h => absurd h (AList.notMem_empty k)

def get (db : DB) (repoID filepath : String) : Option FileMetadata :=
  db.fileMetadata.lookup (repoID, filepath)

def getRepository (db : DB) (id : String) : Option Repository := db.repositories.lookup id

/-- Upsert of a repository; the creation time of an existing record is kept. -/
def saveRepository (db : DB) (now : Int) (r : Repository) : DB where
  repositories := db.repositories.insert r.id { r with
    createdAt := match db.getRepository r.id with
      | some old => old.createdAt
      | none => if r.createdAt = 0 then now else r.createdAt
    updatedAt := now }
  fileMetadata := db.fileMetadata
  primaryKey := db.primaryKey
  foreignKey := fun k h => (AList.mem_insert _).mpr (Or.inr (db.foreignKey k h))

/-- Upsert of a row, stamped with the time of the call. None is the error of the
foreign key constraint. -/
def save (db : DB) (now : Int) (m : FileMetadata) : Option DB :=
  if known : m.repositoryID ∈ db.repositories then
    some {
      repositories := db.repositories
      fileMetadata := db.fileMetadata.insert (m.repositoryID, m.filepath) { m with updatedAt := now }
      primaryKey := by
        intro k r h
        by_cases same : k = (m.repositoryID, m.filepath)
        · subst same
          rw [AList.lookup_insert] at h
          cases h
          rfl
        · rw [AList.lookup_insert_ne same] at h
          exact db.primaryKey k r h
      foreignKey := by
        intro k h
        rcases (AList.mem_insert _).mp h with rfl | h
        · exact known
        · exact db.foreignKey k h }
  else none

/-- The callers ignore the error of a row that is not there. -/
def hardDelete (db : DB) (repoID filepath : String) : DB where
  repositories := db.repositories
  fileMetadata := db.fileMetadata.erase (repoID, filepath)
  primaryKey := by
    intro k m h
    by_cases same : k = (repoID, filepath)
    · subst same
      rw [AList.lookup_erase] at h
      cases h
    · rw [AList.lookup_erase_ne same] at h
      exact db.primaryKey k m h
  foreignKey := fun k h => db.foreignKey k (AList.mem_erase.mp h).2

/-- The rows go with their repository, by the cascade of the schema. None is the error
of an id that is not there. -/
def deleteRepository (db : DB) (id : String) : Option DB :=
  if id ∈ db.repositories then
    some {
      repositories := db.repositories.erase id
      fileMetadata := ⟨db.fileMetadata.entries.filter (fun row => row.1.1 ≠ id),
        db.fileMetadata.nodupKeys.sublist List.filter_sublist⟩
      primaryKey := by
        intro k m h
        have entry := (List.mem_filter.mp (AList.mem_lookup_iff.mp h)).1
        exact db.primaryKey k m (AList.mem_lookup_iff.mpr entry)
      foreignKey := by
        intro k h
        obtain ⟨m, entry⟩ := List.mem_keys.mp (AList.mem_keys.mp h)
        obtain ⟨entry, other⟩ := List.mem_filter.mp entry
        have stored := AList.lookup_isSome.mp (by rw [AList.mem_lookup_iff.mpr entry]; rfl)
        exact AList.mem_erase.mpr ⟨of_decide_eq_true other, db.foreignKey k stored⟩ }
  else none

/-- SQL leaves the choice among several matching rows open; this is the first. -/
def getByPathAndHash (db : DB) (filepath hash : String) : Option FileMetadata :=
  (db.fileMetadata.entries.map Sigma.snd).find?
    (fun m => m.filepath = filepath ∧ m.hash = hash ∧ m.isDeleted = false)

def listByRepository (db : DB) (repoID : String) (includeDeleted : Bool) : List FileMetadata :=
  ((db.fileMetadata.entries.map Sigma.snd).filter
    (fun m => m.repositoryID = repoID ∧ (includeDeleted ∨ m.isDeleted = false))).insertionSort
      (fun a b => a.filepath ≤ b.filepath)

section

variable {db db' : DB} {now : Int} {m : FileMetadata}

theorem save_known (known : m.repositoryID ∈ db.repositories) (now : Int) :
    ∃ db', db.save now m = some db' := by
  simp only [save, dif_pos known]
  exact ⟨_, rfl⟩

theorem save_unknown (unknown : m.repositoryID ∉ db.repositories) (now : Int) :
    db.save now m = none := by
  simp only [save, dif_neg unknown]

theorem save_some (h : db.save now m = some db') :
    m.repositoryID ∈ db.repositories ∧ db'.repositories = db.repositories ∧
      db'.fileMetadata =
        db.fileMetadata.insert (m.repositoryID, m.filepath) { m with updatedAt := now } := by
  unfold save at h
  split at h
  · rename_i known
    cases h
    exact ⟨known, rfl, rfl⟩
  · cases h

theorem get_save_self (h : db.save now m = some db') :
    db'.get m.repositoryID m.filepath = some { m with updatedAt := now } := by
  rw [get, (save_some h).2.2, AList.lookup_insert]

theorem get_save_other (h : db.save now m = some db') {repoID filepath : String}
    (other : (repoID, filepath) ≠ (m.repositoryID, m.filepath)) :
    db'.get repoID filepath = db.get repoID filepath := by
  rw [get, (save_some h).2.2, AList.lookup_insert_ne other, get]

end

@[simp] theorem get_hardDelete_self (db : DB) (repoID filepath : String) :
    (db.hardDelete repoID filepath).get repoID filepath = none :=
  AList.lookup_erase _ _

theorem get_hardDelete_other (db : DB) {repoID filepath repoID' filepath' : String}
    (other : (repoID', filepath') ≠ (repoID, filepath)) :
    (db.hardDelete repoID filepath).get repoID' filepath' = db.get repoID' filepath' :=
  AList.lookup_erase_ne other

section

variable {db : DB} {repoID filepath : String} {m : FileMetadata}

theorem get_fields (h : db.get repoID filepath = some m) :
    m.repositoryID = repoID ∧ m.filepath = filepath :=
  Prod.mk.inj (db.primaryKey _ _ h)

theorem repository_of_get (h : db.get repoID filepath = some m) : repoID ∈ db.repositories :=
  db.foreignKey (repoID, filepath) (AList.lookup_isSome.mp (by rw [← get, h]; rfl))

def live (db : DB) : List FileMetadata :=
  (db.fileMetadata.entries.map Sigma.snd).filter (fun m => !m.isDeleted)

theorem mem_rows :
    m ∈ db.fileMetadata.entries.map Sigma.snd ↔ db.get m.repositoryID m.filepath = some m := by
  rw [List.mem_map]
  constructor
  · rintro ⟨⟨k, r⟩, entry, rfl⟩
    have stored : db.fileMetadata.lookup k = some r := AList.mem_lookup_iff.mpr entry
    rw [get, db.primaryKey k r stored]
    exact stored
  · intro row
    exact ⟨⟨_, m⟩, AList.mem_lookup_iff.mp row, rfl⟩

theorem mem_live :
    m ∈ db.live ↔ db.get m.repositoryID m.filepath = some m ∧ m.isDeleted = false := by
  rw [live, List.mem_filter, mem_rows, Bool.not_eq_true']

theorem mem_listByRepository :
    m ∈ db.listByRepository repoID false ↔ m ∈ db.live ∧ m.repositoryID = repoID := by
  simp only [listByRepository, live, List.mem_insertionSort, List.mem_filter, Bool.not_eq_true',
    Bool.false_eq_true, false_or, decide_eq_true_eq]
  tauto

theorem live_save {db' : DB} {now : Int} {r m : FileMetadata} (saved : db.save now r = some db')
    (member : m ∈ db'.live) : m = { r with updatedAt := now } ∨
      m ∈ db.live ∧ (m.repositoryID, m.filepath) ≠ (r.repositoryID, r.filepath) := by
  obtain ⟨row, alive⟩ := mem_live.mp member
  by_cases here : (m.repositoryID, m.filepath) = (r.repositoryID, r.filepath)
  · obtain ⟨repo, path⟩ := Prod.mk.inj here
    rw [repo, path, get_save_self saved] at row
    exact Or.inl (Option.some.inj row).symm
  · rw [get_save_other saved here] at row
    exact Or.inr ⟨mem_live.mpr ⟨row, alive⟩, here⟩

theorem live_hardDelete (member : m ∈ (db.hardDelete repoID filepath).live) :
    m ∈ db.live ∧ (m.repositoryID, m.filepath) ≠ (repoID, filepath) := by
  obtain ⟨row, alive⟩ := mem_live.mp member
  by_cases here : (m.repositoryID, m.filepath) = (repoID, filepath)
  · obtain ⟨repo, path⟩ := Prod.mk.inj here
    rw [repo, path, get_hardDelete_self] at row
    cases row
  · rw [get_hardDelete_other db here] at row
    exact ⟨mem_live.mpr ⟨row, alive⟩, here⟩

theorem getByPathAndHash_some {hash : String} {m : FileMetadata}
    (h : db.getByPathAndHash filepath hash = some m) :
    m.filepath = filepath ∧ m.hash = hash ∧ m.isDeleted = false ∧
      m.repositoryID ∈ db.repositories := by
  have fields := List.find?_some h
  have row := mem_rows.mp (List.mem_of_find?_eq_some h)
  simp only [decide_eq_true_eq] at fields
  exact ⟨fields.1, fields.2.1, fields.2.2, repository_of_get row⟩

end

end DB

end P2PSync
