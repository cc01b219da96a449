import P2PSync.Daemon
import P2PSync.LastWrite
import P2PSync.Library.Separated
import P2PSync.Library.Utf8

/-! From the watchers to the coordinator: which paths the daemon leaves out and what it
sends for the others. A path is a string of bytes there; it becomes a text when the
message is written. -/
namespace P2PSync

abbrev Bytes := List UInt8

inductive WatchEventType where
  | created | modified | deleted | moved
  deriving DecidableEq, Repr

/-- No watcher sets the new path of a move. -/
structure WatchEvent where
  type : WatchEventType
  path : Bytes
  deriving DecidableEq, Repr

def WatchEventType.action : WatchEventType → String
  | .created => "created"
  | .modified => "modified"
  | .deleted => "deleted"
  | .moved => "moved"

/-- A regular file as the callback finds it; the time is in nanoseconds. -/
structure WatchedFile where
  content : Content
  writeTime : Int
  permissions : Nat
  readable : Bool
  deriving DecidableEq

inductive PathStatus where
  | absent
  | directory
  | regular (f : WatchedFile)
  /-- Neither: its size cannot be asked for. -/
  | special
  deriving DecidableEq

/-- Hidden files and directories, and the files of running transfers. -/
def skips {α : Type} [DecidableEq α] (dot slash : α) (tmp normPath : List α) : Bool :=
  normPath.head? = some dot || decide ([slash, dot] <:+: normPath) ||
    (tmp.length ≤ normPath.length && normPath.drop (normPath.length - tmp.length) = tmp)

def skipsPath (normPath : String) : Bool := skips '.' '/' ".tmp".toList normPath.toList

namespace Bytes

def normalizePath (path : Bytes) : Bytes :=
  path.map fun b => if b = Utf8.byte '\\' then Utf8.byte '/' else b

def skipsPath (normPath : Bytes) : Bool :=
  skips (Utf8.byte '.') (Utf8.byte '/') (Utf8.encode ".tmp") normPath

def fsAppend (a b : Bytes) : Bytes :=
  if b.head? = some (Utf8.byte '/') then b
  else if a = [] ∨ a.getLast? = some (Utf8.byte '/') then a ++ b
  else a ++ Utf8.byte '/' :: b

end Bytes

def lastWriteTime (time : Int) : Option Int :=
  if -2 ^ 63 ≤ time ∧ time < 2 ^ 63 then some time else none

inductive WatchOutcome where
  | skipped
  /-- An error about the file is caught and logged. -/
  | failed
  /-- Writing the message throws, and nothing catches it: the daemon ends. -/
  | thrown
  | sent (payload : FileChangedEvent)
  deriving DecidableEq

def Daemon.absPath (d : Daemon) (path : Bytes) : Bytes :=
  Bytes.fsAppend (Utf8.encode d.watchPath) (Bytes.normalizePath path)

/-- The message is written in UTF-8. -/
def WatchEvent.dump (event : WatchEvent) (hash : String) (size modifiedTime : Int) (mode : Nat) :
    WatchOutcome :=
  match Utf8.decode (Bytes.normalizePath event.path) with
  | none => .thrown
  | some path => .sent ⟨event.type.action, path, hash, size, modifiedTime, mode⟩

/-- The clock and the times of files count nanoseconds. -/
def Daemon.watchCallback (rt : Runtime) (d : Daemon) (now : Int) (look : Bytes → PathStatus)
    (event : WatchEvent) : WatchOutcome :=
  let normPath := Bytes.normalizePath event.path
  if normPath = [] then .skipped
  else if Bytes.skipsPath normPath then .skipped
  else
    match look (d.absPath event.path) with
    | .directory => .skipped
    | .absent => event.dump "" 0 (castSeconds now) 0
    | .special => if event.type = .deleted then event.dump "" 0 (castSeconds now) 0 else .failed
    | .regular f =>
      if event.type = .deleted then event.dump "" 0 (castSeconds now) 0
      else
        match lastWriteTime f.writeTime with
        | none => .failed
        | some time =>
          -- a file that cannot be opened leaves the digest empty
          event.dump (if f.readable then rt.sha256 f.content else "")
            (Binary64.wrapInt64 f.content.length) (castSeconds time) f.permissions

/-! The paths that are left out. -/

theorem hasSuffix_iff (s p : String) : hasSuffix s p = true ↔ p.toList <:+ s.toList :=
  decide_eq_true_iff

theorem skips_iff {α : Type} [DecidableEq α] {dot slash : α} (proper : dot ≠ slash)
    (tmp path : List α) : skips dot slash tmp path = true ↔
      (∃ part ∈ path.splitOn slash, part.head? = some dot) ∨ tmp <:+ path := by
  have ends : (tmp.length ≤ path.length && path.drop (path.length - tmp.length) = tmp) = true ↔
      tmp <:+ path := by
    rw [Bool.and_eq_true, decide_eq_true_eq, decide_eq_true_eq]
    constructor
    · rintro ⟨-, last⟩
      exact last ▸ List.drop_suffix _ _
    · intro suffix
      exact ⟨suffix.length_le, (List.suffix_iff_eq_drop.mp suffix).symm⟩
  rw [Separated.marked_iff proper, skips, Bool.or_eq_true, Bool.or_eq_true, ends, decide_eq_true_eq,
    decide_eq_true_eq]

theorem skipsPath_iff (path : String) : skipsPath path = true ↔
    (∃ part ∈ Posix.parts path.toList, part.head? = some '.') ∨ hasSuffix path ".tmp" = true := by
  rw [hasSuffix_iff]
  exact skips_iff (by decide) _ _

theorem Bytes.normalizePath_encode (path : String) :
    Bytes.normalizePath (Utf8.encode path) = Utf8.encode (P2PSync.normalizePath path) := by
  rw [Bytes.normalizePath, Utf8.encode, Utf8.map_bytes (by decide) (by decide), Utf8.encode,
    normalizePath_toList]

theorem Bytes.skipsPath_encode (path : String) :
    Bytes.skipsPath (Utf8.encode path) = P2PSync.skipsPath path := by
  have dotted : (Utf8.encode path).head? = some (Utf8.byte '.') ↔ path.toList.head? = some '.' :=
    Utf8.head_bytes (by decide) _
  have below : [Utf8.byte '/', Utf8.byte '.'] <:+: Utf8.encode path ↔ ['/', '.'] <:+: path.toList :=
    Utf8.infix_bytes (t := ['/', '.']) (by simp [Utf8.Ascii]) (List.cons_ne_nil _ _)
  have tmp : Utf8.encode ".tmp" <:+ Utf8.encode path ↔ ".tmp".toList <:+ path.toList :=
    Utf8.suffix_bytes (by simp [Utf8.Ascii])
  rw [Bool.eq_iff_iff, Bytes.skipsPath, skips_iff (by decide), Separated.marked_iff (by decide),
    P2PSync.skipsPath, skips_iff (by decide), Separated.marked_iff (by decide), dotted, below, tmp]

theorem dotted_relPath (p : List EntryName) :
    (∃ part ∈ Posix.parts (relPath p).toList, part.head? = some '.') ↔ p.any dotted = true := by
  have below : relPath p ≠ "." := by
    intro root
    have place := normal_relPath p
    rw [root] at place
    rw [List.map_eq_nil_iff.mp place.symm] at root
    exact absurd root (by decide)
  rw [← hidden_relPath, hidden, decide_eq_true_eq]
  simp only [ne_eq, below, not_false_eq_true, true_and, List.any_eq_true, decide_eq_true_eq]

theorem skipsPath_relPath (p : List EntryName) :
    skipsPath (relPath p) = true ↔ Indexable p = false := by
  rw [skipsPath_iff, dotted_relPath, Indexable, Bool.and_eq_false_iff, Bool.not_eq_false',
    Bool.not_eq_false']

theorem mem_seenFiles (rt : Runtime) (sc : SyncCoordinator) (now : Int) (repoID : String)
    (d : Directory) (path : String) :
    path ∈ (walkDir now repoID ⟨sc, [], []⟩ (d.walkItems rt)).1.seenFiles ↔
      path ∈ d.tracked.map Prod.fst := by
  rw [walkDir_found (completes_walkItems rt d) (found_walkItems rt d), indexAll_seen]
  constructor
  · rintro (none | seen)
    · cases none
    · obtain ⟨f, found⟩ := Option.isSome_iff_exists.mp seen
      exact List.mem_map.mpr ⟨_, Directory.mem_of_file found, rfl⟩
  · intro tracked
    obtain ⟨⟨_, f⟩, member, rfl⟩ := List.mem_map.mp tracked
    exact Or.inr (Option.isSome_iff_exists.mpr ⟨f, Directory.file_of_mem member⟩)

theorem mem_tracked {d : Directory} {p : List EntryName} {f : DiskFile}
    (there : (p, f) ∈ d.entries.files) :
    relPath p ∈ d.tracked.map Prod.fst ↔ Indexable p = true := by
  constructor
  · intro tracked
    obtain ⟨e, member, path⟩ := List.mem_map.mp tracked
    obtain ⟨e', kept, rfl⟩ := List.mem_map.mp member
    rw [← relPath_injective path]
    exact (List.mem_filter.mp kept).2
  · intro kept
    exact List.mem_map.mpr ⟨_, List.mem_map.mpr ⟨_, List.mem_filter.mpr ⟨there, kept⟩, rfl⟩, rfl⟩

/-- The callback and the scan leave out the same files: by the text of the path, those
with a dotted piece and those of temporary files, and in a tree, those that the scan
of the tree does not see. -/
theorem watcher_ignores_as_scan (rt : Runtime) (sc : SyncCoordinator) (now : Int)
    (repoID : String) : (∀ path, skipsPath path = true ↔
      (∃ part ∈ Posix.parts path.toList, part.head? = some '.') ∨ hasSuffix path ".tmp" = true) ∧
    (∀ (d : Directory) (p : List EntryName) (f : DiskFile), (p, f) ∈ d.entries.files →
      (skipsPath (relPath p) = true ↔
        relPath p ∉ (walkDir now repoID ⟨sc, [], []⟩ (d.walkItems rt)).1.seenFiles)) ∧
    ∀ path, Bytes.skipsPath (Bytes.normalizePath (Utf8.encode path)) =
      skipsPath (normalizePath path) := by
  refine ⟨skipsPath_iff, fun d p f there => ?_, fun path => ?_⟩
  · rw [mem_seenFiles, mem_tracked there, skipsPath_relPath, Bool.not_eq_true]
  · rw [Bytes.normalizePath_encode, Bytes.skipsPath_encode]

/-! What the coordinator makes of the others. -/

theorem castSeconds_pos (mtime : Int) : 0 < castSeconds mtime ↔ 1000000000 ≤ mtime := by
  rw [castSeconds_eq]
  split <;> omega

theorem wrapInt64_nonneg (n : Nat) : 0 ≤ Binary64.wrapInt64 n ↔ n % 2 ^ 64 < 2 ^ 63 := by
  unfold Binary64.wrapInt64
  rw [Int.bmod_def]
  split <;> omega

section Accepted

variable {e : FileChangedEvent} (named : e.path ≠ "")
include named

theorem validate_ok {action : FileAction} (parsed : FileAction.parse e.action = some action) :
    (∃ p, e.validate = .ok p ∧ p.action = action) ↔
      (action ≠ .delete → e.hash ≠ "" ∧ 0 ≤ e.size) ∧ 0 < e.modifiedTime := by
  simp only [FileChangedEvent.validate, if_neg named, parsed]
  constructor
  · rintro ⟨p, ok, -⟩
    split at ok
    · cases ok
    · rename_i hash
      split at ok
      · cases ok
      · rename_i size
        split at ok
        · cases ok
        · rename_i time
          exact ⟨fun kept => ⟨fun empty => hash ⟨kept, empty⟩,
            not_lt.mp (fun negative => size ⟨kept, negative⟩)⟩, not_le.mp time⟩
  · rintro ⟨body, time⟩
    rw [if_neg (fun h => (body h.1).1 h.2), if_neg (fun h => absurd (body h.1).2 (not_le.mpr h.2)),
      if_neg (not_le.mpr time)]
    exact ⟨_, rfl, rfl⟩

end Accepted

def Accepted (e : FileChangedEvent) : Prop :=
  ∃ p, e.validate = .ok p ∧ FileAction.parse e.action = some p.action

theorem accepted_iff {e : FileChangedEvent} (named : e.path ≠ "") {action : FileAction}
    (parsed : FileAction.parse e.action = some action) : Accepted e ↔
      (action ≠ .delete → e.hash ≠ "" ∧ 0 ≤ e.size) ∧ 0 < e.modifiedTime := by
  rw [← validate_ok named parsed, Accepted, parsed]
  simp only [Option.some.injEq, eq_comm]

def WatchOutcome.Fine (o : WatchOutcome) : Prop := o = .skipped ∨ ∃ e, o = .sent e ∧ Accepted e

theorem fine_sent (e : FileChangedEvent) : (WatchOutcome.sent e).Fine ↔ Accepted e := by
  simp [WatchOutcome.Fine]

section Callback

variable {rt : Runtime} {d : Daemon} {now : Int} {look : Bytes → PathStatus} {event : WatchEvent}
  (named : event.path ≠ [])
include named

theorem fine_dump {action : FileAction}
    (parsed : FileAction.parse event.type.action = some action) (hash : String)
    (size modifiedTime : Int) (mode : Nat) : (event.dump hash size modifiedTime mode).Fine ↔
      (Utf8.decode (Bytes.normalizePath event.path)).isSome = true ∧
        (action ≠ .delete → hash ≠ "" ∧ 0 ≤ size) ∧ 0 < modifiedTime := by
  unfold WatchEvent.dump
  cases text : Utf8.decode (Bytes.normalizePath event.path) with
  | none => simp [WatchOutcome.Fine]
  | some path =>
    have full : path ≠ "" := by
      rintro rfl
      have empty := Utf8.decode_eq_some.mp text
      exact named (List.map_eq_nil_iff.mp empty.symm)
    rw [fine_sent, accepted_iff full parsed]
    simp

section Sent

variable (kept : Bytes.skipsPath (Bytes.normalizePath event.path) = false)
include kept

theorem watchCallback_deleted (gone : event.type = .deleted) : d.watchCallback rt now look event =
      if look (d.absPath event.path) = .directory then .skipped
      else event.dump "" 0 (castSeconds now) 0 := by
  unfold Daemon.watchCallback
  rw [if_neg (by simpa [Bytes.normalizePath] using named), if_neg (by simp [kept])]
  cases look (d.absPath event.path) <;> simp [gone]

theorem watchCallback_regular (there : event.type ≠ .deleted) {f : WatchedFile}
    (found : look (d.absPath event.path) = .regular f) : d.watchCallback rt now look event =
      match lastWriteTime f.writeTime with
      | none => .failed
      | some time => event.dump (if f.readable then rt.sha256 f.content else "")
        (Binary64.wrapInt64 f.content.length) (castSeconds time) f.permissions := by
  unfold Daemon.watchCallback
  rw [if_neg (by simpa [Bytes.normalizePath] using named), if_neg (by simp [kept]), found]
  simp [there]

theorem fine_regular (digest : ∀ data, rt.sha256 data ≠ "") {action : FileAction}
    (parsed : FileAction.parse event.type.action = some action) (there : action ≠ .delete)
    (type : event.type ≠ .deleted) {f : WatchedFile}
    (found : look (d.absPath event.path) = .regular f) (readable : f.readable = true) :
    (d.watchCallback rt now look event).Fine ↔
      (Utf8.decode (Bytes.normalizePath event.path)).isSome = true ∧
        (1000000000 ≤ f.writeTime ∧ f.writeTime < 2 ^ 63) ∧ f.content.length % 2 ^ 64 < 2 ^ 63 := by
  rw [watchCallback_regular named kept type found, lastWriteTime]
  by_cases range : -2 ^ 63 ≤ f.writeTime ∧ f.writeTime < 2 ^ 63
  · simp only [range, and_self, readable, if_true]
    rw [fine_dump named parsed, castSeconds_pos, wrapInt64_nonneg]
    simp only [ne_eq, there, not_false_eq_true, digest, true_and, forall_const, and_true]
    exact and_congr_right fun _ => and_comm
  · have outside : ¬ (1000000000 ≤ f.writeTime ∧ f.writeTime < 2 ^ 63) := by
      rintro ⟨low, high⟩
      exact range ⟨by omega, high⟩
    rw [if_neg range]
    exact iff_of_false (by simp [WatchOutcome.Fine]) (fun h => outside h.2.1)

end Sent

end Callback

def oneFile (path : Bytes) : PathStatus :=
  if path = Utf8.encode "/w/f" then .regular ⟨[], 1000000000, 420, true⟩ else .absent

end P2PSync
