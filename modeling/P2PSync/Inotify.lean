import Mathlib.Data.List.AList
import P2PSync.Library.DirTree
import P2PSync.Library.Transition
import P2PSync.WatchEvents

/-! The watcher on Linux. The kernel reports what happens in a directory once that is
watched. A new directory is watched when its event is read, then the directories in it;
no event is made up for the files in it. -/
namespace P2PSync

/-! Paths as the kernel has them. -/

abbrev ByteName := { part : Bytes // part ≠ [] ∧ part ≠ Utf8.encode "." ∧
  part ≠ Utf8.encode ".." ∧ Utf8.byte '/' ∉ part }

def pathOf (p : List ByteName) : Bytes := [Utf8.byte '/'].intercalate (p.map Subtype.val)

def pieces (path : Bytes) : List Bytes := (path.splitOn (Utf8.byte '/')).filter (· ≠ [])

def relativeDir (watchPath path : Bytes) : Bytes :=
  if path = watchPath then []
  else if watchPath.length < path.length ∧ path.take watchPath.length = watchPath ∧
      path[watchPath.length]? = some (Utf8.byte '/') then
    path.drop (watchPath.length + 1)
  else []

def entryPath (path : Bytes) (name : ByteName) : Bytes :=
  if path.getLast? = some (Utf8.byte '/') then path ++ name.1
  else path ++ Utf8.byte '/' :: name.1

def watchedPath (watchPath : Bytes) (p : List ByteName) : Bytes := p.foldl entryPath watchPath

def eventPath (dir name : Bytes) : Bytes := if dir = [] then name else dir ++ Utf8.byte '/' :: name

theorem pathOf_nil : pathOf [] = [] := rfl

section

variable (watchPath : Bytes) (p : List ByteName) (name : ByteName)

theorem pathOf_singleton : pathOf [name] = name.1 := List.intercalate_singleton

theorem pathOf_cons_cons (next : ByteName) (p : List ByteName) :
    pathOf (name :: next :: p) = name.1 ++ Utf8.byte '/' :: pathOf (next :: p) := by
  rw [pathOf, List.map_cons, List.map_cons, List.intercalate_cons_cons, List.append_assoc]
  rfl

theorem pieces_pathOf : pieces (pathOf p) = p.map Subtype.val := by
  have single (name : ByteName) : pieces name.1 = [name.1] := by
    rw [pieces, List.splitOn_eq_singleton name.2.2.2.2]
    simp [name.2.1]
  induction p with
  | nil => rfl
  | cons name p ih =>
    cases p with
    | nil => rw [pathOf_singleton, single, List.map_singleton]
    | cons next p =>
      have first := single name
      rw [pieces] at first ih
      rw [pathOf_cons_cons, pieces, List.splitOn_append_cons_self, List.filter_append, first, ih]
      rfl

theorem pathOf_injective : Function.Injective pathOf := by
  intro p q same
  have names := congrArg pieces same
  rw [pieces_pathOf, pieces_pathOf] at names
  exact Subtype.val_injective.list_map names

theorem pathOf_eq_nil {p : List ByteName} : pathOf p = [] ↔ p = [] :=
  pathOf_nil ▸ pathOf_injective.eq_iff

theorem pathOf_concat_ne_nil : pathOf (p ++ [name]) ≠ [] := by
  rw [Ne, pathOf_eq_nil]
  simp

theorem pathOf_head : (pathOf p).head? ≠ some (Utf8.byte '/') := by
  have own (name : ByteName) (rest : Bytes) : (name.1 ++ rest).head? ≠ some (Utf8.byte '/') := by
    obtain ⟨b, later, first⟩ := List.exists_cons_of_ne_nil name.2.1
    rw [first, List.cons_append, List.head?_cons]
    rintro ⟨⟩
    exact name.2.2.2.2 (first ▸ List.mem_cons_self)
  cases p with
  | nil => exact nofun
  | cons name p =>
    cases p with
    | nil => exact pathOf_singleton name ▸ List.append_nil name.1 ▸ own name []
    | cons next p => exact pathOf_cons_cons name next p ▸ own name _

theorem eventPath_pathOf : eventPath (pathOf p) name.1 = pathOf (p ++ [name]) := by
  unfold eventPath
  split
  · rename_i empty
    rw [pathOf_eq_nil.mp empty, List.nil_append, pathOf_singleton]
  · rename_i below
    induction p with
    | nil => exact absurd rfl below
    | cons first p ih =>
      cases p with
      | nil => rw [pathOf_singleton, List.singleton_append, pathOf_cons_cons, pathOf_singleton]
      | cons next p =>
        have rest := ih (by simp [pathOf_eq_nil])
        rw [pathOf_cons_cons, List.append_assoc, List.cons_append, rest]
        exact (pathOf_cons_cons first next (p ++ [name])).symm

theorem watchedPath_concat :
    watchedPath watchPath (p ++ [name]) = entryPath (watchedPath watchPath p) name := by
  rw [watchedPath, List.foldl_append]
  rfl

theorem entryPath_plain (path : Bytes) (name : ByteName) :
    (entryPath path name).getLast? ≠ some (Utf8.byte '/') := by
  have last : ∀ front : Bytes, (front ++ name.1).getLast? = name.1.getLast? :=
    fun front => List.getLast?_append_of_ne_nil front name.2.1
  have ends : (entryPath path name).getLast? = name.1.getLast? := by
    unfold entryPath
    split
    · exact last path
    · rw [List.append_cons, last]
  rw [ends]
  exact fun slash => name.2.2.2.2 (List.mem_of_getLast? slash)

theorem watchedPath_eq {watchPath : Bytes} (plain : watchPath.getLast? ≠ some (Utf8.byte '/'))
    (p : List ByteName) (name : ByteName) :
    watchedPath watchPath (p ++ [name]) = watchPath ++ Utf8.byte '/' :: pathOf (p ++ [name]) := by
  induction p using List.reverseRecOn generalizing name with
  | nil =>
    rw [watchedPath_concat, watchedPath, List.foldl_nil, entryPath, if_neg plain, List.nil_append,
      pathOf_singleton]
  | append_singleton p last ih =>
    have ends := entryPath_plain (watchedPath watchPath p) last
    rw [← watchedPath_concat] at ends
    rw [watchedPath_concat, entryPath, if_neg ends, ih, ← eventPath_pathOf (p ++ [last]), eventPath,
      if_neg (pathOf_concat_ne_nil p last), List.append_assoc, List.cons_append]

theorem relativeDir_below (rel : Bytes) :
    relativeDir watchPath (watchPath ++ Utf8.byte '/' :: rel) = rel := by
  have longer : watchPath ++ Utf8.byte '/' :: rel ≠ watchPath := by
    intro same
    have := congrArg List.length same
    simp at this
  rw [relativeDir, if_neg longer, if_pos (by simp)]
  simp

end

/-- A watch is recorded under the place of its directory, and the paths of the events are
those of the places below, if the watched path does not end in a slash. -/
theorem relativeDir_watchedPath {watchPath : Bytes}
    (plain : watchPath.getLast? ≠ some (Utf8.byte '/')) (p : List ByteName) :
    relativeDir watchPath (watchedPath watchPath p) = pathOf p := by
  rcases List.eq_nil_or_concat p with rfl | ⟨p, name, rfl⟩
  · exact if_pos rfl
  · rw [List.concat_eq_append, watchedPath_eq plain, relativeDir_below]

/-! The watcher. -/

inductive NoticeKind where
  | create | modify | delete | movedFrom | movedTo
  deriving DecidableEq, Repr

namespace NoticeKind

def type : NoticeKind → WatchEventType
  | .create => .created
  | .modify => .modified
  | .delete => .deleted
  | .movedFrom => .deleted
  | .movedTo => .created

def looks : NoticeKind → Bool
  | .create => true
  | .movedTo => true
  | _ => false

def adds (kind : NoticeKind) : Bool := kind.type ≠ .deleted

end NoticeKind

/-- An event in the queue of the kernel. The descriptor of a watch is the number of the
directory, so that a second watch on a directory is the first one. -/
structure Notice where
  wd : Nat
  kind : NoticeKind
  name : ByteName
  deriving DecidableEq

/-- What the thread of the watcher is in the middle of. A path that it uses leads to a
place of the tree. -/
inductive WatchTask where
  | stat (path : Bytes)
  | addWatch (path : Bytes) (p : List ByteName)
  /-- The loop over the entries of a directory. -/
  | list (path : Bytes) (p : List ByteName)
  deriving DecidableEq

/-- The tree below the watched directory, the files it had at the start, the watcher and
the events it has emitted, without those that the callback drops for a directory. The
daemon ends with an exception in the callback. -/
structure Inotify where
  watchPath : Bytes
  tree : DirTree ByteName
  start : Finset (List ByteName)
  wdToPath : AList fun _ : Nat => Bytes
  queue : List Notice
  tasks : List WatchTask
  emitted : List WatchEvent
  ended : Bool

namespace Inotify

def path (s : Inotify) (e : Notice) : Bytes :=
  eventPath ((s.wdToPath.lookup e.wd).getD []) e.name.1

def dirAt (s : Inotify) (path : Bytes) : Option (List ByteName) :=
  (s.tree.dirs.map Prod.fst).find? (·.map Subtype.val = pieces path)

def applyEvent (files : Finset Bytes) (event : WatchEvent) : Finset Bytes :=
  match event.type with
  | .created => insert event.path files
  | .modified => insert event.path files
  | .deleted => files.erase event.path
  | .moved => files

def known (s : Inotify) : Finset Bytes := s.emitted.foldl applyEvent (s.start.image pathOf)

/-! The operations on the tree. -/

def notify (s : Inotify) (dir : List ByteName) (kind : NoticeKind) (name : ByteName) : Inotify :=
  match s.tree.number dir with
  | none => s
  | some wd => if wd ∈ s.wdToPath then { s with queue := s.queue ++ [⟨wd, kind, name⟩] } else s

def putFile (s : Inotify) (dir : List ByteName) (name : ByteName) (kind : NoticeKind) :
    Option Inotify :=
  if clear : s.tree.IsDir dir ∧ ¬ s.tree.IsDir (dir ++ [name]) then
    some { s.notify dir kind name with tree := s.tree.put dir name clear.1 clear.2 }
  else none

def takeFile (s : Inotify) (dir : List ByteName) (name : ByteName) (kind : NoticeKind) :
    Option Inotify :=
  if dir ++ [name] ∈ s.tree.files then
    some { s.notify dir kind name with tree := s.tree.take (dir ++ [name]) }
  else none

def attach (s : Inotify) (sub : DirTree ByteName) (dir : List ByteName) (name : ByteName)
    (kind : NoticeKind) : Option Inotify :=
  if clear : s.tree.IsDir dir ∧ s.tree.Free (dir ++ [name]) ∧
      ∀ i ∈ sub.dirs.map Prod.snd, i ∉ s.tree.dirs.map Prod.snd then
    some { s.notify dir kind name with
      tree := s.tree.graft sub dir name clear.1 clear.2.1 clear.2.2 }
  else none

def detach (s : Inotify) (dir : List ByteName) (name : ByteName) (kind : NoticeKind) :
    Option Inotify :=
  if s.tree.IsDir (dir ++ [name]) then
    some { s.notify dir kind name with tree := s.tree.prune (dir ++ [name]) (by simp) }
  else none

def vacate (s : Inotify) (dir : List ByteName) (name : ByteName) : Inotify :=
  if s.tree.Empty (dir ++ [name]) then
    { s with tree := s.tree.prune (dir ++ [name]) (by simp) }
  else s

def Unused (s : Inotify) (wd : Nat) : Prop :=
  wd ∉ s.tree.dirs.map Prod.snd ∧ wd ∉ s.wdToPath ∧ wd ∉ s.queue.map Notice.wd

instance (s : Inotify) (wd : Nat) : Decidable (s.Unused wd) :=
  inferInstanceAs (Decidable (_ ∧ _ ∧ _))

end Inotify

inductive Operation where
  | create (dir : List ByteName) (name : ByteName)
  | write (dir : List ByteName) (name : ByteName)
  | unlink (dir : List ByteName) (name : ByteName)
  | rename (dir : List ByteName) (name : ByteName) (dir' : List ByteName) (name' : ByteName)
  | moveIn (dir : List ByteName) (name : ByteName)
  | moveOut (dir : List ByteName) (name : ByteName)
  | mkdir (dir : List ByteName) (name : ByteName) (number : Nat)
  | rmdir (dir : List ByteName) (name : ByteName)
  | renameDir (dir : List ByteName) (name : ByteName) (dir' : List ByteName) (name' : ByteName)
  | moveDirIn (dir : List ByteName) (name : ByteName) (sub : DirTree ByteName)
  | moveDirOut (dir : List ByteName) (name : ByteName)

structure CallbackEnv where
  /-- There is a directory at the path, where the path leads out of the watched one. -/
  outside : Bool
  connected : Bool

inductive WatchStep where
  | operation (op : Operation)
  | react (env : CallbackEnv)

namespace Inotify

def operate (s : Inotify) : Operation → Option Inotify
  | .create dir name =>
    if dir ++ [name] ∈ s.tree.files then none else s.putFile dir name .create
  | .write dir name =>
    if dir ++ [name] ∈ s.tree.files then s.putFile dir name .modify else none
  | .unlink dir name => s.takeFile dir name .delete
  | .rename dir name dir' name' =>
    (s.takeFile dir name .movedFrom).bind (·.putFile dir' name' .movedTo)
  | .moveIn dir name => s.putFile dir name .movedTo
  | .moveOut dir name => s.takeFile dir name .movedFrom
  | .mkdir dir name number =>
    if s.Unused number then s.attach (.single number) dir name .create else none
  | .rmdir dir name =>
    if s.tree.Empty (dir ++ [name]) then s.detach dir name .delete else none
  | .renameDir dir name dir' name' =>
    let s := s.vacate dir' name'
    if known : s.tree.IsDir (dir ++ [name]) ∧ ¬ dir ++ [name] <+: dir' ++ [name'] then
      (s.detach dir name .movedFrom).bind
        (·.attach (s.tree.subtree (dir ++ [name]) known.1) dir' name' .movedTo)
    else none
  | .moveDirIn dir name sub => (s.vacate dir name).attach sub dir name .movedTo
  | .moveDirOut dir name => s.detach dir name .movedFrom

/-- The test of the callback. A path that starts with a slash replaces the watched one. -/
def isDirectory (s : Inotify) (env : CallbackEnv) (normPath : Bytes) : Bool :=
  if normPath.head? = some (Utf8.byte '/') then env.outside else (s.dirAt normPath).isSome

/-- Nothing catches what is thrown for a path that is not a text. -/
def throws (env : CallbackEnv) (normPath : Bytes) : Bool :=
  env.connected && !Bytes.skipsPath normPath && (Utf8.decode normPath).isNone

def callback (s : Inotify) (env : CallbackEnv) (event : WatchEvent) : Inotify :=
  let normPath := Bytes.normalizePath event.path
  if s.isDirectory env normPath then s
  else if throws env normPath then { s with ended := true }
  else { s with emitted := s.emitted ++ [event] }

/-- The thread reads events one at a time, and finishes with one before the next. -/
def react (s : Inotify) (env : CallbackEnv) : Option Inotify :=
  if s.ended then none
  else
    match s.tasks with
    | .stat path :: rest =>
      match s.dirAt path with
      | none => some { s with tasks := rest }
      | some p =>
        some { s with tasks := .addWatch (s.watchPath ++ Utf8.byte '/' :: path) p :: rest }
    | .addWatch path p :: rest =>
      match s.tree.number p with
      | none => some { s with tasks := rest }
      | some wd => some { s with
        wdToPath := s.wdToPath.insert wd (relativeDir s.watchPath path)
        tasks := .list path p :: rest }
    | .list path p :: rest => some { s with
      tasks := (s.tree.subdirs p).map (fun n => .addWatch (entryPath path n) (p ++ [n])) ++ rest }
    | [] =>
      match s.queue with
      | [] => none
      | e :: rest =>
        let s' := s.callback env ⟨e.kind.type, s.path e⟩
        some { s' with
          queue := rest
          tasks := if e.kind.looks && !s'.ended then [.stat (s.path e)] else [] }

def next (s : Inotify) : WatchStep → Option Inotify
  | .operation op => s.operate op
  | .react env => s.react env

structure Initial (s : Inotify) : Prop where
  start : s.start = s.tree.files
  wdToPath : s.wdToPath = ∅
  queue : s.queue = []
  tasks : s.tasks = [.addWatch s.watchPath []]
  emitted : s.emitted = []
  ended : s.ended = false

def Idle (s : Inotify) : Prop := s.tasks = [] ∧ s.queue = []

instance (s : Inotify) : Decidable s.Idle := inferInstanceAs (Decidable (_ ∧ _))

def Tracked (s : Inotify) (p : List ByteName) : Prop :=
  (s.tree.number p).bind s.wdToPath.lookup = some (pathOf p)

instance (s : Inotify) (p : List ByteName) : Decidable (s.Tracked p) :=
  inferInstanceAs (Decidable (_ = _))

def Unwatched (s : Inotify) (p : List ByteName) : Prop :=
  (s.tree.number p).bind s.wdToPath.lookup = none

instance (s : Inotify) (p : List ByteName) : Decidable (s.Unwatched p) :=
  inferInstanceAs (Decidable (_ = _))

def NoFiles (s : Inotify) (p : List ByteName) : Prop := ∀ q ∈ s.tree.files, ¬ p <+: q

instance (s : Inotify) (p : List ByteName) : Decidable (s.NoFiles p) :=
  inferInstanceAs (Decidable (∀ q ∈ s.tree.files, _))

def Plain (p : List ByteName) : Prop :=
  Utf8.byte '\\' ∉ pathOf p ∧ (Utf8.decode (pathOf p)).isSome = true

instance (p : List ByteName) : Decidable (Plain p) := inferInstanceAs (Decidable (_ ∧ _))

/-- Files come and go only in directories that are tracked. A directory is made where no
event is under way, in a directory that is tracked or that the watcher has yet to come
to. Directories are moved only without files and while the watcher rests. The paths are
plain, and the watched path does not end in a slash. -/
def Orderly (s : Inotify) : WatchStep → Prop
  | .react _ => s.watchPath.getLast? ≠ some (Utf8.byte '/')
  | .operation (.create dir name) => s.Tracked dir ∧ Plain (dir ++ [name])
  | .operation (.write dir name) => s.Tracked dir ∧ Plain (dir ++ [name])
  | .operation (.unlink dir name) => s.Tracked dir ∧ Plain (dir ++ [name])
  | .operation (.moveIn dir name) => s.Tracked dir ∧ Plain (dir ++ [name])
  | .operation (.moveOut dir name) => s.Tracked dir ∧ Plain (dir ++ [name])
  | .operation (.rename dir name dir' name') =>
    (s.Tracked dir ∧ Plain (dir ++ [name])) ∧ s.Tracked dir' ∧ Plain (dir' ++ [name'])
  | .operation (.mkdir dir name _) =>
    ((s.Tracked dir ∨ s.Unwatched dir) ∧ ∀ e ∈ s.queue, s.path e ≠ pathOf (dir ++ [name])) ∧
      Plain (dir ++ [name])
  | .operation (.rmdir dir name) => s.Tracked dir ∧ Plain (dir ++ [name])
  | .operation (.renameDir dir name dir' name') =>
    (s.Idle ∧ s.NoFiles (dir ++ [name])) ∧ Plain (dir ++ [name]) ∧ Plain (dir' ++ [name'])
  | .operation (.moveDirIn dir name sub) => (s.Idle ∧ sub.files = ∅) ∧ Plain (dir ++ [name])
  | .operation (.moveDirOut dir name) =>
    (s.Idle ∧ s.NoFiles (dir ++ [name])) ∧ Plain (dir ++ [name])

instance (s : Inotify) (step : WatchStep) : Decidable (s.Orderly step) := by
  rcases step with op | _
  · cases op <;> unfold Orderly <;> infer_instance
  · unfold Orderly
    infer_instance

end Inotify

end P2PSync
