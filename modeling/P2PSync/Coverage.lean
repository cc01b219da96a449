import P2PSync.Inotify

/-! What the watcher on Linux does not miss. Whatever the watcher has yet to handle is in
its tasks or in the queue, and once both are empty the events tell of all files. -/
namespace P2PSync

open Transition

namespace Inotify

/-! What is under way. -/

def expected (s : Inotify) (p : List ByteName) : Bool :=
  s.queue.foldl (fun b e => if s.path e = pathOf p then e.kind.adds else b)
    (decide (pathOf p ∈ s.known))

def Covered (s : Inotify) (p : List ByteName) : Prop :=
  ∃ q, q <+: p ∧ (.stat (pathOf q) ∈ s.tasks ∨ (∃ path, .addWatch path q ∈ s.tasks) ∨
    (∃ path, .list path q ∈ s.tasks) ∧ q ≠ p ∨
    ∃ e ∈ s.queue, e.kind.looks = true ∧ s.path e = pathOf q)

end Inotify

def WatchTask.Named (watchPath : Bytes) : WatchTask → Prop
  | .stat path => ∃ p, p ≠ [] ∧ path = pathOf p
  | .addWatch path p => path = watchedPath watchPath p
  | .list path p => path = watchedPath watchPath p

namespace Inotify

/-- Events are attributed to the place where their directory is, or was when it was
removed. Every directory is tracked or still to be. A place that is no directory has a
file exactly if it will be known to have one, and no directory is taken for a file. -/
structure Sound (s : Inotify) : Prop where
  running : s.ended = false
  mapped : ∀ e ∈ s.queue, ∃ p, s.wdToPath.lookup e.wd = some (pathOf p) ∧
    Plain (p ++ [e.name]) ∧ ∀ q, (q, e.wd) ∈ s.tree.dirs → q = p
  named : ∀ task ∈ s.tasks, task.Named s.watchPath
  covered : ∀ p wd, (p, wd) ∈ s.tree.dirs → s.wdToPath.lookup wd = some (pathOf p) ∨ s.Covered p
  told : ∀ p, ¬ s.tree.IsDir p → (p ∈ s.tree.files ↔ s.expected p = true)
  apart : ∀ p, s.tree.IsDir p → pathOf p ∉ s.known
  texts : ∀ path ∈ s.known, ∃ p, pathOf p = path

section Lemmas

variable {s s' : Inotify} {dir p q : List ByteName} {name : ByteName} {kind : NoticeKind}

theorem tracked_iff :
    s.Tracked p ↔ ∃ wd, (p, wd) ∈ s.tree.dirs ∧ s.wdToPath.lookup wd = some (pathOf p) := by
  simp only [Tracked, Option.bind_eq_some_iff, DirTree.number_eq_some]

theorem notify_tracked (tracked : s.Tracked dir) (kind : NoticeKind) (name : ByteName) :
    ∃ wd, (dir, wd) ∈ s.tree.dirs ∧ s.wdToPath.lookup wd = some (pathOf dir) ∧
      s.notify dir kind name = { s with queue := s.queue ++ [⟨wd, kind, name⟩] } := by
  obtain ⟨wd, there, path⟩ := tracked_iff.mp tracked
  have watched : wd ∈ s.wdToPath := AList.lookup_isSome.mp (by rw [path]; rfl)
  refine ⟨wd, there, path, ?_⟩
  simp only [notify, DirTree.number_eq_some.mpr there, if_pos watched]

theorem notify_unwatched (unwatched : s.Unwatched dir) (kind : NoticeKind) (name : ByteName) :
    s.notify dir kind name = s := by
  unfold notify
  cases found : s.tree.number dir with
  | none => rfl
  | some wd =>
    rw [Unwatched, found, Option.bind_some, AList.lookup_eq_none] at unwatched
    exact if_neg unwatched

theorem path_of_lookup {e : Notice} (found : s.wdToPath.lookup e.wd = some (pathOf dir)) :
    s.path e = pathOf (dir ++ [e.name]) := by
  rw [path, found, Option.getD_some, eventPath_pathOf]

theorem dirAt_eq_some : s.dirAt (pathOf q) = some p ↔ s.tree.IsDir p ∧ p = q := by
  have names {r : List ByteName} : r.map Subtype.val = pieces (pathOf q) ↔ r = q := by
    rw [pieces_pathOf]
    exact Subtype.val_injective.list_map.eq_iff
  unfold dirAt
  constructor
  · intro found
    exact ⟨List.mem_of_find?_eq_some found, names.mp (by simpa using List.find?_some found)⟩
  · rintro ⟨isDir, rfl⟩
    cases found : (s.tree.dirs.map Prod.fst).find? (·.map Subtype.val = pieces (pathOf p)) with
    | none =>
      have missed := List.find?_eq_none.mp found p isDir
      simp [pieces_pathOf] at missed
    | some r =>
      have same : r = p := names.mp (by simpa using List.find?_some found)
      rw [same]

theorem callback_plain (plain : Plain p) (env : CallbackEnv) (type : WatchEventType) :
    s.callback env ⟨type, pathOf p⟩ = { s with
      emitted := if s.tree.IsDir p then s.emitted else s.emitted ++ [⟨type, pathOf p⟩] } := by
  have normal : Bytes.normalizePath (pathOf p) = pathOf p := by
    refine (List.map_congr_left fun b member => if_neg ?_).trans (List.map_id _)
    rintro rfl
    exact plain.1 member
  have test : s.isDirectory env (pathOf p) = true ↔ s.tree.IsDir p := by
    rw [isDirectory, if_neg (pathOf_head p), Option.isSome_iff_exists]
    constructor
    · rintro ⟨q, found⟩
      obtain ⟨isDir, rfl⟩ := dirAt_eq_some.mp found
      exact isDir
    · exact fun isDir => ⟨p, dirAt_eq_some.mpr ⟨isDir, rfl⟩⟩
  have written : throws env (pathOf p) = false := by
    rw [throws, ← Option.not_isSome, plain.2, Bool.not_true, Bool.and_false]
  simp only [callback, normal]
  by_cases isDir : s.tree.IsDir p
  · rw [if_pos (test.mpr isDir), if_pos isDir]
  · rw [if_neg (mt test.mp isDir), written, if_neg Bool.false_ne_true, if_neg isDir]

theorem expected_concat (s : Inotify) (e : Notice) (p : List ByteName) :
    expected { s with queue := s.queue ++ [e] } p =
      if s.path e = pathOf p then e.kind.adds else s.expected p := by
  rw [expected, List.foldl_append]
  rfl

theorem expected_congr (paths : ∀ e ∈ s.queue, s'.path e = s.path e) (queue : s'.queue = s.queue)
    (known : s'.known = s.known) (p : List ByteName) : s'.expected p = s.expected p := by
  rw [expected, expected, queue, known]
  exact List.foldl_ext _ _ _ (fun b e waiting => by rw [paths e waiting])

theorem expected_quiet (quiet : ∀ e ∈ s.queue, s.path e ≠ pathOf p) :
    s.expected p = decide (pathOf p ∈ s.known) := by
  have all : ∀ (es : List Notice) (b : Bool), (∀ e ∈ es, s.path e ≠ pathOf p) →
      es.foldl (fun b e => if s.path e = pathOf p then e.kind.adds else b) b = b := by
    intro es
    induction es with
    | nil => exact fun _ _ => rfl
    | cons e es ih =>
      intro b quiet
      rw [List.foldl_cons, if_neg (quiet e List.mem_cons_self)]
      exact ih b (fun e' later => quiet e' (List.mem_cons_of_mem e later))
  exact all _ _ quiet

theorem Covered.mono (covered : s.Covered p) (tasks : s.tasks ⊆ s'.tasks)
    (queue : ∀ e ∈ s.queue, e ∈ s'.queue ∧ s'.path e = s.path e) : s'.Covered p := by
  obtain ⟨q, above, stat | ⟨path, add⟩ | ⟨⟨path, list⟩, proper⟩ | ⟨e, waiting, looks, here⟩⟩ :=
    covered
  · exact ⟨q, above, Or.inl (tasks stat)⟩
  · exact ⟨q, above, Or.inr (Or.inl ⟨path, tasks add⟩)⟩
  · exact ⟨q, above, Or.inr (Or.inr (Or.inl ⟨⟨path, tasks list⟩, proper⟩))⟩
  · obtain ⟨still, same⟩ := queue e waiting
    exact ⟨q, above, Or.inr (Or.inr (Or.inr ⟨e, still, looks, same.trans here⟩))⟩

theorem Covered.below (covered : s.Covered p) (above : p <+: q) : s.Covered q := by
  obtain ⟨r, higher, stat | add | ⟨list, proper⟩ | notice⟩ := covered
  · exact ⟨r, higher.trans above, Or.inl stat⟩
  · exact ⟨r, higher.trans above, Or.inr (Or.inl add)⟩
  · refine ⟨r, higher.trans above, Or.inr (Or.inr (Or.inl ⟨list, ?_⟩))⟩
    rintro rfl
    exact proper (higher.eq_of_length_le above.length_le)
  · exact ⟨r, higher.trans above, Or.inr (Or.inr (Or.inr notice))⟩

theorem mem_applyEvent (files : Finset Bytes) (kind : NoticeKind) (path path' : Bytes) :
    path' ∈ applyEvent files ⟨kind.type, path⟩ ↔
      if path = path' then kind.adds = true else path' ∈ files := by
  by_cases here : path = path'
  · subst here
    cases kind <;> simp [applyEvent, NoticeKind.type, NoticeKind.adds]
  · have there : path' ≠ path := Ne.symm here
    cases kind <;> simp [applyEvent, NoticeKind.type, here, there]

/-! The operations. -/

theorem Sound.report (sound : s.Sound) (tracked : s.Tracked dir) (plain : Plain (dir ++ [name]))
    {t : DirTree ByteName} (parent : ∀ wd, (dir, wd) ∈ s.tree.dirs → (dir, wd) ∈ t.dirs)
    (mapped : ∀ e ∈ s.queue, ∀ q, (q, e.wd) ∈ t.dirs → (q, e.wd) ∈ s.tree.dirs)
    (covered : ∀ q wd, (q, wd) ∈ t.dirs →
      (q, wd) ∈ s.tree.dirs ∨ kind.looks = true ∧ dir ++ [name] <+: q)
    (told : ∀ q, ¬ t.IsDir q → dir ++ [name] ≠ q → (q ∈ t.files ↔ s.expected q = true))
    (here : ¬ t.IsDir (dir ++ [name]) → (dir ++ [name] ∈ t.files ↔ kind.adds = true))
    (apart : ∀ q, t.IsDir q → pathOf q ∉ s.known) :
    Sound { s.notify dir kind name with tree := t } := by
  obtain ⟨wd, there, path, queue⟩ := notify_tracked tracked kind name
  have new : s.path ⟨wd, kind, name⟩ = pathOf (dir ++ [name]) := path_of_lookup path
  rw [queue]
  refine ⟨sound.running, ?_, sound.named, ?_, ?_, apart, sound.texts⟩
  · intro e waiting
    rcases List.mem_append.mp waiting with old | last
    · obtain ⟨r, path', name', only⟩ := sound.mapped e old
      exact ⟨r, path', name', fun q there' => only q (mapped e old q there')⟩
    · cases List.mem_singleton.mp last
      exact ⟨dir, path, plain, fun q there' => DirTree.place_unique there' (parent wd there)⟩
  · intro q wd' there'
    rcases covered q wd' there' with old | ⟨looks, below⟩
    · exact (sound.covered q wd' old).imp_right
        (·.mono (fun _ => id) (fun e old => ⟨List.mem_append_left _ old, rfl⟩))
    · exact Or.inr ⟨_, below, Or.inr (Or.inr (Or.inr ⟨_, by simp, looks, new⟩))⟩
  · intro q clear
    have later := expected_concat s ⟨wd, kind, name⟩ q
    rw [new] at later
    by_cases same : dir ++ [name] = q
    · subst same
      rw [if_pos rfl] at later
      exact (here clear).trans (later ▸ Iff.rfl)
    · rw [if_neg (fun path => same (pathOf_injective path))] at later
      exact (told q clear same).trans (later ▸ Iff.rfl)

theorem Sound.silent (sound : s.Sound) {t : DirTree ByteName}
    (mapped : ∀ e ∈ s.queue, ∀ q, (q, e.wd) ∈ t.dirs → (q, e.wd) ∈ s.tree.dirs)
    (covered : ∀ q wd, (q, wd) ∈ t.dirs → (q, wd) ∈ s.tree.dirs ∨ s.Covered q)
    (told : ∀ q, ¬ t.IsDir q → (q ∈ t.files ↔ s.expected q = true))
    (apart : ∀ q, t.IsDir q → pathOf q ∉ s.known) : Sound { s with tree := t } := by
  have still {q : List ByteName} (below : s.Covered q) : Covered { s with tree := t } q :=
    below.mono (fun _ => id) (fun e old => ⟨old, rfl⟩)
  refine ⟨sound.running, ?_, sound.named, ?_, told, apart, sound.texts⟩
  · intro e waiting
    obtain ⟨r, path, name, only⟩ := sound.mapped e waiting
    exact ⟨r, path, name, fun q there => only q (mapped e waiting q there)⟩
  · intro q wd there
    rcases covered q wd there with old | below
    · exact (sound.covered q wd old).imp_right still
    · exact Or.inr (still below)

theorem Sound.file (sound : s.Sound) (tracked : s.Tracked dir) (plain : Plain (dir ++ [name]))
    {t : DirTree ByteName} (dirs : t.dirs = s.tree.dirs)
    (others : ∀ q, dir ++ [name] ≠ q → (q ∈ t.files ↔ q ∈ s.tree.files))
    (here : dir ++ [name] ∈ t.files ↔ kind.adds = true) :
    Sound { s.notify dir kind name with tree := t } := by
  have isDir (q) : t.IsDir q ↔ s.tree.IsDir q := by rw [DirTree.IsDir, dirs, DirTree.IsDir]
  refine sound.report tracked plain ?_ ?_ ?_ ?_ (fun _ => here) ?_
  · exact fun wd there => dirs ▸ there
  · exact fun e _ q there => dirs ▸ there
  · exact fun q wd there => Or.inl (dirs ▸ there)
  · exact fun q clear other => (others q other).trans (sound.told q (mt (isDir q).mpr clear))
  · exact fun q there => sound.apart q ((isDir q).mp there)

section Prune

variable (noFiles : s.NoFiles p) (below : p ≠ [])
include noFiles

theorem mem_files_prune : q ∈ (s.tree.prune p below).files ↔ q ∈ s.tree.files :=
  Finset.mem_filter.trans (and_iff_left_of_imp (noFiles q))

theorem Sound.told_prune (sound : s.Sound) (gone : s.tree.IsDir q → p <+: q → s.expected q = false)
    (clear : ¬ (s.tree.prune p below).IsDir q) :
    q ∈ (s.tree.prune p below).files ↔ s.expected q = true := by
  rw [DirTree.isDir_prune, not_and, not_not] at clear
  rw [mem_files_prune noFiles]
  by_cases isDir : s.tree.IsDir q
  · exact iff_of_false (fun file => s.tree.apart q file isDir)
      (Bool.eq_false_iff.mp (gone isDir (clear isDir)))
  · exact sound.told q isDir

end Prune

theorem Sound.expected_dir (sound : s.Sound) (isDir : s.tree.IsDir q)
    (quiet : ∀ e ∈ s.queue, s.path e ≠ pathOf q) : s.expected q = false := by
  rw [expected_quiet quiet, decide_eq_false_iff_not]
  exact sound.apart q isDir

theorem Sound.detach (sound : s.Sound) (tracked : s.Tracked dir) (plain : Plain (dir ++ [name]))
    (isDir : s.tree.IsDir (dir ++ [name])) (noFiles : s.NoFiles (dir ++ [name]))
    (removes : kind.adds = false)
    (quiet : ∀ q, s.tree.IsDir q → dir ++ [name] <+: q → dir ++ [name] ≠ q →
      ∀ e ∈ s.queue, s.path e ≠ pathOf q) (below : dir ++ [name] ≠ []) :
    Sound { s.notify dir kind name with tree := s.tree.prune (dir ++ [name]) below } := by
  refine sound.report tracked plain ?_ ?_ ?_ ?_ ?_ ?_
  · refine fun wd there => (DirTree.mem_prune below).mpr ⟨there, fun above => ?_⟩
    have := above.length_le
    rw [List.length_append, List.length_singleton] at this
    omega
  · exact fun e _ q there => ((DirTree.mem_prune below).mp there).1
  · exact fun q wd there => Or.inl ((DirTree.mem_prune below).mp there).1
  · exact fun q clear other => sound.told_prune noFiles below
      (fun dir' above => sound.expected_dir dir' (quiet q dir' above other)) clear
  · intro _
    rw [mem_files_prune noFiles, removes]
    exact iff_of_false (fun file => s.tree.apart _ file isDir) Bool.false_ne_true
  · exact fun q there => sound.apart q ((DirTree.isDir_prune below).mp there).1

theorem Sound.vacate (sound : s.Sound) (rests : s.queue = []) (dir : List ByteName)
    (name : ByteName) : Sound (s.vacate dir name) := by
  unfold Inotify.vacate
  split
  · rename_i empty
    have below : dir ++ [name] ≠ [] := by simp
    refine sound.silent ?_ ?_ ?_ ?_
    · exact fun e _ q there => ((DirTree.mem_prune below).mp there).1
    · exact fun q wd there => Or.inl ((DirTree.mem_prune below).mp there).1
    · exact fun q clear => sound.told_prune empty.2.2 below
        (fun dir' _ => sound.expected_dir dir' (by simp [rests])) clear
    · exact fun q there => sound.apart q ((DirTree.isDir_prune below).mp there).1
  · exact sound

section Attach

variable {sub : DirTree ByteName} (parent : s.tree.IsDir dir) (free : s.tree.Free (dir ++ [name]))
  (others : ∀ i ∈ sub.dirs.map Prod.snd, i ∉ s.tree.dirs.map Prod.snd)

theorem Sound.told_graft (sound : s.Sound) (empty : sub.files = ∅)
    (clear : ¬ (s.tree.graft sub dir name parent free others).IsDir q) :
    q ∈ (s.tree.graft sub dir name parent free others).files ↔ s.expected q = true := by
  have files : (s.tree.graft sub dir name parent free others).files =
      s.tree.files ∪ sub.files.image (dir ++ [name] ++ ·) := rfl
  rw [files, empty, Finset.image_empty, Finset.union_empty]
  exact sound.told q (fun old => clear (DirTree.mem_shift_dirs.mpr (Or.inl old)))

theorem Sound.apart_graft (sound : s.Sound)
    (quiet : ∀ r, sub.IsDir r → ∀ e ∈ s.queue, s.path e ≠ pathOf (dir ++ [name] ++ r))
    (isDir : (s.tree.graft sub dir name parent free others).IsDir q) : pathOf q ∉ s.known := by
  intro known
  rcases DirTree.mem_shift_dirs.mp isDir with old | ⟨r, rfl, inside⟩
  · exact sound.apart q old known
  · obtain ⟨clear, none⟩ := free.below (List.prefix_append _ r)
    refine none ((sound.told _ clear).mpr ?_)
    rw [expected_quiet (quiet r inside), decide_eq_true_eq]
    exact known

theorem Sound.attach (sound : s.Sound) (empty : sub.files = ∅)
    (reached : s.Tracked dir ∨ s.Unwatched dir) (plain : Plain (dir ++ [name]))
    (looks : kind.looks = true) (fresh : ∀ e ∈ s.queue, e.wd ∉ sub.dirs.map Prod.snd)
    (quiet : ∀ r, sub.IsDir r → ∀ e ∈ s.queue, s.path e ≠ pathOf (dir ++ [name] ++ r)) :
    Sound { s.notify dir kind name with tree := s.tree.graft sub dir name parent free others } := by
  have mapped : ∀ e ∈ s.queue, ∀ q,
      (q, e.wd) ∈ (s.tree.graft sub dir name parent free others).dirs →
        (q, e.wd) ∈ s.tree.dirs := by
    intro e waiting q there
    rcases DirTree.mem_graft.mp there with old | ⟨_, -, new⟩
    · exact old
    · exact absurd (List.mem_map_of_mem new) (fresh e waiting)
  rcases reached with tracked | unwatched
  · refine sound.report tracked plain ?_ mapped ?_ ?_ ?_ ?_
    · exact fun wd there => DirTree.mem_graft.mpr (Or.inl there)
    · intro q wd there
      refine (DirTree.mem_graft.mp there).imp_right ?_
      rintro ⟨r, rfl, -⟩
      exact ⟨looks, List.prefix_append _ r⟩
    · exact fun q clear _ => sound.told_graft parent free others empty clear
    · refine fun clear => absurd ?_ clear
      exact DirTree.mem_shift_dirs.mpr (Or.inr ⟨[], (List.append_nil _).symm, sub.rooted⟩)
    · exact fun q isDir => sound.apart_graft parent free others quiet isDir
  · rw [notify_unwatched unwatched]
    refine sound.silent mapped ?_ ?_ ?_
    · intro q wd there
      refine (DirTree.mem_graft.mp there).imp_right ?_
      rintro ⟨r, rfl, -⟩
      obtain ⟨wd', above⟩ := DirTree.isDir_iff.mp parent
      rw [Unwatched, DirTree.number_eq_some.mpr above, Option.bind_some] at unwatched
      rcases sound.covered dir wd' above with path | covered
      · rw [unwatched] at path
        cases path
      · refine covered.below ?_
        rw [List.append_assoc]
        exact List.prefix_append dir _
    · exact fun q clear => sound.told_graft parent free others empty clear
    · exact fun q isDir => sound.apart_graft parent free others quiet isDir

end Attach

/-! The watcher. -/

theorem Sound.tasks (sound : s.Sound) {tasks : List WatchTask}
    (named : ∀ task ∈ tasks, task.Named s.watchPath)
    (covered : ∀ q, s.tree.IsDir q → s.Covered q → Covered { s with tasks := tasks } q) :
    Sound { s with tasks := tasks } :=
  ⟨sound.running, sound.mapped, named, fun q wd there => (sound.covered q wd there).imp_right
    (covered q (DirTree.isDir_of_mem there)), sound.told, sound.apart, sound.texts⟩

theorem Covered.tail {task : WatchTask} {rest tasks : List WatchTask} (covered : s.Covered q)
    (head : s.tasks = task :: rest) (kept : rest ⊆ tasks)
    (done : ∀ r, r <+: q → task = .stat (pathOf r) ∨ (∃ path, task = .addWatch path r) ∨
      (∃ path, task = .list path r) ∧ r ≠ q → Covered { s with tasks := tasks } q) :
    Covered { s with tasks := tasks } q := by
  obtain ⟨r, above, stat | ⟨path, add⟩ | ⟨⟨path, list⟩, proper⟩ | notice⟩ := covered
  · rw [head] at stat
    rcases List.mem_cons.mp stat with now | later
    · exact done r above (Or.inl now.symm)
    · exact ⟨r, above, Or.inl (kept later)⟩
  · rw [head] at add
    rcases List.mem_cons.mp add with now | later
    · exact done r above (Or.inr (Or.inl ⟨path, now.symm⟩))
    · exact ⟨r, above, Or.inr (Or.inl ⟨path, kept later⟩)⟩
  · rw [head] at list
    rcases List.mem_cons.mp list with now | later
    · exact done r above (Or.inr (Or.inr ⟨⟨path, now.symm⟩, proper⟩))
    · exact ⟨r, above, Or.inr (Or.inr (Or.inl ⟨⟨path, kept later⟩, proper⟩))⟩
  · exact ⟨r, above, Or.inr (Or.inr (Or.inr notice))⟩

section Tasks

variable {path : Bytes} {rest : List WatchTask}

theorem Sound.named_head {task : WatchTask} (sound : s.Sound) (head : s.tasks = task :: rest) :
    task.Named s.watchPath ∧ ∀ task ∈ rest, task.Named s.watchPath := by
  have named := sound.named
  rw [head] at named
  exact List.forall_mem_cons.mp named

theorem Sound.stat_gone (sound : s.Sound) (head : s.tasks = .stat path :: rest)
    (gone : s.dirAt path = none) : Sound { s with tasks := rest } := by
  refine sound.tasks (sound.named_head head).2
    fun q isDir covered => covered.tail head (fun _ => id) ?_
  rintro r above (same | ⟨_, same⟩ | ⟨⟨_, same⟩, -⟩) <;> cases same
  rw [dirAt_eq_some.mpr ⟨DirTree.isDir_above isDir above, rfl⟩] at gone
  cases gone

theorem Sound.stat (sound : s.Sound) (head : s.tasks = .stat path :: rest)
    (plain : s.watchPath.getLast? ≠ some (Utf8.byte '/')) (found : s.dirAt path = some p) :
    Sound { s with tasks := .addWatch (s.watchPath ++ Utf8.byte '/' :: path) p :: rest } := by
  obtain ⟨⟨_, below, rfl⟩, others⟩ := sound.named_head head
  obtain ⟨-, rfl⟩ := dirAt_eq_some.mp found
  refine sound.tasks (List.forall_mem_cons.mpr ⟨?_, others⟩)
    fun q isDir covered => covered.tail head (List.subset_cons_self _ _) ?_
  · rcases List.eq_nil_or_concat p with rfl | ⟨p, name, rfl⟩
    · exact absurd rfl below
    · rw [List.concat_eq_append]
      exact (watchedPath_eq plain p name).symm
  · rintro r above (same | ⟨_, same⟩ | ⟨⟨_, same⟩, -⟩)
    · rw [← pathOf_injective (WatchTask.stat.inj same)] at above
      exact ⟨p, above, Or.inr (Or.inl ⟨_, List.mem_cons_self⟩)⟩
    · cases same
    · cases same

theorem Sound.list (sound : s.Sound) (head : s.tasks = .list path p :: rest) : Sound { s with
      tasks := (s.tree.subdirs p).map (fun n => .addWatch (entryPath path n) (p ++ [n])) ++
        rest } := by
  obtain ⟨named, others⟩ := sound.named_head head
  refine sound.tasks ?_
    fun q isDir covered => covered.tail head (List.subset_append_right _ _) ?_
  · intro task member
    rcases List.mem_append.mp member with new | old
    · obtain ⟨n, -, rfl⟩ := List.mem_map.mp new
      rw [WatchTask.Named, watchedPath_concat, ← named]
    · exact others task old
  · rintro r above (same | ⟨_, same⟩ | ⟨⟨_, same⟩, proper⟩) <;> cases same
    obtain ⟨tail, rfl⟩ := above
    cases tail with
    | nil => exact absurd (List.append_nil p).symm proper
    | cons n tail =>
      have child : p ++ [n] <+: p ++ n :: tail :=
        (List.prefix_append_right_inj p).mpr (List.prefix_append [n] tail)
      have listed := DirTree.mem_subdirs.mpr (DirTree.isDir_above isDir child)
      refine ⟨p ++ [n], child, Or.inr (Or.inl ⟨entryPath path n, List.mem_append_left _ ?_⟩)⟩
      exact List.mem_map.mpr ⟨n, listed, rfl⟩

theorem Sound.addWatch_gone (sound : s.Sound) (head : s.tasks = .addWatch path p :: rest)
    (gone : s.tree.number p = none) : Sound { s with tasks := rest } := by
  refine sound.tasks (sound.named_head head).2
    fun q isDir covered => covered.tail head (fun _ => id) ?_
  rintro r above (same | ⟨_, same⟩ | ⟨⟨_, same⟩, -⟩) <;> cases same
  obtain ⟨wd, there⟩ := DirTree.isDir_iff.mp (DirTree.isDir_above isDir above)
  rw [DirTree.number_eq_some.mpr there] at gone
  cases gone

theorem lookup_record {wd wd' : Nat} (found : s.wdToPath.lookup wd' = some (pathOf q))
    (here : wd' = wd → p = q) : (s.wdToPath.insert wd (pathOf p)).lookup wd' = some (pathOf q) := by
  by_cases same : wd' = wd
  · rw [same, AList.lookup_insert, here same]
  · rw [AList.lookup_insert_ne same, found]

theorem Sound.mapped_record {wd : Nat} (sound : s.Sound) (there : (p, wd) ∈ s.tree.dirs)
    {e : Notice} (waiting : e ∈ s.queue) : ∃ r, s.wdToPath.lookup e.wd = some (pathOf r) ∧
      (s.wdToPath.insert wd (pathOf p)).lookup e.wd = some (pathOf r) ∧
      Plain (r ++ [e.name]) ∧ ∀ q, (q, e.wd) ∈ s.tree.dirs → q = r := by
  obtain ⟨r, found, plain, only⟩ := sound.mapped e waiting
  exact ⟨r, found, lookup_record found (fun same => only p (same ▸ there)), plain, only⟩

theorem Sound.addWatch {wd : Nat} (sound : s.Sound) (head : s.tasks = .addWatch path p :: rest)
    (plain : s.watchPath.getLast? ≠ some (Utf8.byte '/')) (there : (p, wd) ∈ s.tree.dirs) :
    Sound { s with
      wdToPath := s.wdToPath.insert wd (relativeDir s.watchPath path)
      tasks := .list path p :: rest } := by
  obtain ⟨named, others⟩ := sound.named_head head
  have recorded : relativeDir s.watchPath path = pathOf p := by
    rw [show path = watchedPath s.watchPath p from named, relativeDir_watchedPath plain]
  rw [recorded]
  have paths : ∀ e ∈ s.queue, Inotify.path { s with
      wdToPath := s.wdToPath.insert wd (pathOf p), tasks := .list path p :: rest } e =
        s.path e := by
    intro e waiting
    obtain ⟨r, old, new, -⟩ := sound.mapped_record there waiting
    rw [Inotify.path, Inotify.path, old, new]
  refine ⟨sound.running, ?_, List.forall_mem_cons.mpr ⟨named, others⟩, ?_, ?_, sound.apart,
    sound.texts⟩
  · intro e waiting
    obtain ⟨r, -, new⟩ := sound.mapped_record there waiting
    exact ⟨r, new⟩
  · intro q wd' there'
    by_cases here : p = q
    · subst here
      rw [DirTree.number_unique there' there]
      exact Or.inl (AList.lookup_insert _)
    · rcases sound.covered q wd' there' with found | covered
      · refine Or.inl (lookup_record found (fun same => ?_))
        exact DirTree.place_unique there (same ▸ there')
      · refine Or.inr (Covered.mono (s := { s with tasks := .list path p :: rest }) ?_
          (fun _ => id) (fun e waiting => ⟨waiting, paths e waiting⟩))
        refine covered.tail head (List.subset_cons_self _ _) ?_
        rintro r above (same | ⟨_, same⟩ | ⟨⟨_, same⟩, -⟩) <;> cases same
        exact ⟨p, above, Or.inr (Or.inr (Or.inl ⟨⟨path, List.mem_cons_self⟩, here⟩))⟩
  · intro q clear
    exact (sound.told q clear).trans
      (Bool.coe_iff_coe.mpr (expected_congr paths rfl rfl q).symm)

end Tasks

theorem mem_read (s : Inotify) (kind : NoticeKind) (p : List ByteName) (path : Bytes) :
    path ∈ (if s.tree.IsDir p then s.emitted
      else s.emitted ++ [⟨kind.type, pathOf p⟩]).foldl applyEvent (s.start.image pathOf) ↔
      if pathOf p = path ∧ ¬ s.tree.IsDir p then kind.adds = true else path ∈ s.known := by
  by_cases isDir : s.tree.IsDir p
  · rw [if_pos isDir, if_neg (fun h => h.2 isDir)]
    rfl
  · rw [if_neg isDir, List.foldl_append]
    refine (mem_applyEvent s.known kind (pathOf p) path).trans ?_
    by_cases same : pathOf p = path
    · rw [if_pos same, if_pos ⟨same, isDir⟩]
    · rw [if_neg same, if_neg (fun h => same h.1)]

theorem expected_read {e : Notice} {rest : List Notice} (head : s.queue = e :: rest)
    (here : s.path e = pathOf p) (clear : ¬ s.tree.IsDir q) :
    s.expected q = rest.foldl (fun b e => if s.path e = pathOf q then e.kind.adds else b)
      (decide (pathOf q ∈ (if s.tree.IsDir p then s.emitted
        else s.emitted ++ [⟨e.kind.type, pathOf p⟩]).foldl applyEvent (s.start.image pathOf))) := by
  rw [expected, head, List.foldl_cons]
  congr 1
  rw [Bool.eq_iff_iff, decide_eq_true_eq, mem_read, here]
  by_cases same : p = q
  · rw [same, if_pos rfl, if_pos ⟨rfl, clear⟩]
  · have other := fun path => same (pathOf_injective path)
    rw [if_neg other, if_neg (fun h => other h.1), decide_eq_true_eq]

theorem Sound.read {e : Notice} {rest : List Notice} (sound : s.Sound) (free : s.tasks = [])
    (head : s.queue = e :: rest) (here : s.path e = pathOf (dir ++ [e.name])) : Sound { s with
      queue := rest
      tasks := if e.kind.looks then [.stat (pathOf (dir ++ [e.name]))] else []
      emitted := if s.tree.IsDir (dir ++ [e.name]) then s.emitted
        else s.emitted ++ [⟨e.kind.type, pathOf (dir ++ [e.name])⟩] } := by
  refine ⟨sound.running, ?_, ?_, ?_, ?_, ?_, ?_⟩
  · intro e' later
    exact sound.mapped e' (head ▸ List.mem_cons_of_mem e later)
  · intro task member
    split at member
    · cases List.mem_singleton.mp member
      exact ⟨dir ++ [e.name], by simp, rfl⟩
    · cases member
  · intro q wd there
    refine (sound.covered q wd there).imp_right ?_
    rintro ⟨r, above, covered⟩
    -- without tasks, only an event can cover it
    simp only [free, head, List.not_mem_nil, exists_false, false_and, false_or, List.mem_cons]
      at covered
    obtain ⟨e', rfl | later, looks, place⟩ := covered
    · refine ⟨r, above, Or.inl ?_⟩
      rw [if_pos looks, ← here, place]
      exact List.mem_singleton_self _
    · exact ⟨r, above, Or.inr (Or.inr (Or.inr ⟨e', later, looks, place⟩))⟩
  · intro q clear
    exact (sound.told q clear).trans (Bool.coe_iff_coe.mpr (expected_read head here clear))
  · intro q isDir known
    have value := (mem_read s e.kind _ _).mp known
    rw [if_neg (fun h => h.2 (pathOf_injective h.1 ▸ isDir))] at value
    exact sound.apart q isDir value
  · intro path known
    have value := (mem_read s e.kind _ _).mp known
    split at value
    · rename_i new
      exact ⟨_, new.1⟩
    · exact sound.texts path value

theorem Sound.react (sound : s.Sound) (plain : s.watchPath.getLast? ≠ some (Utf8.byte '/'))
    {env : CallbackEnv} (reacted : s.react env = some s') : s'.Sound := by
  rw [Inotify.react, if_neg (Bool.eq_false_iff.mp sound.running)] at reacted
  split at reacted
  · rename_i path rest head
    split at reacted
    · rename_i gone
      cases reacted
      exact sound.stat_gone head gone
    · rename_i p found
      cases reacted
      exact sound.stat head plain found
  · rename_i path p rest head
    split at reacted
    · rename_i gone
      cases reacted
      exact sound.addWatch_gone head gone
    · rename_i wd found
      cases reacted
      exact sound.addWatch head plain (DirTree.number_eq_some.mp found)
  · rename_i path p rest head
    cases reacted
    exact sound.list head
  · rename_i free
    split at reacted
    · cases reacted
    · rename_i e rest head
      obtain ⟨dir, found, name, -⟩ := sound.mapped e (head ▸ List.mem_cons_self)
      have here := path_of_lookup found
      rw [here, callback_plain name] at reacted
      cases reacted
      have tasks : (e.kind.looks && !s.ended) = e.kind.looks := by
        rw [sound.running, Bool.not_false, Bool.and_true]
      simp only [tasks]
      exact sound.read free head here

/-! Each operation on its own. -/

theorem notify_eq (s : Inotify) (dir : List ByteName) (kind : NoticeKind) (name : ByteName) :
    ∃ queue, s.notify dir kind name = { s with queue := queue } := by
  unfold notify
  split
  · exact ⟨s.queue, rfl⟩
  · split
    · exact ⟨_, rfl⟩
    · exact ⟨s.queue, rfl⟩

theorem Sound.putFile (sound : s.Sound) (orderly : s.Tracked dir ∧ Plain (dir ++ [name]))
    (adds : kind.adds = true) (done : s.putFile dir name kind = some s') : s'.Sound := by
  unfold Inotify.putFile at done
  split at done
  · cases done
    refine sound.file orderly.1 orderly.2 rfl (fun q other => ?_) (iff_of_true ?_ adds)
    · exact Finset.mem_insert.trans (or_iff_right (Ne.symm other))
    · exact Finset.mem_insert_self _ _
  · cases done

theorem Sound.takeFile (sound : s.Sound) (orderly : s.Tracked dir ∧ Plain (dir ++ [name]))
    (removes : kind.adds = false) (done : s.takeFile dir name kind = some s') : s'.Sound := by
  unfold Inotify.takeFile at done
  split at done
  · cases done
    refine sound.file orderly.1 orderly.2 rfl (fun q other => ?_) (iff_of_false ?_ ?_)
    · exact Finset.mem_erase.trans (and_iff_right (Ne.symm other))
    · exact Finset.notMem_erase _ _
    · exact Bool.eq_false_iff.mp removes
  · cases done

theorem tracked_takeFile (done : s.takeFile dir name kind = some s') :
    s'.Tracked p ↔ s.Tracked p := by
  unfold takeFile at done
  split at done
  · obtain ⟨queue, notified⟩ := notify_eq s dir kind name
    cases done
    rw [notified]
    rfl
  · cases done

theorem Idle.tracked (idle : s.Idle) (sound : s.Sound) (isDir : s.tree.IsDir p) : s.Tracked p := by
  obtain ⟨wd, there⟩ := DirTree.isDir_iff.mp isDir
  refine tracked_iff.mpr ⟨wd, there, ?_⟩
  rcases sound.covered p wd there with path | ⟨q, -, covered⟩
  · exact path
  · simp [idle.1, idle.2] at covered

theorem Idle.vacate (idle : s.Idle) (dir : List ByteName) (name : ByteName) :
    (s.vacate dir name).Idle := by
  unfold Inotify.vacate
  split
  · exact idle
  · exact idle

theorem isDir_parent {t : DirTree ByteName} (isDir : t.IsDir (dir ++ [name])) : t.IsDir dir :=
  t.closed dir name (Or.inl isDir)

theorem Sound.mkdir {number : Nat} (sound : s.Sound) (plain : Plain (dir ++ [name]))
    (reached : s.Tracked dir ∨ s.Unwatched dir)
    (quiet : ∀ e ∈ s.queue, s.path e ≠ pathOf (dir ++ [name])) (unused : s.Unused number)
    (done : s.attach (.single number) dir name .create = some s') : s'.Sound := by
  unfold Inotify.attach at done
  split at done
  · rename_i clear
    cases done
    refine sound.attach clear.1 clear.2.1 clear.2.2 rfl reached plain rfl ?_ ?_
    · intro e waiting number'
      cases List.mem_singleton.mp number'
      exact unused.2.2 (List.mem_map_of_mem waiting)
    · intro r inside e waiting
      cases List.mem_singleton.mp inside
      rw [List.append_nil]
      exact quiet e waiting
  · cases done

theorem Sound.rmdir (sound : s.Sound) (orderly : s.Tracked dir ∧ Plain (dir ++ [name]))
    (empty : s.tree.Empty (dir ++ [name])) (done : s.detach dir name .delete = some s') :
    s'.Sound := by
  unfold Inotify.detach at done
  split at done
  · rename_i isDir
    cases done
    refine sound.detach orderly.1 orderly.2 isDir empty.2.2 rfl ?_ (by simp)
    intro q there below other
    obtain ⟨wd, there⟩ := DirTree.isDir_iff.mp there
    exact absurd (empty.2.1 _ there below).symm other
  · cases done

theorem Sound.moveDirOut (sound : s.Sound) (plain : Plain (dir ++ [name])) (idle : s.Idle)
    (noFiles : s.NoFiles (dir ++ [name]))
    (done : s.detach dir name .movedFrom = some s') : s'.Sound := by
  unfold Inotify.detach at done
  split at done
  · rename_i isDir
    cases done
    refine sound.detach (idle.tracked sound (isDir_parent isDir)) plain isDir noFiles rfl ?_
      (by simp)
    intro q _ _ _ e waiting
    rw [idle.2] at waiting
    cases waiting
  · cases done

theorem Sound.moveDirIn {sub : DirTree ByteName} (sound : s.Sound) (plain : Plain (dir ++ [name]))
    (idle : s.Idle) (empty : sub.files = ∅)
    (done : (s.vacate dir name).attach sub dir name .movedTo = some s') : s'.Sound := by
  have sound' := sound.vacate idle.2 dir name
  have idle' := idle.vacate dir name
  unfold Inotify.attach at done
  split at done
  · rename_i clear
    cases done
    refine sound'.attach clear.1 clear.2.1 clear.2.2 empty (Or.inl (idle'.tracked sound' clear.1))
      plain rfl ?_ ?_
    · simp [idle'.2]
    · simp [idle'.2]
  · cases done

theorem detach_idle (idle : s.Idle) (sound : s.Sound)
    (done : s.detach dir name kind = some s') : ∃ wd, (dir, wd) ∈ s.tree.dirs ∧
      s' = { s with
        tree := s.tree.prune (dir ++ [name]) (by simp)
        queue := [⟨wd, kind, name⟩] } ∧ s'.path ⟨wd, kind, name⟩ = pathOf (dir ++ [name]) := by
  unfold detach at done
  split at done
  · rename_i isDir
    obtain ⟨wd, there, path, queue⟩ :=
      notify_tracked (idle.tracked sound (isDir_parent isDir)) kind name
    cases done
    refine ⟨wd, there, ?_, ?_⟩
    · rw [queue, idle.2]
      rfl
    · rw [queue]
      exact path_of_lookup path
  · cases done

theorem tracked_prune (below : p ≠ []) {queue : List Notice} (tracked : s.Tracked q)
    (outside : ¬ p <+: q) : Tracked { s with tree := s.tree.prune p below, queue := queue } q := by
  obtain ⟨wd, there, path⟩ := tracked_iff.mp tracked
  exact tracked_iff.mpr ⟨wd, (DirTree.mem_prune below).mpr ⟨there, outside⟩, path⟩

theorem Sound.renameDir {dir' : List ByteName} {name' : ByteName} (sound : s.Sound)
    (plain : Plain (dir ++ [name]) ∧ Plain (dir' ++ [name'])) (idle : s.Idle)
    (isDir : s.tree.IsDir (dir ++ [name])) (noFiles : s.NoFiles (dir ++ [name]))
    (apart : ¬ dir ++ [name] <+: dir' ++ [name']) (done : (s.detach dir name .movedFrom).bind
      (·.attach (s.tree.subtree (dir ++ [name]) isDir) dir' name' .movedTo) = some s') :
    s'.Sound := by
  obtain ⟨s₁, detached, attached⟩ := Option.bind_eq_some_iff.mp done
  have sound₁ := sound.moveDirOut plain.1 idle noFiles detached
  obtain ⟨wd, there, rfl, left⟩ := detach_idle idle sound detached
  have above : dir' <+: dir' ++ [name'] := List.prefix_append dir' [name']
  have below : dir ++ [name] ≠ [] := by simp
  unfold Inotify.attach at attached
  split at attached
  · rename_i clear
    cases attached
    have parent := ((DirTree.isDir_prune below).mp clear.1).1
    refine sound₁.attach clear.1 clear.2.1 clear.2.2 ?_ (Or.inl ?_) plain.2 rfl ?_ ?_
    · refine Finset.eq_empty_of_forall_notMem fun r inside => ?_
      exact noFiles _ (DirTree.mem_strip_files.mp inside) (List.prefix_append _ r)
    · exact tracked_prune below (idle.tracked sound parent)
        (fun inside => apart (inside.trans above))
    · -- the directory above is not in what is moved
      intro e waiting number
      cases List.mem_singleton.mp waiting
      obtain ⟨⟨r, _⟩, inside, rfl⟩ := List.mem_map.mp number
      have same := congrArg List.length (DirTree.place_unique (DirTree.mem_subtree.mp inside) there)
      simp only [List.length_append, List.length_singleton] at same
      omega
    · -- nor is the free place above the place that was left
      intro r _ e waiting same
      cases List.mem_singleton.mp waiting
      rw [left] at same
      have higher : dir' ++ [name'] <+: dir ++ [name] :=
        pathOf_injective same ▸ List.prefix_append _ r
      exact clear.2.1.1 ((DirTree.isDir_prune below).mpr ⟨DirTree.isDir_above isDir higher, apart⟩)
  · cases attached

theorem NoFiles.vacate (noFiles : s.NoFiles p) (dir : List ByteName) (name : ByteName) :
    (s.vacate dir name).NoFiles p := by
  unfold Inotify.vacate
  split
  · exact fun q there => noFiles q (Finset.mem_of_mem_filter q there)
  · exact noFiles

theorem Sound.operate {op : Operation} (sound : s.Sound) (orderly : s.Orderly (.operation op))
    (done : s.operate op = some s') : s'.Sound := by
  cases op with
  | create dir name =>
    rw [Inotify.operate] at done
    split at done
    · cases done
    · exact sound.putFile orderly rfl done
  | write dir name =>
    rw [Inotify.operate] at done
    split at done
    · exact sound.putFile orderly rfl done
    · cases done
  | unlink dir name => exact sound.takeFile orderly rfl done
  | rename dir name dir' name' =>
    obtain ⟨s₁, taken, put⟩ := Option.bind_eq_some_iff.mp done
    exact (sound.takeFile orderly.1 rfl taken).putFile
      ⟨(tracked_takeFile taken).mpr orderly.2.1, orderly.2.2⟩ rfl put
  | moveIn dir name => exact sound.putFile orderly rfl done
  | moveOut dir name => exact sound.takeFile orderly rfl done
  | mkdir dir name number =>
    rw [Inotify.operate] at done
    split at done
    · rename_i unused
      exact sound.mkdir orderly.2 orderly.1.1 orderly.1.2 unused done
    · cases done
  | rmdir dir name =>
    rw [Inotify.operate] at done
    split at done
    · rename_i empty
      exact sound.rmdir orderly empty done
    · cases done
  | renameDir dir name dir' name' =>
    rw [Inotify.operate] at done
    split at done
    · rename_i known
      exact (sound.vacate orderly.1.1.2 dir' name').renameDir orderly.2
        (orderly.1.1.vacate dir' name') known.1 (orderly.1.2.vacate dir' name') known.2 done
    · cases done
  | moveDirIn dir name sub => exact sound.moveDirIn orderly.2 orderly.1.1 orderly.1.2 done
  | moveDirOut dir name => exact sound.moveDirOut orderly.2 orderly.1.1 orderly.1.2 done

theorem Initial.sound (initial : s.Initial) : s.Sound := by
  have known : s.known = s.tree.files.image pathOf := by
    rw [Inotify.known, initial.emitted, ← initial.start]
    rfl
  have place {p : List ByteName} : pathOf p ∈ s.known ↔ p ∈ s.tree.files := by
    rw [known, pathOf_injective.mem_finset_image]
  have none {p : List ByteName} : s.expected p = decide (pathOf p ∈ s.known) :=
    expected_quiet (by simp [initial.queue])
  refine ⟨initial.ended, ?_, ?_, ?_, ?_, ?_, ?_⟩
  · simp [initial.queue]
  · intro task member
    rw [initial.tasks] at member
    cases List.mem_singleton.mp member
    rfl
  · refine fun p wd _ => Or.inr ⟨[], List.nil_prefix, Or.inr (Or.inl ⟨s.watchPath, ?_⟩)⟩
    rw [initial.tasks]
    exact List.mem_singleton_self _
  · intro p _
    rw [none, decide_eq_true_eq, place]
  · intro p isDir there
    exact s.tree.apart p (place.mp there) isDir
  · intro path there
    rw [known] at there
    obtain ⟨p, -, same⟩ := Finset.mem_image.mp there
    exact ⟨p, same⟩

end Lemmas

end Inotify

def nameD : ByteName := ⟨Utf8.encode "d", by decide⟩

def nameF : ByteName := ⟨Utf8.encode "f", by decide⟩

def nameG : ByteName := ⟨Utf8.encode "g", by decide⟩

def watchedRoot : Bytes := Utf8.encode "/w"

def reads : WatchStep := .react ⟨false, true⟩

def oneName : DirTree ByteName := (DirTree.single 0).put [] nameF (by decide) (by decide)

def startWatching (watchPath : Bytes) (tree : DirTree ByteName) : Inotify :=
  ⟨watchPath, tree, tree.files, ∅, [], [.addWatch watchPath []], [], false⟩

theorem startWatching_initial (watchPath : Bytes) (tree : DirTree ByteName) :
    (startWatching watchPath tree).Initial := ⟨rfl, rfl, rfl, rfl, rfl, rfl⟩

def populated : DirTree ByteName := (DirTree.single 1).put [] nameG (by decide) (by decide)

def nested : DirTree ByteName :=
  oneName.graft populated [] nameD (by decide) (by decide) (by decide)

structure DisorderlyRun where
  watchPath : Bytes
  tree : DirTree ByteName
  steps : List WatchStep

/-- Taken for the path of g in d. -/
def nameSlanted : ByteName := ⟨Utf8.encode "d\\g", by decide⟩

/-- Not a text. -/
def nameHigh : ByteName := ⟨[255], by decide⟩

def lateWatch : DisorderlyRun :=
  ⟨watchedRoot, oneName, [reads, reads, .operation (.mkdir [] nameD 1),
    .operation (.create [nameD] nameG), reads, reads, reads, reads]⟩

def disorderlyRuns : List DisorderlyRun :=
  [ lateWatch,
    -- a directory is moved with the file in it: in, out, and to another name
    ⟨watchedRoot, oneName, [reads, reads, .operation (.moveDirIn [] nameD populated),
      reads, reads, reads, reads]⟩,
    ⟨watchedRoot, nested, [reads, reads, reads, reads, .operation (.moveDirOut [] nameD), reads]⟩,
    ⟨watchedRoot, nested, [reads, reads, reads, reads, .operation (.renameDir [] nameD [] nameG),
      reads, reads, reads, reads, reads]⟩,
    -- a directory has the name of the file when the event of its removal is read
    ⟨watchedRoot, oneName, [reads, reads, .operation (.unlink [] nameF),
      .operation (.mkdir [] nameF 1), reads, reads, reads, reads, reads]⟩,
    -- the watched path ends in a slash
    ⟨watchedRoot ++ [Utf8.byte '/'], nested,
      [reads, reads, reads, reads, .operation (.unlink [nameD] nameG), reads]⟩,
    -- a file has the name that a directory in another one has with a backslash
    ⟨watchedRoot, oneName, [reads, reads, .operation (.mkdir [] nameD 1), reads, reads, reads, reads,
      .operation (.mkdir [nameD] nameG 2), reads, reads, reads, reads,
      .operation (.create [] nameSlanted), reads, reads]⟩,
    -- the daemon ends with the event of a file
    ⟨watchedRoot, oneName, [reads, reads, .operation (.create [] nameHigh), reads]⟩ ]

def DisorderlyRun.final (run : DisorderlyRun) : Option Inotify :=
  replay Inotify.next (fun _ _ => True) (startWatching run.watchPath run.tree) run.steps

theorem reach_final {run : DisorderlyRun} {s : Inotify} (ends : run.final = some s) :
    Reach Inotify.Initial (Runs Inotify.next) s :=
  reach_mono (fun _ _ _ step => step.1) (reach_replay
    (.start (startWatching_initial run.watchPath run.tree)) run.steps ends)

end P2PSync
