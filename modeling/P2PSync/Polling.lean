import Mathlib.Data.List.AList
import P2PSync.WatchEvents

/-! The polling watcher. Every iteration walks the directory, compares what it finds
with what it knew, and then reports as deleted what it has not seen. A walk that throws
ends early, and the rest of the iteration goes on. -/
namespace P2PSync

structure PollInfo where
  lastWriteTime : Int
  size : Nat
  deriving DecidableEq, Repr

structure PollEntry where
  relPath : Bytes
  isFile : Bool
  info : PollInfo
  deriving DecidableEq, Repr

def PollEntry.watched (e : PollEntry) : Bool :=
  e.isFile && e.relPath ≠ [] && e.relPath.head? ≠ some (Utf8.byte '.')

structure PollSnapshot where
  entries : List PollEntry
  distinct : (entries.map (·.relPath)).Nodup

def PollSnapshot.file (disk : PollSnapshot) (path : Bytes) : Option PollInfo :=
  (disk.entries.find? (fun e => e.watched && e.relPath = path)).map (·.info)

inductive PollIteration where
  | missing
  /-- The walk comes to the end, or it throws after so many entries. -/
  | walk (disk : PollSnapshot) (thrown : Option Nat)
  /-- After so many entries the watcher finds that it was stopped. -/
  | stopped (disk : PollSnapshot) (n : Nat)

def PollSnapshot.visited (disk : PollSnapshot) : Option Nat → List PollEntry
  | none => disk.entries
  | some n => disk.entries.take n

structure PollWalk where
  knownFiles : AList fun _ : Bytes => PollInfo
  seenFiles : List Bytes
  events : List WatchEvent

namespace PollWalk

def visit (s : PollWalk) (e : PollEntry) : PollWalk :=
  if !e.watched then s
  else
    let s := { s with seenFiles := e.relPath :: s.seenFiles }
    match s.knownFiles.lookup e.relPath with
    | none => { s with
      knownFiles := s.knownFiles.insert e.relPath e.info
      events := s.events ++ [⟨.created, e.relPath⟩] }
    | some known =>
      if known ≠ e.info then { s with
        knownFiles := s.knownFiles.insert e.relPath e.info
        events := s.events ++ [⟨.modified, e.relPath⟩] }
      else s

def drop (s : PollWalk) (path : Bytes) : PollWalk :=
  if path ∈ s.seenFiles then s
  else { s with
    knownFiles := s.knownFiles.erase path
    events := s.events ++ [⟨.deleted, path⟩] }

def sweep (s : PollWalk) : PollWalk := s.knownFiles.keys.foldl drop s

end PollWalk

def PollIteration.run (known : AList fun _ : Bytes => PollInfo) : PollIteration → PollWalk
  | .missing => ⟨known, [], []⟩
  | .walk disk thrown => ((disk.visited thrown).foldl PollWalk.visit ⟨known, [], []⟩).sweep
  | .stopped disk n => (disk.entries.take n).foldl PollWalk.visit ⟨known, [], []⟩

structure PollingWatcher where
  running : Bool
  knownFiles : AList fun _ : Bytes => PollInfo
  events : List WatchEvent

def PollingWatcher.iterate (w : PollingWatcher) (it : PollIteration) : PollingWatcher :=
  if w.running then
    let s := it.run w.knownFiles
    ⟨match it with
      | .stopped .. => false
      | _ => true, s.knownFiles, w.events ++ s.events⟩
  else w

def watchLoop (its : List PollIteration) : PollingWatcher :=
  its.foldl PollingWatcher.iterate ⟨true, ∅, []⟩

/-! The events of one file. -/

/-- Whether the file is known after the events: it is created, modified any number of
times, deleted, and so on. None is an event out of this order. -/
def follows : Bool → List WatchEventType → Option Bool
  | known, [] => some known
  | false, .created :: rest => follows true rest
  | true, .modified :: rest => follows true rest
  | true, .deleted :: rest => follows false rest
  | _, _ :: _ => none

def about (path : Bytes) (events : List WatchEvent) : List WatchEventType :=
  (events.filter (·.path = path)).map (·.type)

theorem follows_append (known : Bool) (a b : List WatchEventType) :
    follows known (a ++ b) = (follows known a).bind (follows · b) := by
  induction a generalizing known with
  | nil => rfl
  | cons type a ih => cases known <;> cases type <;> simp [follows, ih]

theorem about_append (path : Bytes) (a b : List WatchEvent) :
    about path (a ++ b) = about path a ++ about path b := by
  rw [about, List.filter_append, List.map_append, about, about]

theorem about_self (type : WatchEventType) (path : Bytes) : about path [⟨type, path⟩] = [type] := by
  simp [about]

theorem about_other (type : WatchEventType) {path other : Bytes} (apart : path ≠ other) :
    about path [⟨type, other⟩] = [] := by
  simp [about, apart.symm]

namespace PollWalk

def Told (start : Bytes → Bool) (s : PollWalk) : Prop :=
  ∀ path, follows (start path) (about path s.events) = some (decide (path ∈ s.knownFiles))

variable {start : Bytes → Bool} {s : PollWalk}

theorem Told.event (told : Told start s) {s' : PollWalk} {type : WatchEventType} {path : Bytes}
    (events : s'.events = s.events ++ [⟨type, path⟩])
    (fits : follows (decide (path ∈ s.knownFiles)) [type] = some (decide (path ∈ s'.knownFiles)))
    (others : ∀ q, q ≠ path → (q ∈ s'.knownFiles ↔ q ∈ s.knownFiles)) : Told start s' := by
  intro q
  rw [events, about_append, follows_append, told q, Option.bind_some]
  by_cases same : q = path
  · subst same
    rw [about_self]
    exact fits
  · rw [about_other type same]
    simp [follows, others q same]

theorem Told.visit (told : Told start s) (e : PollEntry) : Told start (s.visit e) := by
  unfold PollWalk.visit
  split
  · exact told
  · have others : ∀ q, q ≠ e.relPath →
        (q ∈ s.knownFiles.insert e.relPath e.info ↔ q ∈ s.knownFiles) := by
      intro q apart
      simp [AList.mem_insert, apart]
    simp only
    split
    · rename_i unknown
      have absent : e.relPath ∉ s.knownFiles := AList.lookup_eq_none.mp unknown
      exact told.event rfl (by simp [absent, follows]) others
    · rename_i known found
      have present : e.relPath ∈ s.knownFiles := AList.lookup_isSome.mp (by rw [found]; rfl)
      split
      · exact told.event rfl (by simp [present, follows]) others
      · exact told

theorem Told.drop (told : Told start s) {path : Bytes} (known : path ∈ s.knownFiles) :
    Told start (s.drop path) := by
  unfold PollWalk.drop
  split
  · exact told
  · refine told.event rfl (by simp [known, follows, AList.mem_erase]) ?_
    intro q apart
    simp [AList.mem_erase, apart]

theorem Told.walk (told : Told start s) (es : List PollEntry) :
    Told start (es.foldl PollWalk.visit s) := by
  induction es generalizing s with
  | nil => exact told
  | cons e es ih => exact ih (told.visit e)

/-! What the walk and the sweep leave. -/

theorem visit_seen (s : PollWalk) (e : PollEntry) (path : Bytes) :
    path ∈ (s.visit e).seenFiles ↔ path ∈ s.seenFiles ∨ e.watched = true ∧ e.relPath = path := by
  unfold PollWalk.visit
  cases e.watched with
  | false => simp
  | true =>
    simp only [Bool.not_true, Bool.false_eq_true, if_false, true_and]
    split
    · simp [or_comm, eq_comm]
    · split <;> simp [or_comm, eq_comm]

theorem visit_lookup (s : PollWalk) (e : PollEntry) (path : Bytes) :
    (s.visit e).knownFiles.lookup path =
      if e.watched = true ∧ e.relPath = path then some e.info else s.knownFiles.lookup path := by
  unfold PollWalk.visit
  cases e.watched with
  | false => simp
  | true =>
    simp only [Bool.not_true, Bool.false_eq_true, if_false, true_and]
    have inserted : (s.knownFiles.insert e.relPath e.info).lookup path =
        if e.relPath = path then some e.info else s.knownFiles.lookup path := by
      split
      · rename_i same
        rw [← same, AList.lookup_insert]
      · rename_i other
        rw [AList.lookup_insert_ne (Ne.symm other)]
    split
    · exact inserted
    · rename_i known found
      split
      · exact inserted
      · rename_i same
        split
        · rename_i here
          rw [← here, found, not_not.mp same]
        · rfl

theorem visit_deleted {s : PollWalk} {e : PollEntry} {path : Bytes}
    (emitted : ⟨.deleted, path⟩ ∈ (s.visit e).events) : ⟨.deleted, path⟩ ∈ s.events := by
  unfold PollWalk.visit at emitted
  split at emitted
  · exact emitted
  · simp only at emitted
    split at emitted
    · simpa using emitted
    · split at emitted
      · simpa using emitted
      · exact emitted

theorem walk_seen (es : List PollEntry) (s : PollWalk) (path : Bytes) :
    path ∈ (es.foldl PollWalk.visit s).seenFiles ↔
      path ∈ s.seenFiles ∨ ∃ e ∈ es, e.watched = true ∧ e.relPath = path := by
  induction es generalizing s with
  | nil => simp
  | cons e es ih => rw [List.foldl_cons, ih, visit_seen, List.exists_mem_cons_iff, or_assoc]

theorem walk_deleted {es : List PollEntry} {s : PollWalk} {path : Bytes}
    (emitted : ⟨.deleted, path⟩ ∈ (es.foldl PollWalk.visit s).events) :
    ⟨.deleted, path⟩ ∈ s.events := by
  induction es generalizing s with
  | nil => exact emitted
  | cons e es ih => exact visit_deleted (ih emitted)

theorem walk_lookup_of_unseen {es : List PollEntry} {s : PollWalk} {path : Bytes}
    (unseen : ¬ ∃ e ∈ es, e.watched = true ∧ e.relPath = path) :
    (es.foldl PollWalk.visit s).knownFiles.lookup path = s.knownFiles.lookup path := by
  induction es generalizing s with
  | nil => rfl
  | cons e es ih =>
    rw [List.exists_mem_cons_iff, not_or] at unseen
    rw [List.foldl_cons, ih unseen.2, visit_lookup, if_neg unseen.1]

theorem walk_lookup_of_seen {es : List PollEntry} (distinct : (es.map (·.relPath)).Nodup)
    {s : PollWalk} {e : PollEntry} (member : e ∈ es) (watched : e.watched = true) :
    (es.foldl PollWalk.visit s).knownFiles.lookup e.relPath = some e.info := by
  induction es generalizing s with
  | nil => cases member
  | cons e' es ih =>
    obtain ⟨fresh, distinct⟩ := List.nodup_cons.mp distinct
    rcases List.mem_cons.mp member with rfl | later
    · have unseen : ¬ ∃ e' ∈ es, e'.watched = true ∧ e'.relPath = e.relPath := by
        rintro ⟨e', member', -, same⟩
        exact fresh (List.mem_map.mpr ⟨e', member', same⟩)
      rw [List.foldl_cons, walk_lookup_of_unseen unseen, visit_lookup, if_pos ⟨watched, rfl⟩]
    · exact ih distinct later

theorem drops_spec {ks : List Bytes} (once : ks.Nodup) (s : PollWalk) :
    (ks.foldl PollWalk.drop s).seenFiles = s.seenFiles ∧
    (ks.foldl PollWalk.drop s).events =
      s.events ++ (ks.filter (· ∉ s.seenFiles)).map (⟨.deleted, ·⟩) ∧
    ∀ path, (ks.foldl PollWalk.drop s).knownFiles.lookup path =
      if path ∈ ks ∧ path ∉ s.seenFiles then none else s.knownFiles.lookup path := by
  induction ks generalizing s with
  | nil => simp
  | cons k ks ih =>
    obtain ⟨fresh, once⟩ := List.nodup_cons.mp once
    obtain ⟨seen, events, lookup⟩ := ih once (s.drop k)
    rw [List.foldl_cons, seen, events]
    by_cases kept : k ∈ s.seenFiles
    · have same : s.drop k = s := if_pos kept
      refine ⟨by rw [same], by simp [same, kept], fun path => ?_⟩
      rw [lookup, same]
      by_cases here : path = k
      · simp [here, kept]
      · simp [here]
    · have step : s.drop k = { s with
          knownFiles := s.knownFiles.erase k
          events := s.events ++ [⟨.deleted, k⟩] } := if_neg kept
      refine ⟨by rw [step], by simp [step, kept], fun path => ?_⟩
      rw [lookup, step]
      by_cases here : path = k
      · subst here
        simp [kept]
      · simp [here, AList.lookup_erase_ne here]

theorem Told.drops {ks : List Bytes} (once : ks.Nodup) {s : PollWalk} (told : Told start s)
    (known : ∀ k ∈ ks, k ∈ s.knownFiles) : Told start (ks.foldl PollWalk.drop s) := by
  induction ks generalizing s with
  | nil => exact told
  | cons k ks ih =>
    obtain ⟨fresh, once⟩ := List.nodup_cons.mp once
    refine ih once (told.drop (known k List.mem_cons_self)) (fun q later => ?_)
    have still := known q (List.mem_cons_of_mem k later)
    have apart : q ≠ k := by
      rintro rfl
      exact fresh later
    unfold PollWalk.drop
    split
    · exact still
    · exact AList.mem_erase.mpr ⟨apart, still⟩

theorem sweep_lookup (s : PollWalk) (path : Bytes) : s.sweep.knownFiles.lookup path =
      if path ∈ s.seenFiles then s.knownFiles.lookup path else none := by
  rw [sweep, (drops_spec s.knownFiles.keys_nodup s).2.2]
  by_cases seen : path ∈ s.seenFiles
  · simp [seen]
  · by_cases known : path ∈ s.knownFiles
    · simp [seen, AList.mem_keys.mp known]
    · simp [seen, AList.lookup_eq_none.mpr known]

theorem sweep_deleted {s : PollWalk} {path : Bytes} : ⟨.deleted, path⟩ ∈ s.sweep.events ↔
      ⟨.deleted, path⟩ ∈ s.events ∨ path ∈ s.knownFiles ∧ path ∉ s.seenFiles := by
  rw [sweep, (drops_spec s.knownFiles.keys_nodup s).2.1, List.mem_append]
  refine or_congr_right ?_
  simp [← AList.mem_keys]

end PollWalk

/-! One iteration. -/

section

variable (known : AList fun _ : Bytes => PollInfo) (disk : PollSnapshot) (thrown : Option Nat)
  (path : Bytes)

theorem run_told (it : PollIteration) :
    PollWalk.Told (fun path => decide (path ∈ known)) (it.run known) := by
  have start : PollWalk.Told (fun path => decide (path ∈ known)) ⟨known, [], []⟩ := fun _ => rfl
  cases it with
  | missing => exact start
  | stopped disk n => exact start.walk _
  | walk disk thrown =>
    exact (start.walk _).drops (AList.keys_nodup _) (fun k listed => AList.mem_keys.mpr listed)

theorem run_complete : ((PollIteration.walk disk none).run known).knownFiles.lookup path =
      disk.file path := by
  have seen := PollWalk.walk_seen disk.entries ⟨known, [], []⟩ path
  simp only [List.not_mem_nil, false_or] at seen
  rw [PollIteration.run, PollWalk.sweep_lookup, PollSnapshot.visited]
  cases found : disk.entries.find? (fun e => e.watched && e.relPath = path) with
  | none =>
    have unseen : ¬ ∃ e ∈ disk.entries, e.watched = true ∧ e.relPath = path := by
      rintro ⟨e, member, watched, here⟩
      have passed := List.find?_eq_none.mp found e member
      simp [watched, here] at passed
    rw [if_neg (fun listed => unseen (seen.mp listed)), PollSnapshot.file, found]
    rfl
  | some e =>
    have member := List.mem_of_find?_eq_some found
    have passed := List.find?_some found
    simp only [Bool.and_eq_true, decide_eq_true_eq] at passed
    obtain ⟨watched, rfl⟩ := passed
    rw [if_pos (seen.mpr ⟨e, member, watched, rfl⟩), PollSnapshot.file, found,
      PollWalk.walk_lookup_of_seen disk.distinct member watched]
    rfl

theorem run_deleted : ⟨.deleted, path⟩ ∈ ((PollIteration.walk disk thrown).run known).events ↔
      path ∈ known ∧ ¬ ∃ e ∈ disk.visited thrown, e.watched = true ∧ e.relPath = path := by
  rw [PollIteration.run, PollWalk.sweep_deleted, PollWalk.walk_seen]
  simp only [List.not_mem_nil, false_or]
  constructor
  · rintro (early | ⟨present, unseen⟩)
    · exact absurd (PollWalk.walk_deleted early) List.not_mem_nil
    · refine ⟨?_, unseen⟩
      rw [← AList.lookup_isSome, PollWalk.walk_lookup_of_unseen unseen] at present
      exact AList.lookup_isSome.mp present
  · rintro ⟨present, unseen⟩
    refine Or.inr ⟨?_, unseen⟩
    rw [← AList.lookup_isSome, PollWalk.walk_lookup_of_unseen unseen]
    exact AList.lookup_isSome.mpr present

end

def PollIteration.file : PollIteration → Bytes → Option PollInfo
  | .missing, _ => none
  | .walk disk _, path => disk.file path
  | .stopped disk _, path => disk.file path

theorem file_eq_none {disk : PollSnapshot} {path : Bytes} : disk.file path = none ↔
    ¬ ∃ e ∈ disk.entries, e.watched = true ∧ e.relPath = path := by
  simp [PollSnapshot.file, List.find?_eq_none]

/-! Whole runs. -/

theorem iterate_told {w : PollingWatcher}
    (told : ∀ path, follows false (about path w.events) = some (decide (path ∈ w.knownFiles)))
    (it : PollIteration) (path : Bytes) : follows false (about path (w.iterate it).events) =
      some (decide (path ∈ (w.iterate it).knownFiles)) := by
  unfold PollingWatcher.iterate
  split
  · rw [about_append, follows_append, told path, Option.bind_some]
    exact run_told w.knownFiles it path
  · exact told path

theorem watchLoop_told (its : List PollIteration) (path : Bytes) :
    follows false (about path (watchLoop its).events) =
      some (decide (path ∈ (watchLoop its).knownFiles)) := by
  have keeps : ∀ (its : List PollIteration) (w : PollingWatcher),
      (∀ path, follows false (about path w.events) = some (decide (path ∈ w.knownFiles))) →
      ∀ path, follows false (about path (its.foldl PollingWatcher.iterate w).events) =
        some (decide (path ∈ (its.foldl PollingWatcher.iterate w).knownFiles)) := by
    intro its
    induction its with
    | nil => exact fun w told => told
    | cons it its ih => exact fun w told => ih (w.iterate it) (iterate_told told it)
  exact keeps its _ (fun _ => rfl) path

theorem watchLoop_concat (before : List PollIteration) (it : PollIteration) :
    watchLoop (before ++ [it]) = (watchLoop before).iterate it := by
  rw [watchLoop, List.foldl_append]
  rfl

/-- In every run the events of a file are in order, and a walk that comes to its end
leaves the files of the disk. A file that is on the disk is reported as deleted exactly
if a walk throws before it comes to a known file. -/
theorem polling_exact_iff (its : List PollIteration) :
    (∀ path, (follows false (about path (watchLoop its).events)).isSome) ∧
    (∀ before disk, before ++ [.walk disk none] <+: its → (watchLoop before).running = true →
      ∀ path, (watchLoop (before ++ [.walk disk none])).knownFiles.lookup path =
        disk.file path) ∧
    ((∀ before it path, before ++ [it] <+: its → (watchLoop before).running = true →
        ⟨.deleted, path⟩ ∈ (it.run (watchLoop before).knownFiles).events →
          path ∈ (watchLoop before).knownFiles ∧ it.file path = none) ↔
      ∀ before disk n, before ++ [.walk disk (some n)] <+: its →
        (watchLoop before).running = true →
        ∀ path ∈ (watchLoop before).knownFiles, (disk.file path).isSome →
          ∃ e ∈ disk.entries.take n, e.watched = true ∧ e.relPath = path) := by
  refine ⟨?_, ?_, ?_, ?_⟩
  · intro path
    rw [watchLoop_told]
    rfl
  · intro before disk _ running path
    rw [watchLoop_concat, PollingWatcher.iterate, if_pos running]
    · exact run_complete _ disk path
    · intro disk' n stopped
      cases stopped
  · intro sound before disk n part running path known there
    by_contra unseen
    have emitted := (run_deleted (watchLoop before).knownFiles disk (some n) path).mpr ⟨known, unseen⟩
    have gone := (sound before (.walk disk (some n)) path part running emitted).2
    rw [PollIteration.file] at gone
    rw [gone] at there
    cases there
  · intro reached before it path part running emitted
    cases it with
    | missing => cases emitted
    | stopped disk n => exact absurd (PollWalk.walk_deleted emitted) List.not_mem_nil
    | walk disk thrown =>
      obtain ⟨known, unseen⟩ := (run_deleted _ disk thrown path).mp emitted
      refine ⟨known, ?_⟩
      cases thrown with
      | none => exact file_eq_none.mpr unseen
      | some n =>
        by_contra there
        exact unseen (reached before disk n part running path known
          (Option.isSome_iff_ne_none.mpr there))

def nameA : Bytes := Utf8.encode "a"

def nameB : Bytes := Utf8.encode "b"

def twoFiles : PollSnapshot :=
  ⟨[⟨nameA, true, ⟨1, 0⟩⟩, ⟨Utf8.encode "d", false, ⟨1, 0⟩⟩, ⟨nameB, true, ⟨1, 0⟩⟩], by decide⟩

/-- The second walk throws where the directory cannot be read: the file after it is
reported as deleted, and by the next walk as new. -/
theorem thrown_walk_deletes : twoFiles.file nameB = some ⟨1, 0⟩ ∧
    ((PollIteration.walk twoFiles (some 2)).run
      (watchLoop [.walk twoFiles none]).knownFiles).events = [⟨.deleted, nameB⟩] ∧
    about nameB (watchLoop [.walk twoFiles none, .walk twoFiles (some 2),
      .walk twoFiles none]).events = [.created, .deleted, .created] := by
  decide

end P2PSync
