import P2PSync.Host

/-! A peer that stops or crashes at any point and starts again. The store and the
files stay; queue, pending downloads, timers and everything under way are lost.
The workers that Start launches scan their directories. -/
namespace P2PSync

open Transition

def DB.maxVersion (db : DB) : Int := (db.fileMetadata.entries.map (·.2.version)).foldl max 0

def DB.activeRepositories (db : DB) : List Repository :=
  (db.repositories.entries.map Sigma.snd).filter (fun repo => repo.status = .active)

def loadVectorClocks (db : DB) : VectorClock :=
  (db.repositories.entries.flatMap (fun repo => db.listByRepository repo.1 true)).foldl
    (fun vc m => vc.merge ((m.vectorClock.map (·.clocks)).getD ∅)) .new

def SyncCoordinator.start (sc : SyncCoordinator) : SyncCoordinator :=
  { SyncCoordinator.new sc.localPeerID with
    db := sc.db
    workers := sc.db.activeRepositories.map (·.id)
    repoSemaphores := sc.db.activeRepositories.map (·.id)
    lamportClock := ⟨Binary64.wrapUint64 sc.db.maxVersion⟩
    vectorClock := loadVectorClocks sc.db }

def Host.restart (h : Host) : Host where
  sc := h.sc.start
  daemons := h.sc.db.activeRepositories.map (fun repo => ⟨repo.id, repo.localPath⟩)
  disk := h.disk
  running := []
  timers := []
  requests := []
  inbox := []

def Host.holds (rt : Runtime) (h : Host) (repoID file : String) : Bool :=
  (h.filePath repoID file).any (fun path => (h.disk (placeOf path)).any (fun data =>
    (h.sc.db.get repoID file).any (fun m => m.hash = rt.sha256 data)))

structure Machine where
  host : Host
  /-- History: the rows that a peer's update made and whose content has not been
  on the disk since. -/
  awaited : List (String × String)

inductive MachineEvent where
  | host (event : HostEvent)
  | restart
  /-- A worker's scan, with what the walk of the directory gives. -/
  | scan (repoID : String) (scanStart now : Int) (items : List WalkItem)

def Host.accepts (h : Host) : HostEvent → Option (String × String)
  | .message _ peerID (.fileMetadataUpdate repoID u) _ =>
    if ignoredPath u.path = false ∧ (decision h.sc peerID repoID u).action = .acceptRemote ∧
      u.isDeleted = false ∧ repoID ∈ h.sc.db.repositories then some (repoID, u.path) else none
  | _ => none

namespace Machine

def advance (rt : Runtime) (s : Machine) (after : Host) (accepted : Option (String × String)) :
    Machine where
  host := after
  awaited := (accepted.toList ++ s.awaited.filter (fun key =>
    after.sc.db.get key.1 key.2 = s.host.sc.db.get key.1 key.2)).filter
      (fun key => !after.holds rt key.1 key.2)

def next (rt : Runtime) (s : Machine) : MachineEvent → Option Machine
  | .host event => (s.host.next rt event).map (s.advance rt · (s.host.accepts event))
  | .restart => some (s.advance rt s.host.restart none)
  | .scan repoID scanStart now items =>
    if repoID ∈ s.host.sc.workers then
      let result := scanAndIndexLocalFiles s.host.sc scanStart now repoID items
      some (s.advance rt (({ s.host with sc := result.sc }).performAll result.out) none)
    else none

def Initial (s : Machine) : Prop := s.host.Initial ∧ s.awaited = []

def Awaits (rt : Runtime) (s : Machine) : Prop :=
  ∀ key ∈ s.awaited, LiveRow key.1 key.2 s.host.sc ∧ s.host.holds rt key.1 key.2 = false

theorem accepted_live {rt : Runtime} {h after : Host} {event : HostEvent} {key : String × String}
    (accepted : h.accepts event = some key) (moved : h.next rt event = some after) :
    LiveRow key.1 key.2 after.sc := by
  unfold Host.accepts at accepted
  split at accepted
  · rename_i now peerID repoID u env
    split at accepted
    · rename_i taken
      obtain ⟨heard, accept, alive, known⟩ := taken
      cases accepted
      cases moved
      rw [LiveRow, Host.performAll_sc]
      refine ⟨{ acceptedMeta repoID u with updatedAt := now }, ?_, alive⟩
      have row := peer_row rt now env.missing peerID u known repoID u.path
      rwa [if_pos ⟨heard, accept, rfl⟩] at row
    · cases accepted
  · cases accepted

theorem awaits_advance {rt : Runtime} {s : Machine} (awaits : s.Awaits rt) {after : Host}
    {accepted : Option (String × String)}
    (new : ∀ key, accepted = some key → LiveRow key.1 key.2 after.sc) :
    (s.advance rt after accepted).Awaits rt := by
  intro key mem
  obtain ⟨mem, absent⟩ := List.mem_filter.mp mem
  rw [Bool.not_eq_true'] at absent
  refine ⟨?_, absent⟩
  rcases List.mem_append.mp mem with fresh | old
  · exact new key (Option.mem_toList.mp fresh)
  · obtain ⟨mem, same⟩ := List.mem_filter.mp old
    obtain ⟨m, row, alive⟩ := (awaits key mem).1
    exact ⟨m, (of_decide_eq_true same).trans row, alive⟩

theorem awaits_next {rt : Runtime} {s s' : Machine} {event : MachineEvent} (awaits : s.Awaits rt)
    (moved : s.next rt event = some s') : s'.Awaits rt := by
  cases event with
  | host event =>
    obtain ⟨after, step, rfl⟩ := Option.map_eq_some_iff.mp moved
    exact awaits_advance awaits (fun key accepted => accepted_live accepted step)
  | restart =>
    cases moved
    exact awaits_advance awaits (by simp)
  | scan repoID scanStart now items =>
    simp only [next] at moved
    split at moved
    · cases moved
      exact awaits_advance awaits (by simp)
    · cases moved

theorem awaits_reach {rt : Runtime} {s : Machine}
    (reached : Reach Initial (Runs (next rt)) s) : s.Awaits rt := by
  apply reach_invariant (Awaits rt) _ _ reached
  · rintro s ⟨-, none⟩ key mem
    rw [none] at mem
    cases mem
  · intro s event s' awaits moved
    exact awaits_next awaits moved

end Machine

/-- In every run with any number of crashes, a scan leaves the row of a file that
has not arrived exactly if the walk fails, the row is not older than the scan, or
the walk meets another content under its name. -/
theorem awaited_survives_iff {rt : Runtime} {s s' : Machine}
    (reached : Reach Machine.Initial (Runs (Machine.next rt)) s)
    {repoID file : String} (awaited : (repoID, file) ∈ s.awaited) {m : FileMetadata}
    (row : s.host.sc.db.get repoID file = some m) {scanStart now : Int} {items : List WalkItem}
    (scanned : s.next rt (.scan repoID scanStart now items) = some s') :
    ¬ DeadRow repoID file s'.host.sc ↔
      items.all WalkItem.completes = false ∨ scanStart ≤ m.updatedAt ∨
        file ∈ items.filterMap WalkItem.met := by
  obtain ⟨⟨m', row', alive⟩, -⟩ := Machine.awaits_reach reached (repoID, file) awaited
  cases Option.some.inj (row.symm.trans row')
  simp only [Machine.next] at scanned
  split at scanned
  · cases scanned
    simp only [Machine.advance]
    rw [Host.performAll_sc, scan_dead_iff scanStart now items row alive, not_and_or, not_and_or,
      Bool.not_eq_true, not_lt, not_not]
  · cases scanned

def crashRun : List MachineEvent :=
  [.host (.message 5 "a" (.fileMetadataUpdate "r" ⟨"f", "h", 1, 1, 4, false, 420, none⟩) Env.fine),
    .restart]

def awaitingMachine : Machine := ⟨Host.started "b" "r" "/r" ["a"], []⟩

theorem awaitingMachine_initial : awaitingMachine.Initial :=
  ⟨Host.started_initial "b" "r" "/r" ["a"], rfl⟩

def olderWalk :
    List WalkItem := [.entry "." true none, .entry "f" false (some ⟨1, 3, 420, some "o"⟩)]

theorem awaited_survives_iff_olderWalk : ∃ s s' : Machine,
    ("r", "f") ∈ s.awaited ∧
    s.next .plain (.scan "r" 100 101 olderWalk) = some s' ∧ ¬ DeadRow "r" "f" s'.host.sc := by
  obtain ⟨s, reached, awaited, active⟩ := reach_of_replay (Machine.next .plain)
    (fun _ _ => True) (.start awaitingMachine_initial) crashRun
    (fun s => ("r", "f") ∈ s.awaited ∧ "r" ∈ s.host.sc.workers) (by decide +kernel)
  have run : Reach Machine.Initial (Runs (Machine.next .plain)) s :=
    reach_mono (fun _ _ _ step => step.1) reached
  obtain ⟨⟨m, row, -⟩, -⟩ := Machine.awaits_reach run ("r", "f") awaited
  exact ⟨s, _, awaited, if_pos active,
    (awaited_survives_iff run awaited row (if_pos active)).mpr (Or.inr (Or.inr (by decide)))⟩

theorem crash_deletes_awaited : ∃ s : Machine,
    Reach Machine.Initial (Guarded (Runs (Machine.next .plain))
      (fun _ _ => True)) s ∧
    ("r", "f") ∈ s.awaited ∧ s.host.disk (placeOf "/r/f") = none ∧
    (s.next .plain (.scan "r" 100 101 [.entry "." true none])).any (fun s' =>
      (s'.host.sc.db.get "r" "f").any (fun m => m.isDeleted)) = true :=
  reach_of_replay (Machine.next .plain) (fun _ _ => True)
    (.start awaitingMachine_initial)
    crashRun (fun s => ("r", "f") ∈ s.awaited ∧ s.host.disk (placeOf "/r/f") = none ∧
      (s.next .plain (.scan "r" 100 101 [.entry "." true none])).any (fun s' =>
        (s'.host.sc.db.get "r" "f").any (fun m => m.isDeleted)) = true) (by decide +kernel)

end P2PSync
