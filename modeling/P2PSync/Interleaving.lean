import P2PSync.Library.Transition
import P2PSync.Transfer

/-! Handlers that run at the same time. Each of them reads the row of a path,
computes a new one from what it read and saves it; the read and the save are
single accesses to the database, and no lock is held between them. -/
namespace P2PSync

open Transition

inductive Job where
  | localChange (repoID path : String) (payload : FileChangedPayload)
  | peerUpdate (peerID repoID : String) (u : Update)
  | inlineResponse (path : String) (details : PendingDownload) (data : Content)

namespace Job

def key : Job → String × String
  | .localChange repoID path _ => (repoID, path)
  | .peerUpdate _ repoID u => (repoID, u.path)
  | .inlineResponse path details _ => (details.repoID, path)

def begins (sc : SyncCoordinator) : Job → Bool
  | .localChange repoID path payload =>
    repoID ∈ sc.workers ∧ path = relativePath sc repoID payload.path ∧ hasSuffix path ".tmp" = false
  | .peerUpdate _ _ u => !ignoredPath u.path
  | .inlineResponse path details _ =>
    (sc.db.getRepository details.repoID).isSome && !traversal path

def prepare (sc : SyncCoordinator) : Job → SyncCoordinator
  | .peerUpdate _ _ u => mergeRemoteClock sc u
  | _ => sc

def saves (rt : Runtime) (sc : SyncCoordinator) (now : Int) (read : Option FileMetadata) :
    Job → Option FileMetadata
  | .localChange repoID path payload =>
    if read.any (redundant · payload) then none
    else
      some (localMeta repoID path payload (nextVersion read payload) (tickClocks sc).vectorClock)
  | .peerUpdate peerID repoID u =>
    if (resolve (ownVersion sc read) (remoteVersion peerID u)).action = .acceptRemote then
      some (acceptedMeta repoID u)
    else none
  | .inlineResponse path details data =>
    some { inlineMeta sc.db now path details data (rt.sha256 data) with
      version := match read with
        | some m => m.version
        | none => 1 }

def tick (sc : SyncCoordinator) : Job → SyncCoordinator
  | .localChange .. => tickClocks sc
  | .peerUpdate _ _ u => { sc with lamportClock := sc.lamportClock.witness u.decodedVersion }
  | .inlineResponse .. => sc

def store (rt : Runtime) (sc : SyncCoordinator) (now : Int) (read : Option FileMetadata)
    (job : Job) : SyncCoordinator :=
  match job.saves rt sc now read with
  | none => sc
  | some m => { job.tick sc with db := (sc.db.save now m).getD sc.db }

section

variable {rt : Runtime} {sc : SyncCoordinator} {now : Int} {read : Option FileMetadata} {job : Job}
  {m : FileMetadata}

theorem saves_key (saved : job.saves rt sc now read = some m) :
    (m.repositoryID, m.filepath) = job.key := by
  cases job with
  | localChange repoID path payload =>
    simp only [saves, Option.ite_none_left_eq_some, Option.some.injEq] at saved
    obtain ⟨-, rfl⟩ := saved
    rfl
  | peerUpdate peerID repoID u =>
    simp only [saves, Option.ite_none_right_eq_some, Option.some.injEq] at saved
    obtain ⟨-, rfl⟩ := saved
    rfl
  | inlineResponse path details data =>
    cases saved
    rfl

/-! A handler that is not disturbed between its read and its save does what the
handler of the coordinator does in one step. -/

theorem localChange_alone {repoID path : String} {payload : FileChangedPayload}
    (begun : (localChange repoID path payload).begins sc = true) :
    ((localChange repoID path payload).store rt sc now (sc.db.get repoID path)).db =
      (handleLocalFileChanged sc now repoID payload).sc.db := by
  obtain ⟨active, rfl, kept⟩ := of_decide_eq_true begun
  have ticked : (tickClocks sc).db = sc.db := rfl
  simp only [store, saves, handleLocalFileChanged, active, kept, not_true_eq_false, if_false,
    Bool.false_eq_true, ticked]
  cases (sc.db.get repoID (relativePath sc repoID payload.path)).any (redundant · payload) with
  | true => simp
  | false =>
    simp only [Bool.false_eq_true, if_false]
    cases sc.db.save now (localMeta repoID (relativePath sc repoID payload.path) payload
      (nextVersion (sc.db.get repoID (relativePath sc repoID payload.path)) payload)
      (tickClocks sc).vectorClock) <;> rfl

theorem peerUpdate_alone {peerID repoID : String} {u : Update} (missing : Bool)
    (begun : (peerUpdate peerID repoID u).begins sc = true) :
    ((peerUpdate peerID repoID u).store rt (mergeRemoteClock sc u) now
        (sc.db.get repoID u.path)).db =
      (handlePeerMetadataUpdate rt sc now missing peerID repoID u).1.db := by
  have heard : ignoredPath u.path = false := by simpa [begins] using begun
  rw [handlePeerMetadataUpdate_db]
  simp only [store, saves, ownVersion_mergeRemoteClock, mergeRemoteClock_db, heard, true_and]
  by_cases accept : (decision sc peerID repoID u).action = .acceptRemote
  · rw [if_pos accept]
    rw [decision] at accept
    simp only [if_pos accept]
  · rw [if_neg accept]
    rw [decision] at accept
    simp only [if_neg accept, mergeRemoteClock_db]

theorem inlineResponse_alone {env : Env} {path : String} {payload : FileResponsePayload}
    {details : PendingDownload} {data : Content} {repo : Repository}
    (checked : inlineData rt sc path payload details = some (data, repo))
    (wrote : env.wrote = true) :
    ((inlineResponse path details data).store rt sc now (sc.db.get details.repoID path)).db =
      (writeInline rt sc now env path payload details).sc.db := by
  rw [writeInline_eq, checked]
  simp only [wrote, if_true]
  rfl

def fits (read : Option FileMetadata) : Job → Bool
  | .localChange .. => rowVersion read + 1 < 2 ^ 63
  | .peerUpdate _ _ u => u.decodedVersion < 2 ^ 63
  | .inlineResponse .. => true

theorem saves_above (saved : job.saves rt sc now read = some m)
    (range : ∀ r, read = some r → 0 ≤ r.version ∧ r.version < 2 ^ 63)
    (fits : job.fits read = true) :
    rowVersion read ≤ m.version ∧ 0 ≤ m.version ∧ m.version < 2 ^ 63 := by
  cases job with
  | localChange repoID path payload =>
    simp only [saves, Option.ite_none_left_eq_some, Option.some.injEq] at saved
    obtain ⟨-, rfl⟩ := saved
    have small := of_decide_eq_true fits
    cases read with
    | none => simp [localMeta, nextVersion, rowVersion]
    | some r =>
      obtain ⟨nonneg, bound⟩ := range r rfl
      simp only [rowVersion] at small
      have next : Binary64.wrapInt64 (r.version + 1) = r.version + 1 :=
        Binary64.wrapInt64_of_range (by omega) small
      simp only [localMeta, nextVersion, rowVersion, next]
      split <;> omega
  | peerUpdate peerID repoID u =>
    simp only [saves, Option.ite_none_right_eq_some, Option.some.injEq] at saved
    obtain ⟨accept, rfl⟩ := saved
    have small := of_decide_eq_true fits
    have stored : Binary64.wrapInt64 u.decodedVersion = u.decodedVersion :=
      Binary64.wrapInt64_of_range (by omega) (by omega)
    have below := ((resolve_accept_iff _ _).mp accept).2
    rw [rank_lt_iff] at below
    simp only [acceptedMeta, stored]
    cases read with
    | none =>
      simp only [rowVersion]
      omega
    | some r =>
      obtain ⟨nonneg, bound⟩ := range r rfl
      have wrap := Binary64.wrapUint64_of_range nonneg (by omega)
      simp only [ownVersion, remoteVersion] at below
      simp only [rowVersion]
      omega
  | inlineResponse path details data =>
    cases saved
    cases read with
    | none => simp [rowVersion]
    | some r =>
      obtain ⟨nonneg, bound⟩ := range r rfl
      exact ⟨le_refl _, nonneg, bound⟩

end

theorem store_row (rt : Runtime) (sc : SyncCoordinator) (now : Int) (read : Option FileMetadata)
    (job : Job) (repoID file : String) :
    (job.store rt sc now read).db.get repoID file = sc.db.get repoID file ∨
      job.key = (repoID, file) ∧ ∃ m, job.saves rt sc now read = some m ∧
        (job.store rt sc now read).db.get repoID file = some { m with updatedAt := now } := by
  cases saved : job.saves rt sc now read with
  | none => exact Or.inl (by simp only [store, saved])
  | some m =>
    have stored : (job.store rt sc now read).db = (sc.db.save now m).getD sc.db := by
      simp only [store, saved]
    have place := saves_key saved
    rw [stored]
    cases done : sc.db.save now m with
    | none => exact Or.inl rfl
    | some db =>
      by_cases here : job.key = (repoID, file)
      · obtain ⟨repo, path⟩ := Prod.mk.inj (place.trans here)
        refine Or.inr ⟨here, m, rfl, ?_⟩
        rw [← repo, ← path]
        exact DB.get_save_self done
      · exact Or.inl (DB.get_save_other done (fun same => here (place.symm.trans same.symm)))

end Job

structure Handlers where
  sc : SyncCoordinator
  running : List (Job × Option (Option FileMetadata))

inductive HandlerStep where
  | start (job : Job)
  | get (i : Nat)
  | save (i : Nat) (now : Int)

def Handlers.next (rt : Runtime) (h : Handlers) : HandlerStep → Option Handlers
  | .start job =>
    if job.begins h.sc then some { h with running := h.running ++ [(job, none)] } else none
  | .get i =>
    match h.running[i]? with
    | some (job, none) =>
      some ⟨job.prepare h.sc,
        h.running.set i (job, some (h.sc.db.get job.key.1 job.key.2))⟩
    | _ => none
  | .save i now =>
    match h.running[i]? with
    | some (job, some read) => some ⟨job.store rt h.sc now read, h.running.eraseIdx i⟩
    | _ => none

section Monotone

variable (repoID file : String)

def undisturbed (h : Handlers) : HandlerStep → Bool
  | .save i _ =>
    match h.running[i]? with
    | some (job, some read) => job.key ≠ (repoID, file) ∨
        (rowVersion (h.sc.db.get repoID file) ≤ rowVersion read ∧ job.fits read)
    | _ => true
  | _ => true

structure Handlers.Idle (h : Handlers) : Prop where
  idle : h.running = []
  range : ∀ m, h.sc.db.get repoID file = some m → 0 ≤ m.version ∧ m.version < 2 ^ 63

structure Handlers.Ranged (h : Handlers) : Prop where
  row : ∀ m, h.sc.db.get repoID file = some m → 0 ≤ m.version ∧ m.version < 2 ^ 63
  read : ∀ job m, (job, some (some m)) ∈ h.running → job.key = (repoID, file) →
    0 ≤ m.version ∧ m.version < 2 ^ 63

variable {repoID file} {h after : Handlers}

theorem Job.prepare_db (sc : SyncCoordinator) (job : Job) : (job.prepare sc).db = sc.db := by
  cases job with
  | peerUpdate peerID repoID u => exact mergeRemoteClock_db sc u
  | localChange => rfl
  | inlineResponse => rfl

theorem undisturbed_next (rt : Runtime) {step : HandlerStep} (ranged : h.Ranged repoID file)
    (stepped : h.next rt step = some after) (good : undisturbed repoID file h step = true) :
    after.Ranged repoID file ∧ ∀ m, h.sc.db.get repoID file = some m →
      ∃ m', after.sc.db.get repoID file = some m' ∧ m.version ≤ m'.version := by
  cases step with
  | start job =>
    simp only [Handlers.next, Option.ite_none_right_eq_some, Option.some.injEq] at stepped
    obtain ⟨-, rfl⟩ := stepped
    refine ⟨⟨ranged.row, ?_⟩, fun m row => ⟨m, row, le_refl _⟩⟩
    intro job' m member here
    rcases List.mem_append.mp member with old | new
    · exact ranged.read job' m old here
    · simp at new
  | get i =>
    simp only [Handlers.next] at stepped
    split at stepped
    · rename_i job at_
      cases stepped
      have rows : (job.prepare h.sc).db.get repoID file = h.sc.db.get repoID file := by
        rw [job.prepare_db]
      refine ⟨⟨fun m row => ranged.row m (rows ▸ row), ?_⟩, fun m row => ⟨m, rows.trans row, le_refl _⟩⟩
      intro job' m member here
      rcases List.mem_or_eq_of_mem_set member with old | new
      · exact ranged.read job' m old here
      · simp only [Prod.mk.injEq, Option.some.injEq] at new
        obtain ⟨rfl, row⟩ := new
        rw [here] at row
        exact ranged.row m row.symm
    · cases stepped
  | save i now =>
    simp only [Handlers.next] at stepped
    split at stepped
    · rename_i job read at_
      cases stepped
      have others : ∀ job' m, (job', some (some m)) ∈ h.running.eraseIdx i →
          job'.key = (repoID, file) → 0 ≤ m.version ∧ m.version < 2 ^ 63 :=
        fun job' m member => ranged.read job' m ((mem_eraseIdx_or at_).mpr (Or.inr member))
      rcases job.store_row rt h.sc now read repoID file with same | ⟨here, m', saved, row'⟩
      · refine ⟨⟨fun m row => ranged.row m (same ▸ row), others⟩, fun m row => ?_⟩
        exact ⟨m, same.trans row, le_refl _⟩
      · simp only [undisturbed, at_, decide_eq_true_eq] at good
        obtain ⟨kept, fits⟩ := good.resolve_left (not_not.mpr here)
        have range : ∀ r, read = some r → 0 ≤ r.version ∧ r.version < 2 ^ 63 := by
          rintro r rfl
          exact ranged.read job r (List.mem_of_getElem? at_) here
        obtain ⟨above, bounds⟩ := Job.saves_above saved range fits
        refine ⟨⟨?_, others⟩, ?_⟩
        · intro m row
          cases Option.some.inj (row.symm.trans row')
          exact bounds
        · intro m row
          rw [row, rowVersion] at kept
          exact ⟨_, row', kept.trans above⟩
    · cases stepped

/-- Between any two points of a run in which no handler is overtaken, the row
stays and its number does not go down. -/
theorem version_never_decreases (rt : Runtime) {late : Handlers}
    (reached : Reach (Handlers.Idle repoID file)
      (Guarded (Runs (Handlers.next rt))
        (fun h step => undisturbed repoID file h step = true)) h) (later : Reach (h = ·)
      (Guarded (Runs (Handlers.next rt))
        (fun h step => undisturbed repoID file h step = true)) late) {m : FileMetadata}
    (row : h.sc.db.get repoID file = some m) :
    ∃ m', late.sc.db.get repoID file = some m' ∧ m.version ≤ m'.version := by
  have ranged : h.Ranged repoID file := by
    refine reach_invariant (Handlers.Ranged repoID file) ?_ ?_ reached
    · intro s start
      refine ⟨start.range, fun job m member => ?_⟩
      rw [start.idle] at member
      cases member
    · rintro s step t before ⟨stepped, good⟩
      exact (undisturbed_next rt before stepped good).1
  refine (reach_invariant (fun t => Handlers.Ranged repoID file t ∧
    ∃ m', t.sc.db.get repoID file = some m' ∧ m.version ≤ m'.version) ?_ ?_ later).2
  · rintro s rfl
    exact ⟨ranged, m, row, le_refl _⟩
  · rintro s step t ⟨before, m', held, above⟩ ⟨stepped, good⟩
    obtain ⟨kept, grows⟩ := undisturbed_next rt before stepped good
    obtain ⟨m'', row', higher⟩ := grows m' held
    exact ⟨kept, m'', row', above.trans higher⟩

end Monotone

def Handlers.fresh : Handlers := ⟨addRepository (.new "a") 0 "r" "/r", []⟩

theorem Handlers.fresh_idle : Handlers.fresh.Idle "r" "f" where
  idle := rfl
  range := by
    intro m row
    have none : Handlers.fresh.sc.db.get "r" "f" = none := rfl
    rw [none] at row
    cases row

def addJob : Job := .localChange "r" "f" ⟨.add, "f", "h", 1, 5, 420⟩

def modifyJob : Job := .localChange "r" "f" ⟨.modify, "f", "k", 1, 6, 420⟩

def remoteJob : Job := .peerUpdate "b" "r" ⟨"f", "g", 1, 5, 7, false, 420, none⟩

def orderedRun : List HandlerStep :=
  [.start remoteJob, .get 0, .save 0 0, .start modifyJob, .get 0, .save 0 0]

theorem version_never_decreases_orderedRun : ∃ (late : Handlers) (m' : FileMetadata),
    late.sc.db.get "r" "f" = some m' ∧ 1 ≤ m'.version := by
  obtain ⟨h, reached, row, waits⟩ := reach_of_replay (Handlers.next .plain)
    (fun h step => undisturbed "r" "f" h step = true) (.start Handlers.fresh_idle)
    [.start addJob, .get 0, .save 0 0]
    (fun h => (h.sc.db.get "r" "f").any (fun m => decide (m.version = 1)) = true ∧
      (replay (Handlers.next .plain)
        (fun h step => undisturbed "r" "f" h step = true) h orderedRun).any
          (fun _ => decide True) = true) (by decide)
  obtain ⟨late, later, -⟩ := reach_of_replay _ _ (.start (rfl : h = _)) _ _ waits
  cases held : h.sc.db.get "r" "f" with
  | none =>
    rw [held] at row
    cases row
  | some m =>
    rw [held, Option.any_some, decide_eq_true_eq] at row
    obtain ⟨m', kept, above⟩ := version_never_decreases .plain reached later held
    exact ⟨late, m', kept, row ▸ above⟩

/-- A local change reads the row before an update from a peer is saved, and saves
its own after it. -/
def overtakenRun : List HandlerStep :=
  [.start addJob, .get 0, .save 0 0, .start modifyJob, .start remoteJob, .get 0, .get 1, .save 1 0]

theorem overtaken_save_loses : ∃ h,
    Reach (Handlers.Idle "r" "f")
      (Guarded (Runs (Handlers.next .plain)) (fun _ _ => True)) h ∧
    (h.sc.db.get "r" "f").any (fun m => decide (m.version = 5 ∧ m.hash = "g")) = true ∧
    (h.next .plain (.save 0 0)).any (fun after =>
      (after.sc.db.get "r" "f").any (fun m => decide (m.version = 2 ∧ m.hash = "k"))) = true :=
  reach_of_replay (Handlers.next .plain) (fun _ _ => True)
    (.start Handlers.fresh_idle) overtakenRun _ (by decide)

end P2PSync
