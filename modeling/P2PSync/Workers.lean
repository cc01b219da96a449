import P2PSync.Restart

/-! The worker of each repository: a goroutine that reads its repository from the store,
scans the directory and starts a daemon there. The coordinator keeps one stop channel
per repository; a repository that is added again keeps the worker it has. -/
namespace P2PSync

open Transition

/-- How far a worker's goroutine has come. -/
inductive Watch where
  | starting
  | unreadable
  | unknown
  | scanning (root : String)
  | watching (root : String)
  | exited
  deriving DecidableEq, Repr

def Watch.root : Watch → Option String
  | .scanning root | .watching root => some root
  | _ => none

structure Worker where
  repoID : String
  watch : Watch
  stopped : Bool
  deriving DecidableEq, Repr

structure Crew where
  host : Host
  /-- Every goroutine that was started; its number stands for its stop channel. -/
  goroutines : List Worker
  /-- The stop channels in the coordinator's map. -/
  stopCh : AList fun _ : String => Nat
  /-- History: the path with which a repository was last added since its running
  worker has read it. -/
  readded : String → Option String

inductive CrewEvent where
  | addRepository (now : Int) (repoID cleanedPath : String) (saved : Bool)
  | removeRepository (repoID : String) (deleted : Bool)
  | read (i : Nat) (ok : Bool)
  | scan (i : Nat) (scanStart now : Int) (items : List WalkItem)
  | spawn (i : Nat)
  | exit (i : Nat)
  | host (event : HostEvent)

namespace Crew

def sc (c : Crew) : SyncCoordinator := c.host.sc

def startRepoWorkerLocked (c : Crew) (repoID : String) : Crew :=
  if repoID ∈ c.stopCh then c
  else { c with
    goroutines := c.goroutines ++ [⟨repoID, .starting, false⟩]
    stopCh := c.stopCh.insert repoID c.goroutines.length }

def closeStopCh (c : Crew) (repoID : String) : Crew :=
  match c.stopCh.lookup repoID with
  | some i => { c with
    goroutines := c.goroutines.modify i ({ · with stopped := true })
    stopCh := c.stopCh.erase repoID }
  | none => c

def setWatch (c : Crew) (i : Nat) (watch : Watch) : Crew :=
  { c with goroutines := c.goroutines.modify i ({ · with watch := watch }) }

def forget (c : Crew) (w : Worker) : Crew :=
  if w.stopped then c else { c with readded := Function.update c.readded w.repoID none }

def lookUp (c : Crew) (repoID : String) : Watch :=
  match c.sc.db.getRepository repoID with
  | some repo => .scanning repo.localPath
  | none => .unknown

def daemons (c : Crew) : List Daemon :=
  c.goroutines.filterMap fun w =>
    match w.watch with
    | .watching root => some ⟨w.repoID, root⟩
    | _ => none

def next (rt : Runtime) (c : Crew) : CrewEvent → Option Crew
  | .addRepository now repoID cleanedPath saved =>
    if saved then
      let sc := P2PSync.addRepository c.sc now repoID cleanedPath
      some (({ c with
        host := { c.host with sc := sc }
        readded := Function.update c.readded repoID (some cleanedPath) }).startRepoWorkerLocked
          repoID)
    else some c
  | .removeRepository repoID deleted =>
    match P2PSync.removeRepository c.sc repoID, deleted with
    | some sc, true => some (({ c with host := { c.host with sc := sc } }).closeStopCh repoID)
    | _, _ => some c
  | .read i ok =>
    (c.goroutines[i]?.filter (·.watch = .starting)).map fun w =>
      (c.forget w).setWatch i (if ok then c.lookUp w.repoID else .unreadable)
  | .scan i scanStart now items =>
    c.goroutines[i]?.bind fun w =>
      match w.watch with
      | .scanning _ =>
        let result := scanAndIndexLocalFiles c.sc scanStart now w.repoID items
        some { c with host :=
          ({ c.host with daemons := c.daemons, sc := result.sc }).performAll result.out }
      | _ => none
  | .spawn i =>
    c.goroutines[i]?.bind fun w =>
      match w.watch with
      | .scanning root => some (c.setWatch i (.watching root))
      | _ => none
  | .exit i =>
    (c.goroutines[i]?.filter (fun w => w.stopped ∧ w.watch ≠ .starting)).map fun _ =>
      c.setWatch i .exited
  | .host event =>
    (({ c.host with daemons := c.daemons }).next rt event).map ({ c with host := · })

def start (h : Host) : Crew :=
  (h.sc.db.activeRepositories.map (·.id)).foldl startRepoWorkerLocked ⟨h.restart, [], ∅, fun _ => none⟩

def Initial (c : Crew) : Prop :=
  ∃ h : Host, (∀ k repo, h.sc.db.repositories.lookup k = some repo → repo.id = k) ∧ c = start h

def serves (c : Crew) (i : Nat) : Option String :=
  c.goroutines[i]?.bind fun w => if w.stopped then none else some w.repoID

def running (c : Crew) : List Worker := c.goroutines.filter (!·.stopped)

def Manned (c : Crew) : Prop := ∀ r i, c.stopCh.lookup r = some i ↔ c.serves i = some r

def stored (c : Crew) (repoID : String) : Option String :=
  (c.sc.db.getRepository repoID).map (·.localPath)

def Active (c : Crew) (repoID : String) : Prop :=
  ∃ repo, c.sc.db.getRepository repoID = some repo ∧ repo.status = .active

variable {c c' : Crew}

theorem serves_eq_some {i : Nat} {r : String} :
    c.serves i = some r ↔ ∃ w, c.goroutines[i]? = some w ∧ w.stopped = false ∧ w.repoID = r := by
  rw [serves, Option.bind_eq_some_iff]
  refine exists_congr fun w => and_congr_right fun _ => ?_
  cases w.stopped <;> simp

theorem mem_running {w : Worker} :
    w ∈ c.running ↔ ∃ i : Nat, c.goroutines[i]? = some w ∧ w.stopped = false := by
  rw [running, List.mem_filter, List.mem_iff_getElem?, Bool.not_eq_true', exists_and_right]

theorem getElem?_setWatch (c : Crew) (i j : Nat) (watch : Watch) :
    (c.setWatch i watch).goroutines[j]? =
      c.goroutines[j]?.map (fun w => if i = j then { w with watch := watch } else w) := by
  rw [setWatch, List.getElem?_modify]
  cases c.goroutines[j]? <;> simp

theorem serves_setWatch (c : Crew) (i j : Nat) (watch : Watch) :
    (c.setWatch i watch).serves j = c.serves j := by
  rw [serves, getElem?_setWatch, serves]
  cases c.goroutines[j]? with
  | none => rfl
  | some w => by_cases here : i = j <;> simp [here]

theorem start_cases (c : Crew) (repoID : String) :
    repoID ∈ c.stopCh ∧ c.startRepoWorkerLocked repoID = c ∨
    repoID ∉ c.stopCh ∧ c.startRepoWorkerLocked repoID = { c with
      goroutines := c.goroutines ++ [⟨repoID, .starting, false⟩]
      stopCh := c.stopCh.insert repoID c.goroutines.length } := by
  by_cases known : repoID ∈ c.stopCh
  · exact Or.inl ⟨known, if_pos known⟩
  · exact Or.inr ⟨known, if_neg known⟩

theorem start_mem (c : Crew) (repoID r : String) :
    r ∈ (c.startRepoWorkerLocked repoID).stopCh ↔ r = repoID ∨ r ∈ c.stopCh := by
  rcases start_cases c repoID with ⟨known, same⟩ | ⟨-, new⟩
  · rw [same]
    constructor
    · exact Or.inr
    · rintro (rfl | member)
      · exact known
      · exact member
  · rw [new]
    exact AList.mem_insert _

theorem start_rest (c : Crew) (repoID : String) : (c.startRepoWorkerLocked repoID).sc = c.sc ∧
      (c.startRepoWorkerLocked repoID).readded = c.readded := by
  rcases start_cases c repoID with ⟨-, eq⟩ | ⟨-, eq⟩ <;> rw [eq] <;> exact ⟨rfl, rfl⟩

theorem start_goroutine {repoID : String} {i : Nat} {w : Worker}
    (at_ : (c.startRepoWorkerLocked repoID).goroutines[i]? = some w) :
    c.goroutines[i]? = some w ∨ w.watch = .starting := by
  rcases start_cases c repoID with ⟨-, eq⟩ | ⟨-, eq⟩
  · rw [eq] at at_
    exact Or.inl at_
  · rw [eq] at at_
    rcases Nat.lt_or_ge i c.goroutines.length with below | above
    · rw [List.getElem?_append_left below] at at_
      exact Or.inl at_
    · rw [List.getElem?_append_right above] at at_
      cases List.mem_singleton.mp (List.mem_of_getElem? at_)
      exact Or.inr rfl

theorem serves_bound {i : Nat} {r : String} (served : c.serves i = some r) :
    i < c.goroutines.length := by
  obtain ⟨w, at_, -⟩ := serves_eq_some.mp served
  exact (List.getElem?_eq_some_iff.mp at_).1

theorem serves_start {repoID : String} (fresh : repoID ∉ c.stopCh) (i : Nat) :
    (c.startRepoWorkerLocked repoID).serves i =
      if i = c.goroutines.length then some repoID else c.serves i := by
  rw [startRepoWorkerLocked, if_neg fresh, serves, serves]
  rcases lt_trichotomy i c.goroutines.length with below | rfl | above
  · rw [if_neg below.ne, List.getElem?_append_left below]
  · simp
  · rw [if_neg above.ne', List.getElem?_eq_none above.le, List.getElem?_eq_none]
    rw [List.length_append, List.length_singleton]
    exact above

theorem Manned.start (manned : c.Manned) (repoID : String) :
    (c.startRepoWorkerLocked repoID).Manned := by
  rcases start_cases c repoID with ⟨-, same⟩ | ⟨fresh, new⟩
  · rw [same]
    exact manned
  · intro r i
    rw [serves_start fresh, new]
    by_cases here : r = repoID
    · subst here
      have unserved : c.serves i ≠ some r := by
        intro served
        exact fresh (AList.lookup_isSome.mp (by rw [(manned r i).mpr served]; rfl))
      rw [AList.lookup_insert, Option.some.injEq]
      by_cases last : i = c.goroutines.length
      · simp [last]
      · simp [last, Ne.symm last, unserved]
    · rw [AList.lookup_insert_ne here, manned]
      by_cases last : i = c.goroutines.length
      · subst last
        rw [if_pos rfl, Option.some.injEq]
        constructor
        · intro served
          exact absurd (serves_bound served) (lt_irrefl _)
        · intro named
          exact absurd named.symm here
      · rw [if_neg last]

theorem serves_close {repoID : String} {i : Nat} (channel : c.stopCh.lookup repoID = some i)
    (j : Nat) : (c.closeStopCh repoID).serves j = if j = i then none else c.serves j := by
  simp only [closeStopCh, channel, serves, List.getElem?_modify]
  by_cases here : j = i
  · subst here
    cases c.goroutines[j]? <;> simp
  · cases c.goroutines[j]? <;> simp [here, Ne.symm here]

theorem close_unknown {repoID : String} (unknown : repoID ∉ c.stopCh) :
    c.closeStopCh repoID = c := by
  simp only [closeStopCh, AList.lookup_eq_none.mpr unknown]

theorem close_rest (c : Crew) (repoID : String) :
    (c.closeStopCh repoID).sc = c.sc ∧ (c.closeStopCh repoID).readded = c.readded := by
  unfold closeStopCh
  split <;> exact ⟨rfl, rfl⟩

theorem close_stopCh (c : Crew) (repoID : String) :
    (c.closeStopCh repoID).stopCh.lookup repoID = none ∧
      ∀ r ≠ repoID, (c.closeStopCh repoID).stopCh.lookup r = c.stopCh.lookup r := by
  cases channel : c.stopCh.lookup repoID with
  | none =>
    rw [close_unknown (AList.lookup_eq_none.mp channel)]
    exact ⟨channel, fun _ _ => rfl⟩
  | some i =>
    simp only [closeStopCh, channel]
    exact ⟨AList.lookup_erase _ _, fun r other => AList.lookup_erase_ne other⟩

theorem Manned.close (manned : c.Manned) (repoID : String) : (c.closeStopCh repoID).Manned := by
  by_cases known : repoID ∈ c.stopCh
  · obtain ⟨i, channel⟩ := Option.isSome_iff_exists.mp (AList.lookup_isSome.mpr known)
    intro r j
    rw [serves_close channel]
    by_cases here : r = repoID
    · subst here
      rw [(close_stopCh c r).1]
      by_cases same : j = i
      · simp [same]
      · have other : c.serves j ≠ some r := by
          intro served
          exact same (Option.some.inj (((manned r j).mpr served).symm.trans channel))
        simp [same, other]
    · rw [(close_stopCh c repoID).2 r here, manned]
      by_cases same : j = i
      · subst same
        rw [(manned repoID j).mp channel, if_pos rfl]
        simp [Ne.symm here]
      · rw [if_neg same]
  · rw [close_unknown known]
    exact manned

theorem Manned.close_goroutine (manned : c.Manned) {repoID : String} {j : Nat} {w : Worker}
    (at_ : (c.closeStopCh repoID).goroutines[j]? = some w) (open_ : w.stopped = false) :
    c.goroutines[j]? = some w ∧ w.repoID ≠ repoID := by
  have served : (c.closeStopCh repoID).serves j = some w.repoID :=
    serves_eq_some.mpr ⟨w, at_, open_, rfl⟩
  have other : w.repoID ≠ repoID := by
    intro here
    rw [here, ← manned.close repoID, (close_stopCh c repoID).1] at served
    cases served
  refine ⟨?_, other⟩
  cases channel : c.stopCh.lookup repoID with
  | none =>
    rw [close_unknown (AList.lookup_eq_none.mp channel)] at at_
    exact at_
  | some i =>
    have elsewhere : i ≠ j := by
      rintro rfl
      rw [serves_close channel, if_pos rfl] at served
      cases served
    simp only [closeStopCh, channel] at at_
    rwa [List.getElem?_modify_ne _ _ elsewhere] at at_

structure Rooted (c : Crew) (w : Worker) : Prop where
  found : w.watch ≠ .unknown ∧ w.watch ≠ .exited
  stored : ∀ root, w.watch.root = some root →
    c.stored w.repoID = some ((c.readded w.repoID).getD root)

structure Staffed (c : Crew) : Prop where
  manned : c.Manned
  workers : ∀ r, r ∈ c.sc.workers ↔ r ∈ c.stopCh
  active : ∀ r, r ∈ c.stopCh ↔ c.Active r
  rooted : ∀ (i : Nat) (w : Worker), c.goroutines[i]? = some w → w.stopped = false → c.Rooted w

theorem Staffed.setup (staffed : c.Staffed) {host : Host} (same : SameSetup host.sc c.sc) :
    ({ c with host := host } : Crew).Staffed := by
  have looked : ∀ r, host.sc.db.getRepository r = c.sc.db.getRepository r := by
    intro r
    rw [DB.getRepository, same.2.2, DB.getRepository]
  refine ⟨staffed.manned, ?_, ?_, ?_⟩
  · intro r
    rw [← staffed.workers, ← same.2.1]
    rfl
  · intro r
    rw [staffed.active, Active, ← looked]
    rfl
  · intro i w at_ open_
    obtain ⟨found, stored⟩ := staffed.rooted i w at_ open_
    refine ⟨found, fun root read => ?_⟩
    rw [Crew.stored, sc, looked]
    exact stored root read

theorem Staffed.setWatch (staffed : c.Staffed) {i : Nat} {watch : Watch}
    (fits : ∀ w, c.goroutines[i]? = some w → w.stopped = false →
      c.Rooted { w with watch := watch }) : (c.setWatch i watch).Staffed := by
  refine ⟨?_, staffed.workers, staffed.active, ?_⟩
  · intro r j
    rw [serves_setWatch]
    exact staffed.manned r j
  · intro j w at_ open_
    rw [getElem?_setWatch] at at_
    obtain ⟨old, was, rfl⟩ := Option.map_eq_some_iff.mp at_
    by_cases here : i = j
    · subst here
      simp only [if_true] at open_ ⊢
      obtain ⟨found, stored⟩ := fits old was open_
      exact ⟨found, stored⟩
    · simp only [if_neg here] at open_ ⊢
      obtain ⟨found, stored⟩ := staffed.rooted j old was open_
      exact ⟨found, stored⟩

section

variable (staffed : c.Staffed) {i : Nat} {w : Worker} (at_ : c.goroutines[i]? = some w)

include staffed at_

theorem Staffed.served (open_ : w.stopped = false) :
    c.stopCh.lookup w.repoID = some i ∧ c.Active w.repoID := by
  have channel := (staffed.manned w.repoID i).mpr (serves_eq_some.mpr ⟨w, at_, open_, rfl⟩)
  exact ⟨channel, (staffed.active _).mp (AList.lookup_isSome.mp (by rw [channel]; rfl))⟩

/-- What was added before a goroutine reads does not matter to it, and no other
goroutine serves the repository. -/
theorem Staffed.forget (unread : w.watch = .starting) : (c.forget w).Staffed := by
  cases open_ : w.stopped with
  | true =>
    rw [Crew.forget, if_pos open_]
    exact staffed
  | false =>
    rw [Crew.forget, if_neg (by rw [open_]; decide)]
    refine ⟨staffed.manned, staffed.workers, staffed.active, fun j v there opened => ?_⟩
    obtain ⟨found, stored⟩ := staffed.rooted j v there opened
    refine ⟨found, fun root read => ?_⟩
    by_cases here : v.repoID = w.repoID
    · have channel := (staffed.served there opened).1
      rw [here, (staffed.served at_ open_).1] at channel
      cases channel
      cases Option.some.inj (at_.symm.trans there)
      rw [unread] at read
      cases read
    · simp only [Function.update_of_ne here]
      exact stored root read

theorem Staffed.read (unread : w.watch = .starting) (ok : Bool) :
    ((c.forget w).setWatch i (if ok then c.lookUp w.repoID else .unreadable)).Staffed := by
  have goroutines : (c.forget w).goroutines = c.goroutines := by
    unfold Crew.forget
    split <;> rfl
  apply (staffed.forget at_ unread).setWatch
  intro w' again open_
  rw [goroutines] at again
  cases Option.some.inj (at_.symm.trans again)
  cases ok with
  | false => exact ⟨by simp, fun root read => by simp [Watch.root] at read⟩
  | true =>
    -- the repository of a running worker is in the store
    obtain ⟨repo, found, -⟩ := (staffed.served at_ open_).2
    simp only [if_true, lookUp, found]
    refine ⟨by simp, fun root read => ?_⟩
    cases read
    rw [Crew.forget, if_neg (by rw [open_]; decide)]
    simp only [Function.update_self, Option.getD_none]
    exact congrArg (Option.map (·.localPath)) found

end

theorem getRepository_add (sc : SyncCoordinator) (now : Int) (repoID cleanedPath : String) :
    (∃ repo, (addRepository sc now repoID cleanedPath).db.getRepository repoID = some repo ∧
      repo.status = .active ∧ repo.localPath = cleanedPath) ∧
    ∀ r ≠ repoID, (addRepository sc now repoID cleanedPath).db.getRepository r =
      sc.db.getRepository r :=
  ⟨⟨_, AList.lookup_insert _, rfl, rfl⟩, fun _ other => AList.lookup_insert_ne other⟩

theorem Staffed.add (staffed : c.Staffed) (now : Int) (repoID cleanedPath : String) : (({ c with
      host := { c.host with sc := addRepository c.sc now repoID cleanedPath }
      readded := Function.update c.readded repoID (some cleanedPath) } :
        Crew).startRepoWorkerLocked repoID).Staffed := by
  obtain ⟨⟨repo, found, active, path⟩, others⟩ := getRepository_add c.sc now repoID cleanedPath
  generalize grown : ({ c with
    host := { c.host with sc := addRepository c.sc now repoID cleanedPath }
    readded := Function.update c.readded repoID (some cleanedPath) } : Crew) = g
  have stops : g.stopCh = c.stopCh := by rw [← grown]
  have routines : g.goroutines = c.goroutines := by rw [← grown]
  have coordinator : g.sc = addRepository c.sc now repoID cleanedPath := by rw [← grown]; rfl
  have noted : g.readded = Function.update c.readded repoID (some cleanedPath) := by rw [← grown]
  have manned : g.Manned := by
    rw [← grown]
    exact staffed.manned
  obtain ⟨sc, readded⟩ := start_rest g repoID
  refine ⟨manned.start repoID, ?_, ?_, ?_⟩
  · intro r
    rw [sc, start_mem, coordinator, stops, ← staffed.workers]
    exact List.mem_insert_iff
  · intro r
    rw [start_mem, Active, sc, coordinator, stops]
    by_cases here : r = repoID
    · subst here
      exact ⟨fun _ => ⟨repo, found, active⟩, fun _ => Or.inl rfl⟩
    · rw [others r here, staffed.active]
      simp [here, Active]
  · intro i w at_ open_
    rcases start_goroutine at_ with was | fresh
    · rw [routines] at was
      obtain ⟨known, stored⟩ := staffed.rooted i w was open_
      refine ⟨known, fun root read => ?_⟩
      rw [Crew.stored, sc, coordinator, readded, noted]
      by_cases here : w.repoID = repoID
      · rw [here, found, Function.update_self, Option.map_some, path, Option.getD_some]
      · rw [others _ here, Function.update_of_ne here]
        exact stored root read
    · exact ⟨by simp [fresh], fun root read => by simp [fresh, Watch.root] at read⟩

theorem getRepository_remove {sc sc' : SyncCoordinator} {repoID : String}
    (removed : removeRepository sc repoID = some sc') :
    sc'.workers = sc.workers.filter (· ≠ repoID) ∧ sc'.db.getRepository repoID = none ∧
      ∀ r ≠ repoID, sc'.db.getRepository r = sc.db.getRepository r := by
  obtain ⟨db, deleted, rfl⟩ := Option.map_eq_some_iff.mp removed
  unfold DB.deleteRepository at deleted
  split at deleted
  · cases deleted
    exact ⟨rfl, AList.lookup_erase _ _, fun r other => AList.lookup_erase_ne other⟩
  · cases deleted

theorem Staffed.remove (staffed : c.Staffed) {repoID : String} {sc : SyncCoordinator}
    (removed : removeRepository c.sc repoID = some sc) :
    (({ c with host := { c.host with sc := sc } } : Crew).closeStopCh repoID).Staffed := by
  obtain ⟨workers, gone, others⟩ := getRepository_remove removed
  generalize shrunk : ({ c with host := { c.host with sc := sc } } : Crew) = g
  have stops : g.stopCh = c.stopCh := by rw [← shrunk]
  have routines : g.goroutines = c.goroutines := by rw [← shrunk]
  have coordinator : g.sc = sc := by rw [← shrunk]; rfl
  have noted : g.readded = c.readded := by rw [← shrunk]
  have manned : g.Manned := by
    rw [← shrunk]
    exact staffed.manned
  have member : ∀ r, r ∈ (g.closeStopCh repoID).stopCh ↔ r ≠ repoID ∧ r ∈ c.stopCh := by
    intro r
    rw [← AList.lookup_isSome, ← AList.lookup_isSome (s := c.stopCh), ← stops]
    by_cases here : r = repoID
    · rw [here, (close_stopCh g repoID).1]
      simp
    · rw [(close_stopCh g repoID).2 r here]
      simp [here]
  obtain ⟨same, readded⟩ := close_rest g repoID
  refine ⟨manned.close repoID, ?_, ?_, ?_⟩
  · intro r
    rw [same, coordinator, member, workers, List.mem_filter, decide_eq_true_eq,
      staffed.workers, and_comm]
  · intro r
    rw [member, Active, same, coordinator, staffed.active]
    by_cases here : r = repoID
    · rw [here, gone]
      simp
    · rw [others r here]
      simp [here, Active]
  · intro i w at_ open_
    obtain ⟨was, other⟩ := manned.close_goroutine at_ open_
    rw [routines] at was
    obtain ⟨known, stored⟩ := staffed.rooted i w was open_
    refine ⟨known, fun root read => ?_⟩
    rw [Crew.stored, same, coordinator, others _ other, readded, noted]
    exact stored root read

theorem staffed_next {rt : Runtime} {event : CrewEvent} (staffed : c.Staffed)
    (moved : c.next rt event = some c') : c'.Staffed := by
  cases event with
  | addRepository now repoID cleanedPath saved =>
    cases saved with
    | false =>
      cases moved
      exact staffed
    | true =>
      cases moved
      exact staffed.add now repoID cleanedPath
  | removeRepository repoID deleted =>
    simp only [next] at moved
    split at moved
    · rename_i sc removed
      cases moved
      exact staffed.remove removed
    · cases moved
      exact staffed
  | read i ok =>
    obtain ⟨w, found, rfl⟩ := Option.map_eq_some_iff.mp moved
    obtain ⟨at_, unread⟩ := Option.filter_eq_some_iff.mp found
    exact staffed.read at_ (of_decide_eq_true unread) ok
  | scan i scanStart now items =>
    obtain ⟨w, -, scanned⟩ := Option.bind_eq_some_iff.mp moved
    split at scanned
    · cases scanned
      apply staffed.setup
      rw [Host.performAll_sc]
      exact scan_setup c.sc scanStart now w.repoID items
    · cases scanned
  | spawn i =>
    obtain ⟨w, at_, spawned⟩ := Option.bind_eq_some_iff.mp moved
    split at spawned
    · rename_i root scanning
      cases spawned
      apply staffed.setWatch
      intro w' again open_
      cases Option.some.inj (at_.symm.trans again)
      refine ⟨by simp, fun path read => ?_⟩
      obtain rfl : root = path := Option.some.inj read
      exact (staffed.rooted i w at_ open_).stored root (by rw [scanning]; rfl)
    · cases spawned
  | exit i =>
    obtain ⟨w, found, rfl⟩ := Option.map_eq_some_iff.mp moved
    obtain ⟨at_, ended⟩ := Option.filter_eq_some_iff.mp found
    apply staffed.setWatch
    intro w' again open_
    cases Option.some.inj (at_.symm.trans again)
    rw [(of_decide_eq_true ended).1] at open_
    cases open_
  | host event =>
    obtain ⟨after, step, rfl⟩ := Option.map_eq_some_iff.mp moved
    have same := Host.next_setup step
    exact staffed.setup same

theorem start_all (ids : List String) (manned : c.Manned)
    (unread : ∀ (i : Nat) (w : Worker), c.goroutines[i]? = some w → w.watch = .starting) :
    (ids.foldl startRepoWorkerLocked c).Manned ∧
    (ids.foldl startRepoWorkerLocked c).sc = c.sc ∧
    (∀ r, r ∈ (ids.foldl startRepoWorkerLocked c).stopCh ↔ r ∈ ids ∨ r ∈ c.stopCh) ∧
    ∀ (i : Nat) (w : Worker), (ids.foldl startRepoWorkerLocked c).goroutines[i]? = some w →
      w.watch = .starting := by
  induction ids generalizing c with
  | nil => exact ⟨manned, rfl, by simp, unread⟩
  | cons repoID rest ih =>
    obtain ⟨manned', same, member, unread'⟩ := ih (manned.start repoID) (by
      intro i w at_
      rcases start_goroutine at_ with was | fresh
      · exact unread i w was
      · exact fresh)
    refine ⟨manned', same.trans (start_rest c repoID).1, ?_, unread'⟩
    intro r
    rw [List.foldl_cons, member, start_mem, List.mem_cons]
    tauto

theorem staffed_start {h : Host}
    (ids : ∀ k repo, h.sc.db.repositories.lookup k = some repo → repo.id = k) :
    (start h).Staffed := by
  obtain ⟨manned, same, member, unread⟩ := start_all (c := ⟨h.restart, [], ∅, fun _ => none⟩)
    (h.sc.db.activeRepositories.map (·.id)) (by intro r i; simp [serves]) (by simp)
  have listed : ∀ r, r ∈ h.sc.db.activeRepositories.map (·.id) ↔
      ∃ repo, h.sc.db.getRepository r = some repo ∧ repo.status = .active := by
    intro r
    simp only [DB.activeRepositories, List.mem_map, List.mem_filter, decide_eq_true_eq]
    constructor
    · rintro ⟨repo, ⟨⟨⟨k, repo'⟩, entry, rfl⟩, active⟩, rfl⟩
      have found := AList.mem_lookup_iff.mpr entry
      exact ⟨repo', by rw [ids k repo' found]; exact found, active⟩
    · rintro ⟨repo, found, active⟩
      exact ⟨repo, ⟨⟨⟨r, repo⟩, AList.mem_lookup_iff.mp found, rfl⟩, active⟩, ids r repo found⟩
  have opened : ∀ r, r ∈ (start h).stopCh ↔ r ∈ h.sc.db.activeRepositories.map (·.id) := by
    intro r
    rw [start, member]
    simp [AList.notMem_empty]
  refine ⟨manned, ?_, ?_, ?_⟩
  · intro r
    rw [opened, start, same]
    rfl
  · intro r
    rw [opened, listed, Active, start, same]
    rfl
  · intro i w at_ _
    have fresh := unread i w at_
    exact ⟨by simp [fresh], fun root read => by simp [fresh, Watch.root] at read⟩

theorem staffed_reach {rt : Runtime} (reached : Reach Initial (Runs (next rt)) c) : c.Staffed := by
  apply reach_invariant Staffed _ _ reached
  · rintro c ⟨h, ids, rfl⟩
    exact staffed_start ids
  · intro c event c' staffed moved
    exact staffed_next staffed moved

end Crew

/-- In every run the workers are those of the active repositories, one for each. Once
they have read, one has the path that is stored now exactly if its repository has not
been added again since, or last with the path that it has. -/
theorem watched_root_iff {rt : Runtime} {c : Crew}
    (reached : Reach Crew.Initial (Runs (Crew.next rt)) c)
    (read : ∀ w ∈ c.running, w.watch ≠ .starting ∧ w.watch ≠ .unreadable) :
    (∀ r, r ∈ c.sc.workers ↔ c.Active r) ∧
    (∀ r, c.Active r ↔ ∃! i, c.serves i = some r) ∧
    ∀ w ∈ c.running, ∃ root, (w.watch = .scanning root ∨ w.watch = .watching root) ∧
      (c.stored w.repoID = some root ↔ (c.readded w.repoID).all (· = root) = true) := by
  have staffed := Crew.staffed_reach reached
  refine ⟨fun r => (staffed.workers r).trans (staffed.active r), ?_, ?_⟩
  · intro r
    rw [← staffed.active, ← AList.lookup_isSome, Option.isSome_iff_exists]
    constructor
    · rintro ⟨i, channel⟩
      refine ⟨i, (staffed.manned r i).mp channel, fun j served => ?_⟩
      exact Option.some.inj (((staffed.manned r j).mpr served).symm.trans channel)
    · rintro ⟨i, served, -⟩
      exact ⟨i, (staffed.manned r i).mpr served⟩
  · intro w member
    obtain ⟨i, at_, open_⟩ := Crew.mem_running.mp member
    obtain ⟨⟨known, alive⟩, stored⟩ := staffed.rooted i w at_ open_
    obtain ⟨begun, readable⟩ := read w member
    have rooted : ∃ root, (w.watch = .scanning root ∨ w.watch = .watching root) ∧
        w.watch.root = some root := by
      cases watch : w.watch with
      | scanning root => exact ⟨root, Or.inl rfl, rfl⟩
      | watching root => exact ⟨root, Or.inr rfl, rfl⟩
      | starting => exact absurd watch begun
      | unreadable => exact absurd watch readable
      | unknown => exact absurd watch known
      | exited => exact absurd watch alive
    obtain ⟨root, watch, root_read⟩ := rooted
    refine ⟨root, watch, ?_⟩
    rw [stored root root_read]
    cases c.readded w.repoID <;> simp

def unstaffed : Crew := .start ⟨.new "a", [], fun _ => none, [], [], [], []⟩

theorem unstaffed_initial : unstaffed.Initial := ⟨_, by simp [SyncCoordinator.new, DB.empty], rfl⟩

def reassigned : List CrewEvent :=
  [.addRepository 1 "r" "/p" true, .read 0 true, .spawn 0, .addRepository 2 "r" "/p" true,
    .addRepository 3 "s" "/q" true, .removeRepository "s" true, .addRepository 4 "s" "/t" true,
    .read 1 true, .exit 1, .read 2 true]

theorem watched_root_iff_reassigned : ∃ c : Crew,
    c.running = [⟨"r", .watching "/p", false⟩, ⟨"s", .scanning "/t", false⟩] ∧
    c.readded "r" = some "/p" ∧ c.readded "s" = none ∧
    (∀ r, r ∈ c.sc.workers ↔ c.Active r) ∧
    ∀ w ∈ c.running, ∃ root, (w.watch = .scanning root ∨ w.watch = .watching root) ∧
      (c.stored w.repoID = some root ↔ (c.readded w.repoID).all (· = root) = true) := by
  obtain ⟨c, reached, running, again, new⟩ := reach_of_replay (Crew.next .plain)
    (fun _ _ => True) (.start unstaffed_initial) reassigned
    (fun c => c.running = [⟨"r", .watching "/p", false⟩, ⟨"s", .scanning "/t", false⟩] ∧
      c.readded "r" = some "/p" ∧ c.readded "s" = none)
    (by decide +kernel)
  have run : Reach Crew.Initial (Runs (Crew.next .plain)) c :=
    reach_mono (fun _ _ _ step => step.1) reached
  obtain ⟨workers, -, rooted⟩ := watched_root_iff run (by rw [running]; decide)
  exact ⟨c, running, again, new, workers, rooted⟩

/-- A repository that is added again under another path: the store has the new one,
the daemon watches the old one, and nothing is left to be read. -/
theorem readded_root_unwatched : ∃ c : Crew,
    Reach Crew.Initial (Guarded (Runs (Crew.next .plain))
      (fun _ _ => True)) c ∧
    c.running = [⟨"r", .watching "/p", false⟩] ∧ c.stored "r" = some "/q" :=
  reach_of_replay (Crew.next .plain) (fun _ _ => True) (.start unstaffed_initial)
    [.addRepository 1 "r" "/p" true, .read 0 true, .spawn 0, .addRepository 2 "r" "/q" true]
    (fun c => c.running = [⟨"r", .watching "/p", false⟩] ∧ c.stored "r" = some "/q")
    (by decide +kernel)

end P2PSync
