import P2PSync.Host
import P2PSync.Library.Progress

/-! The user's side of a conflict. The notice names the file and the two versions, but not
the repository. Every open window of the interface asks the user, and sends the answer for
the repository that the window shows. -/
namespace P2PSync

open Transition

structure Dialog where
  repoID : String
  path : String
  remotePeer : String
  deriving DecidableEq

structure Desk where
  host : Host
  windows : List String
  dialogs : List Dialog

inductive DeskEvent where
  /-- Whether a notice sent in the step reaches the interface, then in that step. -/
  | host (e : HostEvent) (delivered : Bool)
  | openWindow (repoID : String)
  | closeWindow (repoID : String)
  | answer (i : Nat) (resolution : String) (removed : Bool)
  | cancel (i : Nat)

def remotePeerOf (versions : List VersionMetadata) : String :=
  (versions[1]?.map VersionMetadata.sourcePeer).getD "unknown"

def Output.dialogs (windows : List String) : Output → List Dialog
  | .sendIpc (.conflictDetected path versions) =>
    windows.map fun repoID => ⟨repoID, path, remotePeerOf versions⟩
  | _ => []

def HostEvent.decides : HostEvent → Bool
  | .resolve .. => true
  | _ => false

def asks (windows : List String) (delivered : Bool) (out : List Output) : List Dialog :=
  if delivered then out.flatMap (Output.dialogs windows) else []

namespace Desk

def next (rt : Runtime) (s : Desk) : DeskEvent → Option Desk
  | .host e delivered =>
    if e.decides then none
    else
      (s.host.next rt e).map fun host =>
        { s with
          host := host
          dialogs := s.dialogs ++ asks s.windows delivered (s.host.outputs rt e) }
  | .openWindow repoID =>
    if repoID ∈ s.windows then none else some { s with windows := s.windows ++ [repoID] }
  | .closeWindow repoID => some { s with windows := s.windows.filter (· ≠ repoID) }
  | .answer i resolution removed =>
    if resolution = "local" ∨ resolution = "remote" then
      s.dialogs[i]?.bind fun d =>
        (s.host.next rt (.resolve d.repoID d.path resolution d.remotePeer removed)).map fun host =>
          { s with host := host, dialogs := s.dialogs.eraseIdx i }
    else none
  | .cancel i => s.dialogs[i]?.map fun _ => { s with dialogs := s.dialogs.eraseIdx i }

def Initial (s : Desk) : Prop := s.host.Initial ∧ s.windows = [] ∧ s.dialogs = []

inductive Moved (rt : Runtime) (s : Desk) : DeskEvent → Desk → Prop
  | host {e : HostEvent} {delivered : Bool} {host : Host} : s.host.next rt e = some host →
      Moved rt s (.host e delivered)
        { s with
          host := host
          dialogs := s.dialogs ++ asks s.windows delivered (s.host.outputs rt e) }
  | opened {repoID : String} : Moved rt s (.openWindow repoID)
      { s with windows := s.windows ++ [repoID] }
  | closed {repoID : String} : Moved rt s (.closeWindow repoID)
      { s with windows := s.windows.filter (· ≠ repoID) }
  | answered {i : Nat} {resolution : String} {removed : Bool} {d : Dialog} {host : Host} :
      s.dialogs[i]? = some d →
      s.host.next rt (.resolve d.repoID d.path resolution d.remotePeer removed) = some host →
      Moved rt s (.answer i resolution removed) { s with host := host, dialogs := s.dialogs.eraseIdx i }
  | cancelled {i : Nat} : Moved rt s (.cancel i) { s with dialogs := s.dialogs.eraseIdx i }

theorem moved_of_next {rt : Runtime} {s t : Desk} {e : DeskEvent} (moved : s.next rt e = some t) :
    Moved rt s e t := by
  cases e with
  | host e delivered =>
    simp only [next, Option.ite_none_left_eq_some, Option.map_eq_some_iff] at moved
    obtain ⟨-, host, done, rfl⟩ := moved
    exact .host done
  | openWindow repoID =>
    simp only [next, Option.ite_none_left_eq_some, Option.some.injEq] at moved
    obtain ⟨-, rfl⟩ := moved
    exact .opened
  | closeWindow repoID =>
    cases moved
    exact .closed
  | answer i resolution removed =>
    simp only [next, Option.ite_none_right_eq_some, Option.bind_eq_some_iff,
      Option.map_eq_some_iff] at moved
    obtain ⟨-, d, at_, host, done, rfl⟩ := moved
    exact .answered at_ done
  | cancel i =>
    obtain ⟨d, -, rfl⟩ := Option.map_eq_some_iff.mp moved
    exact .cancelled

end Desk

theorem asks_window {windows : List String} {delivered : Bool} {out : List Output} {d : Dialog}
    (asked : d ∈ asks windows delivered out) : d.repoID ∈ windows := by
  unfold asks at asked
  split at asked
  · obtain ⟨o, -, asked⟩ := List.mem_flatMap.mp asked
    unfold Output.dialogs at asked
    split at asked
    · obtain ⟨repoID, shown, rfl⟩ := List.mem_map.mp asked
      exact shown
    · cases asked
  · cases asked

theorem conflict_told (rt : Runtime) {sc : SyncCoordinator} (now : Int) (missing : Bool)
    {peerID repoID : String} {u : Update} (heard : ignoredPath u.path = false)
    (conflict : (decision sc peerID repoID u).isConflict = true) :
    logAndNotifyConflict u.path (ownVersion sc (sc.db.get repoID u.path)) (remoteVersion peerID u) ∈
      (handlePeerMetadataUpdate rt sc now missing peerID repoID u).2 := by
  have notice : conflictNotice sc peerID repoID u = [logAndNotifyConflict u.path
      (ownVersion sc (sc.db.get repoID u.path)) (remoteVersion peerID u)] := if_pos conflict
  cases h : (decision sc peerID repoID u).action with
  | acceptRemote =>
    rw [peer_accept rt now missing heard h, notice]
    exact List.mem_append_right _ List.mem_cons_self
  | keepLocal =>
    rw [peer_keep rt now missing heard h, conflict, if_pos rfl, notice]
    exact List.mem_cons_self
  | skip =>
    have same := (resolve_skip_iff _ _).mp h
    exact absurd same ((resolve_conflict_iff _ _).mp conflict).1

namespace Desk

def Unasked (repoID : String) (s : Desk) : Prop :=
  repoID ∉ s.windows ∧ ∀ d ∈ s.dialogs, d.repoID ≠ repoID

theorem unasked_next {rt : Runtime} {repoID : String} {s t : Desk} {e : DeskEvent}
    (unasked : s.Unasked repoID) (other : e ≠ .openWindow repoID) (moved : s.next rt e = some t) :
    t.Unasked repoID := by
  obtain ⟨unseen, silent⟩ := unasked
  cases moved_of_next moved with
  | host =>
    refine ⟨unseen, fun d asked => ?_⟩
    rcases List.mem_append.mp asked with old | new
    · exact silent d old
    · exact fun here => unseen (here ▸ asks_window new)
  | @opened shown =>
    refine ⟨fun seen => ?_, silent⟩
    rcases List.mem_append.mp seen with old | new
    · exact unseen old
    · exact other (by rw [List.mem_singleton.mp new])
  | closed => exact ⟨fun seen => unseen (List.mem_filter.mp seen).1, silent⟩
  | answered | cancelled => exact ⟨unseen, fun d left => silent d (List.mem_of_mem_eraseIdx left)⟩

theorem answer_row {rt : Runtime} {s t : Desk} {i : Nat} {resolution : String} {removed : Bool}
    {d : Dialog} (at_ : s.dialogs[i]? = some d)
    (moved : s.next rt (.answer i resolution removed) = some t) (repoID path : String) :
    t.host.sc.db.get repoID path =
      if resolution = "remote" ∧ (repoID, path) = (d.repoID, d.path) then none
      else s.host.sc.db.get repoID path := by
  cases moved_of_next moved with
  | answered found done =>
    cases Option.some.inj (at_.symm.trans found)
    cases done
    rw [Host.performAll_sc]
    exact resolution_row s.host.sc d.repoID d.path resolution d.remotePeer repoID path

end Desk

section Results

/-- The user has no say in a repository whose window is not opened: on no run is there a
question about it, and no answer to another one changes a row of it. -/
theorem conflict_without_window_unanswered (rt : Runtime) {start s : Desk} (fresh : start.Initial)
    {events : List DeskEvent} (run : Path (Runs (Desk.next rt)) start events s) {repoID : String}
    (unopened : .openWindow repoID ∉ events) : (∀ d ∈ s.dialogs, d.repoID ≠ repoID) ∧
      ∀ i resolution removed t, s.next rt (.answer i resolution removed) = some t →
        ∀ path, t.host.sc.db.get repoID path = s.host.sc.db.get repoID path := by
  have unasked : s.Unasked repoID := by
    refine Path.invariant ?_ run.labelled ?_
    · rintro a e b before ⟨moved, member⟩
      exact Desk.unasked_next before (fun same => unopened (same ▸ member)) moved
    · obtain ⟨-, windows, dialogs⟩ := fresh
      rw [Desk.Unasked, windows, dialogs]
      exact ⟨List.not_mem_nil, fun d asked => by cases asked⟩
  refine ⟨unasked.2, fun i resolution removed t moved path => ?_⟩
  cases found : s.dialogs[i]? with
  | none =>
    simp [Desk.next, found] at moved
  | some d =>
    rw [Desk.answer_row found moved, if_neg]
    rintro ⟨-, same⟩
    exact unasked.2 d (List.mem_of_getElem? found) (congrArg Prod.fst same).symm

def twoRepositories : Host :=
  let host := Host.started "a" "r" "/r" ["b"]
  { host with sc := addRepository host.sc 0 "s" "/s", disk := fun _ => some [7] }

theorem twoRepositories_initial : twoRepositories.Initial where
  idle := ⟨rfl, rfl, rfl, rfl⟩
  fresh := ⟨rfl, rfl⟩
  watched := by
    intro d member
    cases List.mem_singleton.mp member
    exact ⟨_, rfl, rfl⟩

def unnumbered : Update := ⟨"f", "x", 1, 0, 1, false, 0, none⟩

theorem conflict_without_window_unanswered_otherWindow :
    ∃ s : Desk, s.dialogs = [⟨"s", "f", "b"⟩] ∧ (∀ d ∈ s.dialogs, d.repoID ≠ "r") ∧
      ∀ i resolution removed t, s.next .plain (.answer i resolution removed) = some t →
        ∀ path, t.host.sc.db.get "r" path = s.host.sc.db.get "r" path := by
  obtain ⟨s, run, asked⟩ := path_of_replay (Desk.next .plain) (fun _ _ => True)
    (s := ⟨twoRepositories, [], []⟩)
    [.openWindow "s", .host (.message 0 "b" (.fileMetadataUpdate "r" unnumbered) .fine) true]
    (fun s => s.dialogs = [⟨"s", "f", "b"⟩]) (by decide +kernel)
  have plain := run.weaken fun _ _ _ step => step.1
  refine ⟨s, asked, conflict_without_window_unanswered .plain ⟨twoRepositories_initial, rfl, rfl⟩
    plain ?_⟩
  simp

/-- A notice of a conflict in one repository asks in the window of another one too, about its
own file of the same path. Where the user then chooses the remote version, that file and its
row go, and the row that the conflict is about stays as it is. -/
theorem conflict_answer_misdirected (rt : Runtime) (s : Desk) {repoID shown : String}
    (apart : shown ≠ repoID) (isOpen : shown ∈ s.windows) {peerID : String} {u : Update}
    (heard : ignoredPath u.path = false)
    (conflict : (decision s.host.sc peerID repoID u).isConflict = true) (now : Int) (env : Env) :
    ∃ i told after,
      s.next rt (.host (.message now peerID (.fileMetadataUpdate repoID u) env) true) = some told ∧
      told.dialogs[i]? = some ⟨shown, u.path, peerID⟩ ∧
      told.next rt (.answer i "remote" true) = some after ∧
      after.host.sc.db.get shown u.path = none ∧
      (∀ file, told.host.filePath shown u.path = some file →
        after.host.disk (placeOf file) = none) ∧
      after.host.sc.db.get repoID u.path = told.host.sc.db.get repoID u.path := by
  let event : HostEvent := .message now peerID (.fileMetadataUpdate repoID u) env
  obtain ⟨host, handled⟩ : ∃ host, s.host.next rt event = some host := ⟨_, rfl⟩
  let told : Desk :=
    { s with
      host := host
      dialogs := s.dialogs ++ asks s.windows true (s.host.outputs rt event) }
  have first : s.next rt (.host event true) = some told := by
    rw [Desk.next, handled]
    rfl
  have asked : ⟨shown, u.path, peerID⟩ ∈ told.dialogs := by
    apply List.mem_append_right
    apply List.mem_flatMap.mpr
    exact ⟨_, conflict_told rt now env.missing heard conflict, List.mem_map_of_mem isOpen⟩
  obtain ⟨i, at_⟩ := List.getElem?_of_mem asked
  have second := Host.next_remote rt told.host shown u.path peerID true
  have answered : told.next rt (.answer i "remote" true) = some
      { told with
        host := { told.host.edit shown u.path none with
          sc := { told.host.sc with db := told.host.sc.db.hardDelete shown u.path } }
        dialogs := told.dialogs.eraseIdx i } := by
    rw [Desk.next, if_pos (.inr rfl), at_, Option.bind_some, second]
    rfl
  refine ⟨i, told, _, first, at_, answered, DB.get_hardDelete_self _ _ _, ?_, ?_⟩
  · intro file named
    change (told.host.edit shown u.path none).disk (placeOf file) = none
    rw [Host.edit, named, Host.setFile_disk, if_pos rfl]
  · apply DB.get_hardDelete_other
    exact fun same => apart (congrArg Prod.fst same).symm

theorem conflict_answer_misdirected_sameName : ∃ after : Desk, after.host.sc.db.get "s" "f" = none ∧
      after.host.disk (placeOf "/s/f") = none := by
  have conflict : (decision twoRepositories.sc "b" "r" unnumbered).isConflict = true := by decide
  obtain ⟨i, told, after, first, -, -, row, file, -⟩ :=
    conflict_answer_misdirected .plain ⟨twoRepositories, ["s"], []⟩ (by decide : "s" ≠ "r")
      List.mem_cons_self (by decide) conflict 0 .fine
  refine ⟨after, row, file "/s/f" ?_⟩
  cases first
  decide

end Results

end P2PSync
