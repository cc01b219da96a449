import P2PSync.Host

/-! Which files peers can reach. Go checks the text of a path; the daemon reads
backslashes as slashes before it joins the path to its directory. A text that
passes the check can still be absolute for the daemon. -/
namespace P2PSync

open Transition

/-- The path means the same to the daemon as to the check: an update or a request
does not start with a backslash, and the cleaned path of a response stays below
the daemon's directory. -/
def plainMessage : P2PMessage → Bool
  | .fileMetadataUpdate _ u => u.path.toList.head? ≠ some '\\'
  | .fileRequest payload => payload.path.toList.head? ≠ some '\\'
  | .fileResponse payload => daemonSafe (clean payload.path)

def plainEvent : HostEvent → Bool
  | .message _ _ msg _ => plainMessage msg
  | _ => true

def SafeInbox (h : Host) : Prop :=
  ∀ x ∈ h.inbox, ∀ path, x.2.filePath = some path → daemonSafe path = true

def SafeOutput (out : List Output) : Prop :=
  ∀ msg, .sendIpc msg ∈ out → ∀ path, msg.filePath = some path → daemonSafe path = true

section

variable (rt : Runtime) (sc : SyncCoordinator) (now : Int) (env : Env) (peerID : String)

theorem update_safe (missing : Bool) (peerID repoID : String) {u : Update}
    (plain : u.path.toList.head? ≠ some '\\') :
    SafeOutput (handlePeerMetadataUpdate rt sc now missing peerID repoID u).2 := by
  intro msg sent path named
  rcases peer_ipc rt now missing sent with ⟨versions, rfl⟩ | ⟨heard, -, -, rfl⟩
  · cases named
  · cases named
    have checked := (Bool.or_eq_false_iff.mp heard).2
    exact daemonSafe_of_check checked plain

theorem validate_traversal {payload : FileRequestPayload} (valid : payload.validate = none) :
    traversal payload.path = false := by
  unfold FileRequestPayload.validate at valid
  split at valid
  · cases valid
  · split at valid
    · cases valid
    · split at valid
      · cases valid
      · rename_i checked
        exact Bool.eq_false_iff.mpr checked

theorem request_safe {payload : FileRequestPayload}
    (plain : payload.path.toList.head? ≠ some '\\') :
    SafeOutput (handleFileRequest sc env peerID payload).out := by
  intro msg sent path named
  rcases (handleFileRequest_spec sc env peerID payload).2 _ sent with ⟨response, eq⟩ | ⟨valid, rest⟩
  · cases eq
  · obtain ⟨m, basePath, -, -, eq | eq⟩ := rest
    · cases eq
    · cases eq
      cases named
      exact daemonSafe_of_check (validate_traversal valid) plain

theorem response_safe {payload : FileResponsePayload}
    (plain : daemonSafe (clean payload.path) = true) :
    SafeOutput (handleFileResponse rt sc now env peerID payload).out := by
  intro msg sent path named
  obtain ⟨details, -, ⟨data, repo, -, eq⟩ | ⟨-, -, eq⟩ | ⟨-, eq⟩⟩ := response_out sent
  · cases eq
  · cases eq
    cases named
    exact plain
  · cases eq

theorem message_safe {msg : P2PMessage} (plain : plainMessage msg = true) :
    SafeOutput (handleP2PMessage rt sc now env peerID msg).out := by
  cases msg with
  | fileMetadataUpdate repoID u =>
    exact update_safe rt sc now env.missing peerID repoID (of_decide_eq_true plain)
  | fileRequest payload => exact request_safe sc env peerID (of_decide_eq_true plain)
  | fileResponse payload => exact response_safe rt sc now env peerID plain

theorem safeInbox_performAll {h : Host} {out : List Output} (before : SafeInbox h)
    (safe : SafeOutput out) : SafeInbox (h.performAll out) := by
  intro x member path named
  rcases Host.performAll_inbox member with old | ⟨-, sent⟩
  · exact before x old path named
  · exact safe x.2 sent path named

theorem message_touched (h : Host) (now : Int) (env : Env) (peerID : String) (msg : P2PMessage) :
    ∀ a ∈ h.touched (handleP2PMessage rt h.sc now env peerID msg).out, ∀ path ∈ a.2.paths,
      Inside a.1 path := by
  intro a member path named
  obtain ⟨o, sent, touched⟩ := List.mem_flatMap.mp member
  cases msg with
  | fileMetadataUpdate repoID u =>
    rcases peer_sends rt now env.missing sent with ⟨msg, rfl⟩ | ⟨-, -, m, -, rfl⟩
    · cases touched
    · cases touched
  | fileRequest payload =>
    rcases (handleFileRequest_spec h.sc env peerID payload).2 _ sent with
      ⟨response, rfl⟩ | ⟨valid, m, basePath, -, base, rfl | rfl⟩
    · cases touched
    · simp only [Option.mem_toList, Option.map_eq_some_iff] at touched
      obtain ⟨repo, found, rfl⟩ := touched
      rw [found] at base
      rw [List.mem_singleton.mp named, base]
      simp only [Option.map_some, Option.getD_some]
      split
      · exact inside_join (validate_traversal valid) repo.localPath
      · rename_i empty
        rw [not_not.mp empty]
        exact List.nil_prefix
    · cases touched
  | fileResponse payload =>
    obtain ⟨details, -, ⟨data, repo, checked, rfl⟩ | ⟨-, -, rfl⟩ | ⟨-, rfl⟩⟩ := response_out sent
    · obtain ⟨found, down, -⟩ := inlineData_some checked
      simp only [Option.mem_toList, Option.map_eq_some_iff] at touched
      obtain ⟨repo', found', rfl⟩ := touched
      rw [List.mem_singleton.mp named]
      cases Option.some.inj (found.symm.trans found')
      exact inside_join down repo.localPath
    · cases touched
    · cases touched

theorem local_safe (repoID : String) (payload : FileChangedPayload) :
    SafeOutput (handleLocalFileChanged sc now repoID payload).out := by
  intro msg sent
  cases (local_out sent).2

theorem execute_safe (sent : Bool) (task : SyncTask) :
    SafeOutput (executeSyncTask sc sent task).2 := by
  intro msg member
  simp only [executeSyncTask] at member
  split at member
  · cases member
  · split_ifs at member
    · cases List.mem_singleton.mp member
    · cases member
    · cases member

theorem resolution_safe (repoID path resolution peerID : String) :
    SafeOutput (handleConflictResolution sc repoID path resolution peerID).out := by
  intro msg member
  simp only [handleConflictResolution] at member
  split_ifs at member
  · simp only at member
    split at member
    · cases member
    · cases List.mem_singleton.mp member
  · rcases List.mem_append.mp member with member | member
    · split at member
      · cases member
      · cases List.mem_singleton.mp member
    · cases List.mem_singleton.mp member
  · cases member
  · cases member

theorem syncAll_safe : SafeOutput (syncAllRepositoriesWithPeer sc peerID) := by
  intro msg member
  obtain ⟨repo, -, member⟩ := List.mem_flatMap.mp member
  obtain ⟨m, -, eq⟩ := List.mem_map.mp member
  cases eq

theorem safeInbox_next {h after : Host} {e : HostEvent} (before : SafeInbox h)
    (plain : plainEvent e = true) (moved : h.next rt e = some after) : SafeInbox after := by
  cases e with
  | fileChanged now repoID payload content =>
    simp only [Host.next, Option.ite_none_right_eq_some, Option.some.injEq] at moved
    obtain ⟨-, rfl⟩ := moved
    refine safeInbox_performAll ?_ (local_safe h.sc now repoID payload)
    simp only [SafeInbox, (h.edit_frame repoID _ content).2.1]
    exact before
  | message now peerID msg env =>
    cases moved
    refine safeInbox_performAll ?_ (message_safe rt h.sc now env peerID plain)
    cases msg <;> exact before
  | queueRound =>
    cases moved
    exact before
  | execute i sent =>
    obtain ⟨task, -, rfl⟩ := Option.map_eq_some_iff.mp moved
    exact safeInbox_performAll before (execute_safe h.sc sent task)
  | retry i now =>
    obtain ⟨task, -, rfl⟩ := Option.map_eq_some_iff.mp moved
    exact before
  | resolve repoID path resolution peerID removed =>
    cases moved
    refine safeInbox_performAll before (fun msg sent => ?_)
    exact resolution_safe h.sc repoID path resolution peerID msg (List.mem_of_mem_filter sent)
  | daemon i env =>
    obtain ⟨x, -, rfl⟩ := Option.map_eq_some_iff.mp moved
    intro y member
    rw [(Host.applyEffect_frame _ _).2.1] at member
    exact before y (List.mem_of_mem_eraseIdx member)
  | connect peerID =>
    cases moved
    exact safeInbox_performAll before (syncAll_safe _ peerID)
  | disconnect peerID =>
    cases moved
    exact before

end

/-- While every message from a peer is plain, whatever is opened, created, renamed
or removed for peers lies inside the repository it is done for. -/
theorem peer_paths_confined (rt : Runtime) {h : Host} (reached : Reach Host.Initial
      (Guarded (Runs (Host.next rt)) (fun _ e => plainEvent e = true)) h) (e : HostEvent) :
    ∀ a ∈ h.accesses rt e, ∀ path ∈ a.2.paths, Inside a.1 path := by
  have safe : SafeInbox h := by
    refine reach_invariant SafeInbox ?_ ?_ reached
    · intro s start x member
      rw [start.idle.2.2.2] at member
      cases member
    · rintro s e t before ⟨moved, plain⟩
      exact safeInbox_next rt before plain moved
  intro a member
  cases e with
  | message now peerID msg env => exact message_touched rt h now env peerID msg a member
  | daemon i env =>
    simp only [Host.accesses] at member
    split at member
    · rename_i x at_
      obtain ⟨op, done, rfl⟩ := List.mem_map.mp member
      exact handleIpcMessage_inside rt x.1 env (safe x (List.mem_of_getElem? at_)) op done
    · cases member
  | _ => cases member

def deletionOf (path : String) : HostEvent :=
  .message 0 "b" (.fileMetadataUpdate "r" ⟨path, "h", 0, 1, 1, true, 0, none⟩) .fine

theorem peer_paths_confined_docs :
    ∃ h : Host, (∃ ops, h.accesses .plain (.daemon 0 (.fine [])) = ops ∧ ops ≠ []) ∧
      ∀ a ∈ h.accesses .plain (.daemon 0 (.fine [])), ∀ path ∈ a.2.paths, Inside a.1 path := by
  obtain ⟨h, reached, busy⟩ := reach_of_replay (Host.next .plain)
    (fun _ e => plainEvent e = true)
    (.start (Host.started_initial "a" "r" "/r" ["b"])) [deletionOf "docs/note"]
    (fun h => h.accesses .plain (.daemon 0 (.fine [])) = [("/r", .remove "/r/docs/note")]) (by decide)
  exact ⟨h, ⟨_, busy, by decide⟩, peer_paths_confined .plain reached _⟩

theorem backslash_escapes :
    ∃ (h : Host) (e : HostEvent), Reach Host.Initial (Runs (Host.next .plain)) h ∧
      ∃ a ∈ h.accesses .plain e, ∃ path ∈ a.2.paths, ¬ Inside a.1 path := by
  obtain ⟨h, reached, out⟩ := reach_of_replay (Host.next .plain)
    (fun _ _ => True) (.start (Host.started_initial "a" "r" "/r" ["b"]))
    [deletionOf "\\etc\\passwd"]
    (fun h => h.accesses .plain (.daemon 0 (.fine [])) = [("/r", .remove "/etc/passwd")]) (by decide)
  refine ⟨h, .daemon 0 (.fine []), reach_mono (fun _ _ _ step => step.1) reached,
    ("/r", .remove "/etc/passwd"), ?_, "/etc/passwd", by decide, by decide⟩
  rw [out]
  exact List.mem_singleton_self _

end P2PSync
