import P2PSync.Confinement
import P2PSync.Library.Progress

/-! What becomes of a message from a peer before anything checks it. The types of the
synchronisation go to the coordinator, which looks at their paths; every other type is
passed on to the daemons as it came. -/
namespace P2PSync

open Transition

inductive WireMessage where
  | ping
  | pong
  | sync (msg : P2PMessage)
  | ipc (msg : IpcMessage)
  /-- A type, or a payload under some type, that nobody can read. -/
  | other (type : String)
  deriving DecidableEq

def P2PMessage.type : P2PMessage → String
  | .fileMetadataUpdate .. => "file_metadata_update"
  | .fileRequest _ => "file_request"
  | .fileResponse _ => "file_response"

def IpcMessage.type : IpcMessage → String
  | .syncFromPeer .. => "sync_from_peer"
  | .prepareFileTransfer .. => "prepare_file_transfer"
  | .conflictDetected .. => "conflict_detected"

def WireMessage.type : WireMessage → String
  | .ping => "ping"
  | .pong => "pong"
  | .sync msg => msg.type
  | .ipc msg => msg.type
  | .other type => type

/-- Who gets a message: the loop that reads the connection, the coordinator, or
everybody on the IPC socket. -/
inductive Route where
  | readLoop | coordinator | daemons
  deriving DecidableEq

/-- The read loop answers a ping and drops a pong; main's callback sees the rest. -/
def route (type : String) : Route :=
  if type = "ping" then .readLoop
  else if type = "pong" then .readLoop
  else if type = "file_metadata_update" ∨ type = "file_request" ∨ type = "file_response" then
    .coordinator
  else .daemons

theorem route_sync (msg : P2PMessage) : route msg.type = .coordinator := by
  cases msg <;> rfl

theorem route_ipc (msg : IpcMessage) : route msg.type = .daemons := by
  cases msg <;> rfl

inductive ProgramEvent where
  | host (e : HostEvent)
  | received (now : Int) (peerID : String) (msg : WireMessage) (env : Env)

namespace Host

/-- The machine after a message of a peer. Where the payload fits no type that the receiver
knows, the coordinator returns an error and the daemons do nothing. -/
def receive (rt : Runtime) (h : Host) (now : Int) (peerID : String) (msg : WireMessage)
    (env : Env) : Option Host :=
  match route msg.type, msg with
  | .coordinator, .sync msg => h.next rt (.message now peerID msg env)
  | .daemons, .ipc msg => some (h.perform (.sendIpc msg))
  | _, _ => some h

def program (rt : Runtime) (h : Host) : ProgramEvent → Option Host
  | .host (.message ..) => none
  | .host e => h.next rt e
  | .received now peerID msg env => h.receive rt now peerID msg env

theorem receive_sync (rt : Runtime) (h : Host) (now : Int) (peerID : String) (msg : P2PMessage)
    (env : Env) :
    h.receive rt now peerID (.sync msg) env = h.next rt (.message now peerID msg env) := by
  simp only [receive, WireMessage.type, route_sync]

theorem receive_ipc (rt : Runtime) (h : Host) (now : Int) (peerID : String) (msg : IpcMessage)
    (env : Env) : h.receive rt now peerID (.ipc msg) env =
      some { h with inbox := h.inbox ++ h.daemons.map (·, msg) } := by
  simp only [receive, WireMessage.type, route_ipc, perform]

inductive Passed (rt : Runtime) (h : Host) : ProgramEvent → Host → Prop
  | own {e : HostEvent} {after : Host} : h.next rt e = some after → (∀ now peerID msg env,
      e ≠ .message now peerID msg env) → Passed rt h (.host e) after
  | sync {now : Int} {peerID : String} {msg : P2PMessage} {env : Env} {after : Host} :
      h.next rt (.message now peerID msg env) = some after →
      Passed rt h (.received now peerID (.sync msg) env) after
  | forwarded (now : Int) (peerID : String) (msg : IpcMessage) (env : Env) :
      Passed rt h (.received now peerID (.ipc msg) env)
        { h with inbox := h.inbox ++ h.daemons.map (·, msg) }
  | nothing (now : Int) (peerID : String) (msg : WireMessage) (env : Env) :
      Passed rt h (.received now peerID msg env) h

theorem passed_of_program {rt : Runtime} {h after : Host} {e : ProgramEvent}
    (moved : h.program rt e = some after) : Passed rt h e after := by
  cases e with
  | host e =>
    cases e with
    | message => cases moved
    | _ => exact .own moved (by simp)
  | received now peerID msg env =>
    cases msg with
    | sync msg => exact .sync ((receive_sync ..).symm.trans moved)
    | ipc msg =>
      cases (receive_ipc ..).symm.trans moved
      exact .forwarded now peerID msg env
    | ping => cases moved; exact .nothing ..
    | pong => cases moved; exact .nothing ..
    | other type =>
      have same : h = after := by
        simp only [program, receive] at moved
        split at moved <;> simp_all
      subst same
      exact .nothing ..

theorem next_inbox {rt : Runtime} {h after : Host} {e : HostEvent}
    (moved : h.next rt e = some after) {x : Daemon × IpcMessage} (waits : x ∈ after.inbox) :
    x ∈ h.inbox ∨ .sendIpc x.2 ∈ h.outputs rt e := by
  cases e with
  | fileChanged now repoID payload content =>
    simp only [Host.next, Option.ite_none_right_eq_some, Option.some.injEq] at moved
    obtain ⟨-, rfl⟩ := moved
    refine (performAll_inbox waits).imp (fun old => ?_) And.right
    rwa [(h.edit_frame repoID _ content).2.1] at old
  | message now peerID msg env =>
    cases moved
    refine (performAll_inbox waits).imp (fun old => ?_) And.right
    cases msg <;> exact old
  | queueRound =>
    cases moved
    exact .inl waits
  | execute i sent =>
    obtain ⟨task, at_, rfl⟩ := Option.map_eq_some_iff.mp moved
    refine (performAll_inbox waits).imp id fun told => ?_
    rw [outputs, at_]
    exact told.2
  | retry i now =>
    obtain ⟨task, -, rfl⟩ := Option.map_eq_some_iff.mp moved
    exact .inl waits
  | resolve repoID path resolution peerID removed =>
    cases moved
    exact (performAll_inbox waits).imp id And.right
  | daemon i env =>
    obtain ⟨y, -, rfl⟩ := Option.map_eq_some_iff.mp moved
    rw [(applyEffect_frame _ _).2.1] at waits
    exact .inl (List.mem_of_mem_eraseIdx waits)
  | connect peerID =>
    cases moved
    exact (performAll_inbox waits).imp id And.right
  | disconnect peerID =>
    cases moved
    exact .inl waits

theorem outputs_safe (rt : Runtime) (h : Host) {e : HostEvent} (plain : plainEvent e = true) :
    SafeOutput (h.outputs rt e) := by
  cases e with
  | fileChanged now repoID payload content => exact local_safe h.sc now repoID payload
  | message now peerID msg env => exact message_safe rt h.sc now env peerID plain
  | execute i sent =>
    simp only [outputs]
    cases h.running[i]? with
    | none => exact fun msg sent => by cases sent
    | some task => exact execute_safe h.sc sent task
  | resolve repoID path resolution peerID removed =>
    exact fun msg sent => resolution_safe h.sc repoID path resolution peerID msg
      (List.mem_of_mem_filter sent)
  | connect peerID => exact syncAll_safe _ peerID
  | _ => exact fun msg sent => by cases sent

end Host

def Forwarded (events : List ProgramEvent) (msg : IpcMessage) : Prop :=
  ∃ now peerID env, .received now peerID (.ipc msg) env ∈ events

def ProgramEvent.plain : ProgramEvent → Bool
  | .received _ _ (.sync msg) _ => plainMessage msg
  | _ => true

def SafeMail (events : List ProgramEvent) (h : Host) : Prop :=
  ∀ x ∈ h.inbox, Forwarded events x.2 ∨ ∀ path, x.2.filePath = some path → daemonSafe path = true

theorem safeMail_next {rt : Runtime} {events : List ProgramEvent} {h after : Host} {e : HostEvent}
    (before : SafeMail events h) (plain : plainEvent e = true) (moved : h.next rt e = some after) :
    SafeMail events after := by
  intro x waits
  rcases Host.next_inbox moved waits with old | sent
  · exact before x old
  · exact .inr (Host.outputs_safe rt h plain x.2 sent)

theorem safeMail_program {rt : Runtime} {events : List ProgramEvent} {h after : Host}
    {e : ProgramEvent} (before : SafeMail events h) (plain : e.plain = true) (member : e ∈ events)
    (moved : h.program rt e = some after) : SafeMail events after := by
  cases Host.passed_of_program moved with
  | @own e after moved other =>
    refine safeMail_next before ?_ moved
    cases e with
    | message now peerID msg env => exact absurd rfl (other now peerID msg env)
    | _ => rfl
  | @sync now peerID msg env after moved =>
    exact safeMail_next (e := .message now peerID msg env) before plain moved
  | forwarded now peerID msg env =>
    intro x waits
    rcases List.mem_append.mp waits with old | new
    · exact before x old
    · obtain ⟨d, -, rfl⟩ := List.mem_map.mp new
      exact .inl ⟨now, peerID, env, member⟩
  | nothing => exact before

theorem target_absolute (d : Daemon) {path : String} (absolute : isAbs path = true)
    (slashes : '\\' ∉ path.toList) : d.target path = path := by
  have same : normalizePath path = path := by
    have kept : ∀ ch ∈ path.toList, (if ch = '\\' then '/' else ch) = ch := by
      intro ch member
      refine if_neg ?_
      rintro rfl
      exact slashes member
    rw [normalizePath, List.map_congr_left kept, List.map_id', String.ofList_toList]
  have replaces : Posix.append d.watchPath.toList path.toList = path.toList := if_pos absolute
  rw [Daemon.target, same, fsAppend, replaces, String.ofList_toList]

def deleteAnywhere (peerID path : String) : WireMessage :=
  .ipc (.syncFromPeer peerID path "" true "" 0)

section Results

/-- Whatever is touched for peers outside the repository it is done for, on any run in which
the coordinator's own messages are plain, a daemon touches on a message that a peer wrote
for it and main passed on. Outside is meant of the texts of paths, without links. -/
theorem outside_access_forwarded (rt : Runtime) {start h : Host} (fresh : start.Initial)
    {events : List ProgramEvent} (run : Path (Guarded (Runs (Host.program rt))
      (fun _ e => e.plain = true)) start events h) (e : HostEvent) :
    ∀ a ∈ h.accesses rt e, ∀ path ∈ a.2.paths,
      Inside a.1 path ∨ ∃ i env d msg, e = .daemon i env ∧ h.inbox[i]? = some (d, msg) ∧
        Forwarded events msg := by
  have mail : SafeMail events h := by
    refine Path.invariant ?_ run.labelled ?_
    · rintro s e t before ⟨⟨moved, plain⟩, member⟩
      exact safeMail_program before plain member moved
    · intro x waits
      rw [fresh.idle.2.2.2] at waits
      cases waits
  intro a member path named
  cases e with
  | message now peerID msg env =>
    exact .inl (message_touched rt h now env peerID msg a member path named)
  | daemon i env =>
    simp only [Host.accesses] at member
    split at member
    · rename_i x at_
      obtain ⟨op, done, rfl⟩ := List.mem_map.mp member
      rcases mail x (List.mem_of_getElem? at_) with own | safe
      · exact .inr ⟨i, env, x.1, x.2, rfl, at_, own⟩
      · exact .inl (handleIpcMessage_inside rt x.1 env safe op done path named)
    · cases member
  | _ => cases member

theorem outside_access_forwarded_passwd :
    ∃ h : Host, h.accesses .plain (.daemon 0 (.fine [])) = [("/r", .remove "/etc/passwd")] ∧
      ∀ a ∈ h.accesses .plain (.daemon 0 (.fine [])), ∀ path ∈ a.2.paths,
        Inside a.1 path ∨ ∃ i env d msg, HostEvent.daemon 0 (.fine []) = .daemon i env ∧
          h.inbox[i]? = some (d, msg) ∧
          Forwarded [.received 0 "b" (deleteAnywhere "b" "/etc/passwd") .fine] msg := by
  obtain ⟨h, run, busy⟩ := path_of_replay (Host.program .plain)
    (fun _ e => e.plain = true) (s := Host.started "a" "r" "/r" ["b"])
    [.received 0 "b" (deleteAnywhere "b" "/etc/passwd") .fine]
    (fun h => h.accesses .plain (.daemon 0 (.fine [])) = [("/r", .remove "/etc/passwd")]) (by decide)
  exact ⟨h, busy, outside_access_forwarded .plain (Host.started_initial "a" "r" "/r" ["b"]) run _⟩

end Results

end P2PSync
