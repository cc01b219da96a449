import Mathlib.Data.List.AList
import P2PSync.Library.Latest
import P2PSync.Library.Transition

/-! One connection manager with any number of peers: registrations, senders, read loops
and the heartbeat check. What stands under the manager's lock is one step. A connection
is the number of its registration, and its write mutex has the same name. -/
namespace P2PSync

open Transition

/-- A connection on which something went wrong, and the number of registrations there
had been when it was taken from the table. -/
structure Trouble where
  conn : Nat
  since : Nat
  deriving DecidableEq, Repr

inductive SendStage where
  | start
  | waiting (t : Trouble)
  | writing (t : Trouble)
  /-- It returned an error; without a connection, that the peer is not connected. -/
  | failed (trouble : Option Trouble)
  deriving DecidableEq, Repr

def SendStage.trouble : SendStage → Option Trouble
  | .start => none
  | .waiting t | .writing t => some t
  | .failed trouble => trouble

structure Sender where
  peerID : String
  /-- Broadcasts and pings close the connection of the peer after an error. -/
  closes : Bool
  stage : SendStage
  deriving DecidableEq, Repr

structure Closing where
  peerID : String
  trouble : Option Trouble
  /-- The peer was registered again since the trouble's connection was looked up. -/
  again : Bool
  victim : Nat
  deriving DecidableEq, Repr

structure PeerConnections where
  heartbeatTimeout : Int
  connections : AList fun _ : String => Nat
  lastSeen : AList fun _ : String => Int
  closed : List Nat
  senders : List Sender
  readers : List (String × Nat)
  /-- The peers that a running check has still to disconnect. -/
  toDisconnect : Option (List (String × Option Trouble))
  /-- History: the peers in the order of their registrations. -/
  registrations : List String
  /-- History: every closing that was not the replacement of a connection. -/
  closings : List Closing

inductive ConnEvent where
  | register (peerID : String) (now : Int)
  | sendToPeer (peerID : String)
  | broadcast
  | lookUp (i : Nat)
  | lock (i : Nat)
  | written (i : Nat) (ok : Bool)
  | afterError (i : Nat)
  | received (i : Nat) (now : Int)
  | readExit (i : Nat)
  | checkHeartbeats (now : Int)
  | disconnect (i : Nat)
  | ping
  deriving DecidableEq, Repr

namespace PeerConnections

def new (heartbeatTimeout : Int) : PeerConnections :=
  ⟨heartbeatTimeout, ∅, ∅, [], [], [], none, [], []⟩

def register (m : PeerConnections) (peerID : String) (now : Int) : PeerConnections :=
  { m with
    connections := m.connections.insert peerID m.registrations.length
    lastSeen := m.lastSeen.insert peerID now
    closed := (m.connections.lookup peerID).toList ++ m.closed
    readers := m.readers ++ [(peerID, m.registrations.length)]
    registrations := m.registrations ++ [peerID] }

/-- The trouble is history: CloseConnection gets the peer's ID only. -/
def closeConnection (m : PeerConnections) (peerID : String) (trouble : Option Trouble) :
    PeerConnections :=
  match m.connections.lookup peerID with
  | some conn => { m with
    connections := m.connections.erase peerID
    lastSeen := m.lastSeen.erase peerID
    closed := conn :: m.closed
    closings := m.closings ++
      [⟨peerID, trouble, trouble.any (fun t => peerID ∈ m.registrations.drop t.since), conn⟩] }
  | none => m

def closeConnectionIfMatch (m : PeerConnections) (peerID : String) (conn : Nat) : PeerConnections :=
  if m.connections.lookup peerID = some conn then m.closeConnection peerID (some ⟨conn, conn + 1⟩)
  else m

def current (m : PeerConnections) (peerID : String) : Option Trouble :=
  (m.connections.lookup peerID).map (⟨·, m.registrations.length⟩)

def setStage (m : PeerConnections) (i : Nat) (stage : SendStage) : PeerConnections :=
  { m with senders := m.senders.modify i ({ · with stage := stage }) }

def toAll (m : PeerConnections) : List Sender := m.connections.keys.map (⟨·, true, .start⟩)

def next (m : PeerConnections) : ConnEvent → Option PeerConnections
  | .register peerID now => some (m.register peerID now)
  | .sendToPeer peerID => some { m with senders := m.senders ++ [⟨peerID, false, .start⟩] }
  | .broadcast => some { m with senders := m.senders ++ m.toAll }
  | .lookUp i =>
    m.senders[i]?.bind fun s =>
      match s.stage with
      | .start => some (m.setStage i (match m.current s.peerID with
        | some t => .waiting t
        | none => .failed none))
      | _ => none
  | .lock i =>
    m.senders[i]?.bind fun s =>
      match s.stage with
      | .waiting t =>
        if m.senders.all (fun s' => match s'.stage with
          | .writing t' => t'.conn ≠ t.conn
          | _ => true) then some (m.setStage i (.writing t))
        else none
      | _ => none
  | .written i ok =>
    m.senders[i]?.bind fun s =>
      match s.stage with
      | .writing t =>
        if ok then
          if t.conn ∈ m.closed then none else some { m with senders := m.senders.eraseIdx i }
        else some (m.setStage i (.failed (some t)))
      | _ => none
  | .afterError i =>
    m.senders[i]?.bind fun s =>
      match s.stage with
      | .failed trouble =>
        let m := { m with senders := m.senders.eraseIdx i }
        some (if s.closes then m.closeConnection s.peerID trouble else m)
      | _ => none
  | .received i now =>
    m.readers[i]?.map fun r => { m with lastSeen := m.lastSeen.insert r.1 now }
  | .readExit i =>
    m.readers[i]?.map fun r =>
      ({ m with readers := m.readers.eraseIdx i }).closeConnectionIfMatch r.1 r.2
  | .checkHeartbeats now =>
    if m.toDisconnect = none then
      let late := m.lastSeen.entries.filter (fun e => m.heartbeatTimeout < now - e.2)
      some { m with toDisconnect := some (late.map (fun e => (e.1, m.current e.1))) }
    else none
  | .disconnect i =>
    m.toDisconnect.bind fun late => late[i]?.map fun x =>
      ({ m with toDisconnect := some (late.eraseIdx i) }).closeConnection x.1 x.2
  | .ping =>
    if m.toDisconnect = some [] then
      some { m with toDisconnect := none, senders := m.senders ++ m.toAll }
    else none

def Initial (m : PeerConnections) : Prop := ∃ timeout, m = new timeout

theorem new_initial (timeout : Int) : (new timeout).Initial := ⟨timeout, rfl⟩

def Sighted (m : PeerConnections) (peerID : String) (t : Trouble) : Prop :=
  t.since ≤ m.registrations.length ∧ Latest (m.registrations.take t.since) peerID t.conn

structure Recorded (m : PeerConnections) : Prop where
  latest : ∀ p c, m.connections.lookup p = some c → Latest m.registrations p c
  closings : ∀ k ∈ m.closings, ∀ t, k.trouble = some t → (k.victim = t.conn ↔ k.again = false)
  accounted : ∀ (p : String) (c : Nat), m.registrations[c]? = some p →
    m.connections.lookup p = some c ∨ p ∈ m.registrations.drop (c + 1) ∨
      ∃ k ∈ m.closings, k.victim = c

structure Kept (m : PeerConnections) : Prop where
  recorded : m.Recorded
  senders : ∀ s ∈ m.senders, ∀ t, s.stage.trouble = some t → m.Sighted s.peerID t
  late : ∀ x ∈ m.toDisconnect.getD [], ∀ t, x.2 = some t → m.Sighted x.1 t

variable {m m' : PeerConnections}

theorem Recorded.current (recorded : m.Recorded) {p : String} {t : Trouble}
    (found : m.current p = some t) : m.Sighted p t := by
  obtain ⟨c, registered, rfl⟩ := Option.map_eq_some_iff.mp found
  refine ⟨le_rfl, ?_⟩
  rw [List.take_length]
  exact recorded.latest p c registered

theorem Sighted.register {p : String} {t : Trouble} (sighted : m.Sighted p t) (q : String)
    (now : Int) : (m.register q now).Sighted p t := by
  refine ⟨?_, ?_⟩
  · simp only [PeerConnections.register, List.length_append, List.length_singleton]
    exact Nat.le_succ_of_le sighted.1
  · simp only [PeerConnections.register, List.take_append_of_le_length sighted.1]
    exact sighted.2

theorem Recorded.register (recorded : m.Recorded) (q : String) (now : Int) :
    (m.register q now).Recorded := by
  refine ⟨?_, recorded.closings, ?_⟩
  · intro p c found
    simp only [PeerConnections.register] at found ⊢
    by_cases here : p = q
    · subst here
      rw [AList.lookup_insert] at found
      cases found
      exact Latest.of_snoc m.registrations p
    · rw [AList.lookup_insert_ne here] at found
      exact (recorded.latest p c found).snoc (Ne.symm here)
  · intro p c at_
    simp only [PeerConnections.register] at at_ ⊢
    rcases Nat.lt_or_ge c m.registrations.length with old | new
    · rw [List.getElem?_append_left old] at at_
      rw [List.drop_append_of_le_length old, List.mem_append, List.mem_singleton]
      rcases recorded.accounted p c at_ with registered | replaced | closed
      · by_cases here : p = q
        · exact Or.inr (Or.inl (Or.inr here))
        · rw [AList.lookup_insert_ne here]
          exact Or.inl registered
      · exact Or.inr (Or.inl (Or.inl replaced))
      · exact Or.inr (Or.inr closed)
    · rw [List.getElem?_append_right new, List.getElem?_singleton] at at_
      split at at_
      · cases at_
        have last : c = m.registrations.length := by omega
        rw [last, AList.lookup_insert]
        exact Or.inl rfl
      · cases at_

theorem Recorded.close (recorded : m.Recorded) {p : String} {trouble : Option Trouble}
    (sighted : ∀ t, trouble = some t → m.Sighted p t) : (m.closeConnection p trouble).Recorded := by
  unfold closeConnection
  split
  · rename_i conn registered
    have latest := recorded.latest p conn registered
    refine ⟨?_, ?_, ?_⟩
    · intro q c found
      by_cases here : q = p
      · rw [here, AList.lookup_erase] at found
        cases found
      · rw [AList.lookup_erase_ne here] at found
        exact recorded.latest q c found
    · intro k member t same
      rcases List.mem_append.mp member with old | new
      · exact recorded.closings k old t same
      · cases List.mem_singleton.mp new
        obtain rfl : trouble = some t := same
        rw [latest.eq_iff (sighted t rfl).2]
        simp
    · intro q c at_
      rcases recorded.accounted q c at_ with current | replaced | ⟨k, member, closed⟩
      · by_cases here : q = p
        · subst here
          cases Option.some.inj (registered.symm.trans current)
          exact Or.inr (Or.inr ⟨_, List.mem_append_right _ (List.mem_singleton_self _), rfl⟩)
        · rw [AList.lookup_erase_ne here]
          exact Or.inl current
      · exact Or.inr (Or.inl replaced)
      · exact Or.inr (Or.inr ⟨k, List.mem_append_left _ member, closed⟩)
  · exact recorded

theorem close_frame (m : PeerConnections) (p : String) (trouble : Option Trouble) :
    (m.closeConnection p trouble).registrations = m.registrations ∧
      (m.closeConnection p trouble).senders = m.senders ∧
      (m.closeConnection p trouble).toDisconnect = m.toDisconnect := by
  unfold closeConnection
  split <;> exact ⟨rfl, rfl, rfl⟩

section

variable (kept : m.Kept) {i : Nat} {s : Sender}

include kept

theorem Kept.close {p : String} {trouble : Option Trouble}
    (sighted : ∀ t, trouble = some t → m.Sighted p t) : (m.closeConnection p trouble).Kept := by
  obtain ⟨registrations, senders, late⟩ := close_frame m p trouble
  refine ⟨kept.recorded.close sighted, ?_, ?_⟩
  · rw [senders]
    intro s member t same
    rw [Sighted, registrations]
    exact kept.senders s member t same
  · rw [late]
    intro x member t same
    rw [Sighted, registrations]
    exact kept.late x member t same

theorem Kept.register (q : String) (now : Int) : (m.register q now).Kept where
  recorded := kept.recorded.register q now
  senders := fun s member t same => (kept.senders s member t same).register q now
  late := fun x member t same => (kept.late x member t same).register q now

theorem Kept.tasks {senders : List Sender} {late : Option (List (String × Option Trouble))}
    (sent : ∀ s ∈ senders, ∀ t, s.stage.trouble = some t → m.Sighted s.peerID t)
    (listed : ∀ x ∈ late.getD [], ∀ t, x.2 = some t → m.Sighted x.1 t) :
    ({ m with senders := senders, toDisconnect := late } : PeerConnections).Kept :=
  ⟨⟨kept.recorded.latest, kept.recorded.closings, kept.recorded.accounted⟩, sent, listed⟩

theorem Kept.setStage {stage : SendStage}
    (sighted : ∀ s, m.senders[i]? = some s → ∀ t, stage.trouble = some t → m.Sighted s.peerID t) :
    (m.setStage i stage).Kept := by
  refine kept.tasks (fun s member t same => ?_) kept.late
  obtain ⟨j, at_⟩ := List.mem_iff_getElem?.mp member
  rw [List.getElem?_modify] at at_
  obtain ⟨old, was, rfl⟩ := Option.map_eq_some_iff.mp at_
  by_cases here : i = j
  · subst here
    simp only [if_true] at same ⊢
    exact sighted old was t same
  · simp only [if_neg here] at same ⊢
    exact kept.senders old (List.mem_of_getElem? was) t same

theorem Kept.carry (at_ : m.senders[i]? = some s) {stage : SendStage}
    (same : stage.trouble = s.stage.trouble) : (m.setStage i stage).Kept := by
  apply kept.setStage
  intro s' again t troubled
  cases Option.some.inj (at_.symm.trans again)
  exact kept.senders s (List.mem_of_getElem? at_) t (same.symm.trans troubled)

theorem Kept.lookUp (at_ : m.senders[i]? = some s) : (m.setStage i (match m.current s.peerID with
      | some t => .waiting t
      | none => .failed none)).Kept := by
  apply kept.setStage
  intro s' again t same
  cases Option.some.inj (at_.symm.trans again)
  cases found : m.current s.peerID with
  | none =>
    rw [found] at same
    cases same
  | some t' =>
    rw [found] at same
    cases same
    exact kept.recorded.current found

theorem Kept.read (lastSeen : AList fun _ : String => Int) (readers : List (String × Nat)) :
    ({ m with lastSeen := lastSeen, readers := readers } : PeerConnections).Kept :=
  ⟨⟨kept.recorded.latest, kept.recorded.closings, kept.recorded.accounted⟩, kept.senders, kept.late⟩

theorem Kept.spawn {more : List Sender} (new : ∀ s ∈ more, s.stage = .start)
    {late : Option (List (String × Option Trouble))}
    (listed : ∀ x ∈ late.getD [], ∀ t, x.2 = some t → m.Sighted x.1 t) :
    ({ m with senders := m.senders ++ more, toDisconnect := late } : PeerConnections).Kept := by
  refine kept.tasks (fun s member t same => ?_) listed
  rcases List.mem_append.mp member with old | fresh
  · exact kept.senders s old t same
  · rw [new s fresh] at same
    cases same

end

theorem toAll_start (m : PeerConnections) : ∀ s ∈ m.toAll, s.stage = .start := by
  intro s member
  obtain ⟨p, -, rfl⟩ := List.mem_map.mp member
  rfl

theorem Kept.closeIfMatch (kept : m.Kept) (p : String) (conn : Nat) :
    (m.closeConnectionIfMatch p conn).Kept := by
  unfold closeConnectionIfMatch
  split
  · rename_i registered
    apply kept.close
    intro t same
    cases same
    have latest := kept.recorded.latest p conn registered
    refine ⟨latest.bound, ?_, ?_⟩
    · rw [List.getElem?_take_of_lt (Nat.lt_succ_self conn)]
      exact latest.1
    · rw [List.drop_eq_nil_of_le (List.length_take_le _ _)]
      simp
  · exact kept

theorem Kept.erase (kept : m.Kept) (i : Nat) :
    ({ m with senders := m.senders.eraseIdx i } : PeerConnections).Kept :=
  kept.tasks (fun s member => kept.senders s (List.mem_of_mem_eraseIdx member)) kept.late

theorem kept_next {event : ConnEvent} (kept : m.Kept) (moved : m.next event = some m') :
    m'.Kept := by
  cases event with
  | register peerID now =>
    cases moved
    exact kept.register peerID now
  | sendToPeer peerID =>
    cases moved
    exact kept.spawn (by simp) kept.late
  | broadcast =>
    cases moved
    exact kept.spawn m.toAll_start kept.late
  | lookUp i =>
    obtain ⟨s, at_, moved⟩ := Option.bind_eq_some_iff.mp moved
    split at moved
    · cases moved
      exact kept.lookUp at_
    · cases moved
  | lock i =>
    obtain ⟨s, at_, moved⟩ := Option.bind_eq_some_iff.mp moved
    split at moved
    · rename_i t waiting
      split at moved
      · cases moved
        exact kept.carry at_ (by rw [waiting]; rfl)
      · cases moved
    · cases moved
  | written i ok =>
    obtain ⟨s, at_, moved⟩ := Option.bind_eq_some_iff.mp moved
    split at moved
    · rename_i t writing
      split at moved
      · split at moved
        · cases moved
        · cases moved
          exact kept.erase i
      · cases moved
        exact kept.carry at_ (by rw [writing]; rfl)
    · cases moved
  | afterError i =>
    obtain ⟨s, at_, moved⟩ := Option.bind_eq_some_iff.mp moved
    split at moved
    · rename_i trouble failed
      cases moved
      split
      · apply (kept.erase i).close
        rintro t rfl
        exact kept.senders s (List.mem_of_getElem? at_) t (by rw [failed]; rfl)
      · exact kept.erase i
    · cases moved
  | received i now =>
    obtain ⟨r, -, rfl⟩ := Option.map_eq_some_iff.mp moved
    exact kept.read _ _
  | readExit i =>
    obtain ⟨r, -, rfl⟩ := Option.map_eq_some_iff.mp moved
    exact (kept.read _ _).closeIfMatch r.1 r.2
  | checkHeartbeats now =>
    simp only [next] at moved
    split at moved
    · cases moved
      refine kept.tasks kept.senders (fun x member t same => ?_)
      obtain ⟨e, -, rfl⟩ := List.mem_map.mp member
      exact kept.recorded.current same
    · cases moved
  | disconnect i =>
    obtain ⟨late, running, moved⟩ := Option.bind_eq_some_iff.mp moved
    obtain ⟨x, at_, rfl⟩ := Option.map_eq_some_iff.mp moved
    have listed : ∀ x ∈ late, ∀ t, x.2 = some t → m.Sighted x.1 t := by
      have all := kept.late
      rwa [running] at all
    have rest : ({ m with toDisconnect := some (late.eraseIdx i) } : PeerConnections).Kept :=
      kept.tasks kept.senders (fun x member => listed x (List.mem_of_mem_eraseIdx member))
    exact rest.close (fun t same => listed x (List.mem_of_getElem? at_) t same)
  | ping =>
    simp only [next] at moved
    split at moved
    · cases moved
      exact kept.spawn m.toAll_start (by simp)
    · cases moved

theorem kept_reach (reached : Reach Initial (Runs next) m) : m.Kept := by
  apply reach_invariant Kept _ _ reached
  · rintro m ⟨timeout, rfl⟩
    refine ⟨⟨?_, ?_, ?_⟩, ?_, ?_⟩ <;> simp [new]
  · intro m event m' kept moved
    exact kept_next kept moved

end PeerConnections

/-- In every run, what follows from trouble on a connection closes that connection
exactly if its peer has not been registered again since the connection was looked up.
Every connection that is gone was replaced or is among these closings. -/
theorem trouble_closes_own_iff {m : PeerConnections} (reached : Reach PeerConnections.Initial
      (Runs PeerConnections.next) m) :
    (∀ k ∈ m.closings, ∀ t, k.trouble = some t → (k.victim = t.conn ↔ k.again = false)) ∧
    ∀ (peerID : String) (c : Nat), m.registrations[c]? = some peerID →
      m.connections.lookup peerID = some c ∨ peerID ∈ m.registrations.drop (c + 1) ∨
        ∃ k ∈ m.closings, k.victim = c := by
  have recorded := (PeerConnections.kept_reach reached).recorded
  exact ⟨recorded.closings, recorded.accounted⟩

def silentPeer : List ConnEvent :=
  [.register "a" 0, .register "b" 9000, .checkHeartbeats 16000, .disconnect 0, .ping, .lookUp 0,
    .register "a" 17000, .lock 0, .written 0 false, .afterError 0]

theorem trouble_closes_own_iff_silentPeer : ∃ m : PeerConnections,
    m.closings = [⟨"a", some ⟨0, 2⟩, false, 0⟩, ⟨"b", some ⟨1, 2⟩, false, 1⟩] ∧
    m.connections.lookup "a" = some 2 ∧
    ∀ k ∈ m.closings, ∀ t, k.trouble = some t → (k.victim = t.conn ↔ k.again = false) := by
  obtain ⟨m, reached, closings, connected⟩ := reach_of_replay PeerConnections.next
    (fun _ _ => True) (.start (PeerConnections.new_initial 15000)) silentPeer
    (fun m => m.closings = [⟨"a", some ⟨0, 2⟩, false, 0⟩, ⟨"b", some ⟨1, 2⟩, false, 1⟩] ∧
      m.connections.lookup "a" = some 2) (by decide +kernel)
  have run : Reach PeerConnections.Initial (Runs PeerConnections.next) m :=
    reach_mono (fun _ _ _ step => step.1) reached
  exact ⟨m, closings, connected, (trouble_closes_own_iff run).1⟩

/-- The peer connects anew while a broadcast is about to be written to the connection
it had. The registration closes the old one, so the write fails, and the sender
closes the new one. -/
theorem broadcast_closes_replacement : ∃ m : PeerConnections,
    Reach PeerConnections.Initial (Guarded
      (Runs PeerConnections.next) (fun _ _ => True)) m ∧
    m.closings = [⟨"a", some ⟨0, 1⟩, true, 1⟩] ∧ m.connections.lookup "a" = none ∧
    1 ∈ m.closed :=
  reach_of_replay PeerConnections.next (fun _ _ => True)
    (.start (PeerConnections.new_initial 15000))
    [.register "a" 0, .broadcast, .lookUp 0, .register "a" 1, .lock 0, .written 0 false,
      .afterError 0]
    (fun m => m.closings = [⟨"a", some ⟨0, 1⟩, true, 1⟩] ∧ m.connections.lookup "a" = none ∧
      1 ∈ m.closed) (by decide +kernel)

end P2PSync
