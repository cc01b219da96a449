import P2PSync.Disconnection

/-! The connections, their write mutexes and the times at which the peers were heard.
They change together, except in a read loop, which sets a time and does not look whether
its connection is still there. -/
namespace P2PSync

structure ConnTables where
  manager : PeerConnections
  writeMus : AList fun _ : String => Nat
  /-- History: the connection that set the time of a peer last. -/
  refreshed : AList fun _ : String => Nat

inductive TableEvent where
  | step (event : ConnEvent)
  | closeConnection (peerID : String)
  deriving DecidableEq, Repr

namespace ConnTables

def new (heartbeatTimeout : Int) : ConnTables := ⟨.new heartbeatTimeout, ∅, ∅⟩

def register (t : ConnTables) (peerID : String) (now : Int) : ConnTables where
  manager := t.manager.register peerID now
  writeMus := t.writeMus.insert peerID t.manager.registrations.length
  refreshed := t.refreshed.insert peerID t.manager.registrations.length

def closeConnection (t : ConnTables) (peerID : String) (trouble : Option Trouble) : ConnTables :=
  if peerID ∈ t.manager.connections then
    ⟨t.manager.closeConnection peerID trouble, t.writeMus.erase peerID, t.refreshed.erase peerID⟩
  else t

def closeConnectionIfMatch (t : ConnTables) (peerID : String) (conn : Nat) : ConnTables :=
  if t.manager.connections.lookup peerID = some conn then
    t.closeConnection peerID (some ⟨conn, conn + 1⟩)
  else t

def next (t : ConnTables) : TableEvent → Option ConnTables
  | .closeConnection peerID => some (t.closeConnection peerID none)
  | .step (.register peerID now) => some (t.register peerID now)
  | .step (.afterError i) =>
    t.manager.senders[i]?.bind fun s =>
      match s.stage with
      | .failed trouble =>
        let t := { t with manager := { t.manager with senders := t.manager.senders.eraseIdx i } }
        some (if s.closes then t.closeConnection s.peerID trouble else t)
      | _ => none
  | .step (.received i now) =>
    t.manager.readers[i]?.map fun r => { t with
      manager := { t.manager with lastSeen := t.manager.lastSeen.insert r.1 now }
      refreshed := t.refreshed.insert r.1 r.2 }
  | .step (.readExit i) =>
    t.manager.readers[i]?.map fun r =>
      ({ t with manager := { t.manager with readers := t.manager.readers.eraseIdx i } } :
        ConnTables).closeConnectionIfMatch r.1 r.2
  | .step (.disconnect i) =>
    t.manager.toDisconnect.bind fun late => late[i]?.map fun x =>
      ({ t with manager := { t.manager with toDisconnect := some (late.eraseIdx i) } } :
        ConnTables).closeConnection x.1 x.2
  | .step event => (t.manager.next event).map ({ t with manager := · })

def run (t : ConnTables) (events : List TableEvent) : Option ConnTables := events.foldlM next t

structure Consistent (t : ConnTables) : Prop where
  writeMus : ∀ p, p ∈ t.writeMus ↔ p ∈ t.manager.connections
  lastSeen : ∀ p, p ∈ t.manager.lastSeen ↔ p ∈ t.manager.connections
  refreshed : ∀ p c, t.manager.connections.lookup p = some c → t.refreshed.lookup p = some c

/-! What the manager does is what it does without the other tables. -/

variable {t t' : ConnTables}

theorem manager_closeConnection (t : ConnTables) (peerID : String) (trouble : Option Trouble) :
    (t.closeConnection peerID trouble).manager = t.manager.closeConnection peerID trouble := by
  unfold closeConnection
  split
  · rfl
  · rename_i absent
    rw [PeerConnections.closeConnection, AList.lookup_eq_none.mpr absent]

theorem manager_closeIfMatch (t : ConnTables) (peerID : String) (conn : Nat) :
    (t.closeConnectionIfMatch peerID conn).manager =
      t.manager.closeConnectionIfMatch peerID conn := by
  unfold closeConnectionIfMatch PeerConnections.closeConnectionIfMatch
  split
  · exact manager_closeConnection t peerID _
  · rfl

theorem next_manager {event : ConnEvent} (moved : t.next (.step event) = some t') :
    t.manager.next event = some t'.manager := by
  cases event with
  | register peerID now =>
    cases moved
    rfl
  | afterError i =>
    obtain ⟨s, at_, moved⟩ := Option.bind_eq_some_iff.mp moved
    split at moved
    · rename_i trouble failed
      cases moved
      simp only [PeerConnections.next, at_, Option.bind_some, failed]
      cases s.closes with
      | true => rw [if_pos rfl, if_pos rfl, manager_closeConnection]
      | false => rfl
    · cases moved
  | received i now =>
    obtain ⟨r, at_, rfl⟩ := Option.map_eq_some_iff.mp moved
    simp only [PeerConnections.next, at_, Option.map_some]
  | readExit i =>
    obtain ⟨r, at_, rfl⟩ := Option.map_eq_some_iff.mp moved
    simp only [PeerConnections.next, at_, Option.map_some, manager_closeIfMatch]
  | disconnect i =>
    obtain ⟨late, running, moved⟩ := Option.bind_eq_some_iff.mp moved
    obtain ⟨x, at_, rfl⟩ := Option.map_eq_some_iff.mp moved
    simp only [PeerConnections.next, running, Option.bind_some, at_, Option.map_some,
      manager_closeConnection]
  | sendToPeer | broadcast =>
    cases moved
    rfl
  | lookUp | lock | written | checkHeartbeats | ping =>
    obtain ⟨m, same, rfl⟩ := Option.map_eq_some_iff.mp moved
    exact same

/-! What an event does to the tables. -/

inductive Change (t t' : ConnTables) : Prop where
  | none : t'.manager.connections = t.manager.connections →
      t'.manager.lastSeen = t.manager.lastSeen → t'.writeMus = t.writeMus →
      t'.refreshed = t.refreshed → Change t t'
  | registered (p : String) (c : Nat) (now : Int) :
      t'.manager.connections = t.manager.connections.insert p c →
      t'.manager.lastSeen = t.manager.lastSeen.insert p now →
      t'.writeMus = t.writeMus.insert p c → t'.refreshed = t.refreshed.insert p c → Change t t'
  | closed (p : String) : t'.manager.connections = t.manager.connections.erase p →
      t'.manager.lastSeen = t.manager.lastSeen.erase p → t'.writeMus = t.writeMus.erase p →
      t'.refreshed = t.refreshed.erase p → Change t t'

theorem change_closeConnection (t : ConnTables) (peerID : String) (trouble : Option Trouble) :
    Change t (t.closeConnection peerID trouble) := by
  unfold closeConnection
  split
  · rename_i present
    obtain ⟨conn, found⟩ := Option.isSome_iff_exists.mp (AList.lookup_isSome.mpr present)
    refine .closed peerID ?_ ?_ rfl rfl <;> simp only [PeerConnections.closeConnection, found]
  · exact .none rfl rfl rfl rfl

theorem Change.of_tables {m : PeerConnections} (change : Change { t with manager := m } t')
    (connections : m.connections = t.manager.connections)
    (lastSeen : m.lastSeen = t.manager.lastSeen) : Change t t' := by
  cases change with
  | none cs ls ws rs => exact .none (cs.trans connections) (ls.trans lastSeen) ws rs
  | registered p c now cs ls ws rs =>
    refine .registered p c now ?_ ?_ ws rs
    · rw [cs, connections]
    · rw [ls, lastSeen]
  | closed p cs ls ws rs =>
    refine .closed p ?_ ?_ ws rs
    · rw [cs, connections]
    · rw [ls, lastSeen]

theorem change_rest {event : ConnEvent} {m : PeerConnections}
    (moved : t.manager.next event = some m) (other : match event with
      | .register .. | .afterError _ | .received .. | .readExit _ | .disconnect _ => False
      | _ => True) : Change t { t with manager := m } := by
  cases event with
  | register | afterError | received | readExit | disconnect => exact other.elim
  | sendToPeer | broadcast =>
    cases moved
    exact .none rfl rfl rfl rfl
  | lookUp i | lock i | written i =>
    obtain ⟨s, -, moved⟩ := Option.bind_eq_some_iff.mp moved
    split at moved
    · repeat' split at moved
      all_goals first
        | cases moved; exact .none rfl rfl rfl rfl
        | cases moved
    · cases moved
  | checkHeartbeats | ping =>
    simp only [PeerConnections.next] at moved
    split at moved
    · cases moved
      exact .none rfl rfl rfl rfl
    · cases moved

def reader (t : ConnTables) : TableEvent → Option (String × Nat)
  | .step (.received i _) => t.manager.readers[i]?
  | _ => none

theorem next_cases {event : TableEvent} (moved : t.next event = some t') :
    t.reader event = none ∧ Change t t' ∨
    ∃ r now, t.reader event = some r ∧ t'.manager.connections = t.manager.connections ∧
      t'.manager.lastSeen = t.manager.lastSeen.insert r.1 now ∧ t'.writeMus = t.writeMus ∧
      t'.refreshed = t.refreshed.insert r.1 r.2 := by
  cases event with
  | closeConnection peerID =>
    cases moved
    exact Or.inl ⟨rfl, change_closeConnection t peerID none⟩
  | step event =>
    cases event with
    | register peerID now =>
      cases moved
      exact Or.inl ⟨rfl, .registered peerID _ now rfl rfl rfl rfl⟩
    | received i now =>
      obtain ⟨r, at_, rfl⟩ := Option.map_eq_some_iff.mp moved
      exact Or.inr ⟨r, now, at_, rfl, rfl, rfl, rfl⟩
    | afterError i =>
      obtain ⟨s, -, moved⟩ := Option.bind_eq_some_iff.mp moved
      refine Or.inl ⟨rfl, ?_⟩
      split at moved
      · cases moved
        split
        · exact (change_closeConnection _ _ _).of_tables rfl rfl
        · exact .none rfl rfl rfl rfl
      · cases moved
    | readExit i =>
      obtain ⟨r, -, rfl⟩ := Option.map_eq_some_iff.mp moved
      refine Or.inl ⟨rfl, ?_⟩
      unfold closeConnectionIfMatch
      split
      · exact (change_closeConnection _ _ _).of_tables rfl rfl
      · exact .none rfl rfl rfl rfl
    | disconnect i =>
      obtain ⟨late, -, moved⟩ := Option.bind_eq_some_iff.mp moved
      obtain ⟨x, -, rfl⟩ := Option.map_eq_some_iff.mp moved
      exact Or.inl ⟨rfl, (change_closeConnection _ _ _).of_tables rfl rfl⟩
    | sendToPeer | broadcast =>
      cases moved
      exact Or.inl ⟨rfl, .none rfl rfl rfl rfl⟩
    | lookUp | lock | written | checkHeartbeats | ping =>
      obtain ⟨m, same, rfl⟩ := Option.map_eq_some_iff.mp moved
      exact Or.inl ⟨rfl, change_rest same trivial⟩

/-! What holds in every run. -/

structure Paired (t : ConnTables) : Prop where
  writeMus : ∀ p, t.writeMus.lookup p = t.manager.connections.lookup p
  lastSeen : ∀ p, p ∈ t.manager.lastSeen ↔ p ∈ t.refreshed
  heard : ∀ p, p ∈ t.manager.connections → p ∈ t.manager.lastSeen

def Current (t : ConnTables) : Prop :=
  ∀ p, t.refreshed.lookup p = t.manager.connections.lookup p

theorem lookup_insert_congr {V : Type} {a b : AList fun _ : String => V} {p q : String} (v : V)
    (same : a.lookup q = b.lookup q) : (a.insert p v).lookup q = (b.insert p v).lookup q := by
  by_cases here : q = p
  · rw [here, AList.lookup_insert, AList.lookup_insert]
  · rw [AList.lookup_insert_ne here, AList.lookup_insert_ne here, same]

theorem lookup_erase_congr {V : Type} {a b : AList fun _ : String => V} {p q : String}
    (same : a.lookup q = b.lookup q) : (a.erase p).lookup q = (b.erase p).lookup q := by
  by_cases here : q = p
  · rw [here, AList.lookup_erase, AList.lookup_erase]
  · rw [AList.lookup_erase_ne here, AList.lookup_erase_ne here, same]

theorem Paired.change (paired : t.Paired) (change : Change t t') : t'.Paired := by
  obtain ⟨writeMus, lastSeen, heard⟩ := paired
  cases change with
  | none cs ls ws rs =>
    refine ⟨?_, ?_, ?_⟩
    · rw [ws, cs]
      exact writeMus
    · rw [ls, rs]
      exact lastSeen
    · rw [cs, ls]
      exact heard
  | registered p c now cs ls ws rs =>
    refine ⟨fun q => ?_, fun q => ?_, fun q => ?_⟩
    · rw [ws, cs]
      exact lookup_insert_congr c (writeMus q)
    · rw [ls, rs, AList.mem_insert, AList.mem_insert, lastSeen]
    · rw [cs, ls, AList.mem_insert, AList.mem_insert]
      exact Or.imp_right (heard q)
  | closed p cs ls ws rs =>
    refine ⟨fun q => ?_, fun q => ?_, fun q => ?_⟩
    · rw [ws, cs]
      exact lookup_erase_congr (writeMus q)
    · rw [ls, rs, AList.mem_erase, AList.mem_erase, lastSeen]
    · rw [cs, ls, AList.mem_erase, AList.mem_erase]
      exact And.imp_right (heard q)

theorem Current.change (current : t.Current) (change : Change t t') : t'.Current := by
  intro q
  cases change with
  | none cs ls ws rs => rw [cs, rs, current q]
  | registered p c now cs ls ws rs =>
    rw [cs, rs]
    exact lookup_insert_congr c (current q)
  | closed p cs ls ws rs =>
    rw [cs, rs]
    exact lookup_erase_congr (current q)

theorem paired_next {event : TableEvent} (paired : t.Paired) (moved : t.next event = some t') :
    t'.Paired := by
  rcases next_cases moved with ⟨-, change⟩ | ⟨r, now, -, cs, ls, ws, rs⟩
  · exact paired.change change
  · refine ⟨?_, fun q => ?_, fun q present => ?_⟩
    · rw [ws, cs]
      exact paired.writeMus
    · rw [ls, rs, AList.mem_insert, AList.mem_insert, paired.lastSeen]
    · rw [ls, AList.mem_insert]
      exact Or.inr (paired.heard q (cs ▸ present))

theorem current_next {event : TableEvent} (current : t.Current) (moved : t.next event = some t') :
    t'.Current ↔ ∀ r, t.reader event = some r →
      t.manager.connections.lookup r.1 = some r.2 := by
  rcases next_cases moved with ⟨none, change⟩ | ⟨r, now, reads, cs, -, -, rs⟩
  · rw [none]
    exact iff_of_true (current.change change) nofun
  · simp only [reads, Option.some.injEq, forall_eq']
    constructor
    · intro after
      rw [← cs, ← after r.1, rs, AList.lookup_insert]
    · intro registered q
      rw [cs, rs]
      by_cases here : q = r.1
      · rw [here, AList.lookup_insert, registered]
      · rw [AList.lookup_insert_ne here, current q]

theorem consistent_iff (paired : t.Paired) : t.Consistent ↔ t.Current := by
  have mem : ∀ {a b : AList fun _ : String => Nat} {p : String}, a.lookup p = b.lookup p →
      (p ∈ a ↔ p ∈ b) := by
    intro a b p same
    rw [← AList.lookup_isSome, ← AList.lookup_isSome, same]
  constructor
  · intro consistent p
    cases found : t.manager.connections.lookup p with
    | some c => exact consistent.refreshed p c found
    | none =>
      rw [AList.lookup_eq_none, ← paired.lastSeen, consistent.lastSeen]
      exact AList.lookup_eq_none.mp found
  · intro current
    refine ⟨fun p => mem (paired.writeMus p), fun p => ?_, fun p c found => ?_⟩
    · rw [paired.lastSeen]
      exact mem (current p)
    · rw [current, found]

theorem run_concat (t : ConnTables) (before : List TableEvent) (event : TableEvent) :
    t.run (before ++ [event]) = (t.run before).bind (next · event) := by
  rw [run, List.foldlM_append]
  simp [run]

theorem paired_run {timeout : Int} {events : List TableEvent}
    (ran : (new timeout).run events = some t) : t.Paired := by
  induction events using List.reverseRecOn generalizing t with
  | nil =>
    cases ran
    exact ⟨fun _ => rfl, fun _ => Iff.rfl, fun _ present => absurd present (AList.notMem_empty _)⟩
  | append_singleton before event ih =>
    rw [run_concat] at ran
    obtain ⟨s, earlier, moved⟩ := Option.bind_eq_some_iff.mp ran
    exact paired_next (ih earlier) moved

end ConnTables

/-- In every run the mutexes are those of the connections, and every connected peer has
a time. The tables stay consistent exactly if no read loop sets the time of its peer
after its connection was closed or replaced. -/
theorem tables_consistent_iff (timeout : Int) (events : List TableEvent) :
    (∀ before t, before <+: events → (ConnTables.new timeout).run before = some t →
      (∀ p, p ∈ t.writeMus ↔ p ∈ t.manager.connections) ∧
        ∀ p ∈ t.manager.connections, p ∈ t.manager.lastSeen) ∧
    ((∀ before t, before <+: events → (ConnTables.new timeout).run before = some t →
        t.Consistent) ↔
      ∀ before i now t r, before ++ [.step (.received i now)] <+: events →
        (ConnTables.new timeout).run before = some t → t.manager.readers[i]? = some r →
        t.manager.connections.lookup r.1 = some r.2) := by
  refine ⟨?_, ?_, ?_⟩
  · intro before t _ ran
    have paired := ConnTables.paired_run ran
    refine ⟨fun p => ?_, paired.heard⟩
    rw [← AList.lookup_isSome, ← AList.lookup_isSome, paired.writeMus]
  · intro consistent before i now t r part ran at_
    have current : ∀ {events' t}, events' <+: events →
        (ConnTables.new timeout).run events' = some t → t.Current :=
      fun part ran => (ConnTables.consistent_iff (ConnTables.paired_run ran)).mp
        (consistent _ _ part ran)
    have earlier := current ((List.prefix_append _ _).trans part) ran
    obtain ⟨t', moved⟩ : ∃ t', t.next (.step (.received i now)) = some t' := by
      simp only [ConnTables.next, at_, Option.map_some]
      exact ⟨_, rfl⟩
    have later := current part (by rw [ConnTables.run_concat, ran]; exact moved)
    exact (ConnTables.current_next earlier moved).mp later r at_
  · intro registered before t part ran
    refine (ConnTables.consistent_iff (ConnTables.paired_run ran)).mpr ?_
    -- one event more at the end of the run
    induction before using List.reverseRecOn generalizing t with
    | nil =>
      cases ran
      exact fun _ => rfl
    | append_singleton before event ih =>
      have ran' := ran
      rw [ConnTables.run_concat] at ran'
      obtain ⟨s, earlier, moved⟩ := Option.bind_eq_some_iff.mp ran'
      refine (ConnTables.current_next (ih s ((List.prefix_append _ _).trans part) earlier)
        moved).mpr ?_
      intro r reads
      cases event with
      | closeConnection peerID => cases reads
      | step event =>
        cases event with
        | received i now => exact registered before i now s r part earlier reads
        | _ => cases reads

/-- A message has been read when the peer is disconnected for its silence. The read loop
sets the time of a peer that has no connection; the end of the loop leaves it there. -/
theorem late_reader_leaves_time :
    ((ConnTables.new 15000).run [.step (.register "a" 0), .step (.checkHeartbeats 16000),
      .step (.disconnect 0), .step (.received 0 16001), .step (.readExit 0)]).any (fun t =>
        decide (t.manager.connections.lookup "a" = none ∧ t.writeMus.lookup "a" = none ∧
          t.manager.lastSeen.lookup "a" = some 16001)) = true ∧
    ((ConnTables.new 15000).run [.step (.register "a" 0), .step (.register "a" 1),
      .step (.received 0 2)]).any (fun t =>
        decide (t.manager.connections.lookup "a" = some 1 ∧
          t.refreshed.lookup "a" = some 0)) = true := by
  decide

end P2PSync
