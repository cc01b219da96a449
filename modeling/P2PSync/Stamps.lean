import P2PSync.Clocks
import P2PSync.Concurrency

/-! The clocks of the changes behind a reported conflict. A clock counts the changes of
all files, so the stamps tell what a peer had processed of one file as long as no
message about another file gets ahead of one about this file. -/
namespace P2PSync

open Transition

structure StampedNet extends Net where
  /-- History: the clock of a peer right after a change it recorded. -/
  stamp : Edit → VectorClock

namespace StampedNet

/-- The stamp of a change that is yet to be made follows the clock of its peer. -/
def next (rt : Runtime) (repoID : String) (peers : List String) (s : StampedNet) (move : Move) :
    Option StampedNet :=
  (s.toNet.next rt repoID peers move).map fun after =>
    ⟨after, fun e =>
      if e.number < s.hist.count e.peer then s.stamp e else (after.node e.peer).vectorClock⟩

structure Initial (repoID : String) (peers : List String) (s : StampedNet) : Prop where
  net : s.toNet.Initial repoID peers
  clocks : ∀ p ∈ peers, (s.node p).vectorClock = .new

theorem next_eq {rt : Runtime} {repoID : String} {peers : List String} {s t : StampedNet}
    {move : Move} (moved : s.next rt repoID peers move = some t) :
    s.toNet.next rt repoID peers move = some t.toNet ∧
      (∀ e, e.number < s.hist.count e.peer → t.stamp e = s.stamp e) ∧
      ∀ e, ¬ e.number < s.hist.count e.peer → t.stamp e = (t.node e.peer).vectorClock := by
  obtain ⟨after, first, rfl⟩ := Option.map_eq_some_iff.mp moved
  exact ⟨first, fun e made => if_pos made, fun e new => if_neg new⟩

end StampedNet

def Packet.clock (k : Packet) : VectorClock := ⟨k.update.vectorClock.getD ∅⟩

theorem Packet.clock_of_carried {k : Packet} {vc : VectorClock}
    (carried : k.update.vectorClock = some vc.clocks) : k.clock = vc := by
  rw [Packet.clock, carried, Option.getD_some]

section Order

variable (file : String)

/-- A message about another file does not get ahead of one about the file from the
same peer, and the counts of changes survive the wire. -/
def orderedMove (net : Net) : Move → Bool
  | .change p _ _ => net.hist.count p + 1 < 2 ^ 53
  | .deliver i _ _ => net.flight[i]?.all fun k =>
    k.update.path = file ∨ ∀ j ∈ net.flight.take i, j.update.path = file → j.src ≠ k.src
  | _ => true

end Order

/-! Counts. Whatever a clock has counted was made, and its stamp is below the clock; what
was processed is counted. -/

structure Sees (s : StampedNet) (v : String → Nat) : Prop where
  bound : v ≤ s.hist.count
  below : ∀ e : Edit, e.number < v e.peer → (s.stamp e).get ≤ v

structure Stamped (a b : String) (s : StampedNet) : Prop where
  named : ∀ p ∈ [a, b], (s.node p).localPeerID = p
  small : ∀ p, s.hist.count p < 2 ^ 53
  own : ∀ p ∈ [a, b], (s.node p).vectorClock.get p = s.hist.count p
  clocks : ∀ p ∈ [a, b], Sees s (s.node p).vectorClock.get
  known : ∀ p ∈ [a, b], ∀ f, ∀ e ∈ s.hist.past p f, e.number < (s.node p).vectorClock.get e.peer
  sent : ∀ k ∈ s.flight, k.update.vectorClock = some k.clock.clocks ∧ Sees s k.clock.get ∧
    ∀ e ∈ k.past, e.number < k.clock.get e.peer
  stamps : ∀ e : Edit, e.number < s.hist.count e.peer → Sees s (s.stamp e).get ∧
    (s.stamp e).get e.peer = e.number + 1 ∧
    ∀ f ∈ s.hist.before e, f.number < (s.stamp e).get f.peer

section Counts

variable {s t : StampedNet} {v w : String → Nat} {a b : String}

theorem Sees.made (sees : Sees s v) {e : Edit} (counted : e.number < v e.peer) :
    e.number < s.hist.count e.peer :=
  lt_of_lt_of_le counted (sees.bound e.peer)

theorem Sees.unheard (sees : Sees s v) (p : String) : ¬ s.hist.count p < v p :=
  not_lt.mpr (sees.bound p)

theorem Sees.mono (sees : Sees s v) (count : s.hist.count ≤ t.hist.count)
    (kept : ∀ e, e.number < s.hist.count e.peer → t.stamp e = s.stamp e) : Sees t v where
  bound := sees.bound.trans count
  below := by
    intro e counted
    rw [kept e (sees.made counted)]
    exact sees.below e counted

theorem Sees.sup (left : Sees s v) (right : Sees s w) : Sees s (v ⊔ w) where
  bound := sup_le left.bound right.bound
  below := by
    intro e counted
    rcases lt_sup_iff.mp counted with first | second
    · exact (left.below e first).trans le_sup_left
    · exact (right.below e second).trans le_sup_right

theorem entries_small {vc : VectorClock} {n : Nat} (small : ∀ q, vc.get q < n) :
    ∀ entry ∈ vc.clocks.entries, entry.2 < n := by
  rintro ⟨q, count⟩ member
  have found : vc.clocks.lookup q = some count := AList.mem_lookup_iff.mpr member
  have bound := small q
  rwa [VectorClock.get, found, Option.getD_some] at bound

/-- What a step does: a peer learns of changes of one file, with its clock, a message
is taken and messages are sent. Only the change that the peer makes itself is new. -/
structure Learns (a b p path : String) (gain : List Edit) (i : Nat) (sent : List Packet)
    (s t : StampedNet) : Prop where
  inside : p ∈ [a, b]
  named : ∀ q, (t.node q).localPeerID = (s.node q).localPeerID
  grows : s.hist.count ≤ t.hist.count
  small : ∀ q, t.hist.count q < 2 ^ 53
  own : (t.node p).vectorClock.get p = t.hist.count p
  sees : Sees t (t.node p).vectorClock.get
  rises : (s.node p).vectorClock.get ≤ (t.node p).vectorClock.get
  counts : ∀ e ∈ gain, e.number < (t.node p).vectorClock.get e.peer
  others : ∀ q, q ≠ p → (t.node q).vectorClock = (s.node q).vectorClock ∧
    t.hist.count q = s.hist.count q
  kept : ∀ e, e.number < s.hist.count e.peer →
    t.stamp e = s.stamp e ∧ t.hist.before e = s.hist.before e
  fresh : ∀ e, e.number < t.hist.count e.peer → ¬ e.number < s.hist.count e.peer →
    e.peer = p ∧ t.stamp e = (t.node p).vectorClock ∧
      (t.stamp e).get e.peer = e.number + 1 ∧ t.hist.before e = s.hist.past p path
  past : ∀ q f, t.hist.past q f =
    if q = p ∧ f = path then gain ++ s.hist.past p path else s.hist.past q f
  flight : t.flight = s.flight.eraseIdx i ++ sent
  letters : ∀ k ∈ sent, k.src = p ∧ k.dst ∈ [a, b] ∧ k.update.path = path ∧
    k.past = t.hist.past p path ∧ k.update.vectorClock = some (t.node p).vectorClock.clocks

section Step

variable {p path : String} {gain : List Edit} {i : Nat} {sent : List Packet}

theorem Learns.mono (learns : Learns a b p path gain i sent s t) (sees : Sees s v) : Sees t v :=
  sees.mono learns.grows (fun e made => (learns.kept e made).1)

theorem Learns.known (learns : Learns a b p path gain i sent s t) (stamped : Stamped a b s)
    {q : String} (inside : q ∈ [a, b]) (f : String) :
    ∀ e ∈ t.hist.past q f, e.number < (t.node q).vectorClock.get e.peer := by
  intro e there
  rw [learns.past] at there
  split at there
  · rename_i here
    rw [here.1]
    rcases List.mem_append.mp there with gained | old
    · exact learns.counts e gained
    · exact lt_of_lt_of_le (stamped.known p learns.inside path e old) (learns.rises e.peer)
  · have old := stamped.known q inside f e there
    by_cases same : q = p
    · subst same
      exact lt_of_lt_of_le old (learns.rises e.peer)
    · rwa [(learns.others q same).1]

theorem Stamped.learns (stamped : Stamped a b s) (learns : Learns a b p path gain i sent s t) :
    Stamped a b t := by
  refine ⟨?_, learns.small, ?_, ?_, fun q inside => learns.known stamped inside, ?_, ?_⟩
  · intro q inside
    rw [learns.named, stamped.named q inside]
  · intro q inside
    by_cases same : q = p
    · rw [same, learns.own]
    · rw [(learns.others q same).1, (learns.others q same).2, stamped.own q inside]
  · intro q inside
    by_cases same : q = p
    · rw [same]
      exact learns.sees
    · rw [(learns.others q same).1]
      exact learns.mono (stamped.clocks q inside)
  · intro k member
    rw [learns.flight] at member
    rcases List.mem_append.mp member with old | new
    · obtain ⟨carried, sees, counted⟩ := stamped.sent k (List.mem_of_mem_eraseIdx old)
      exact ⟨carried, learns.mono sees, counted⟩
    · obtain ⟨-, -, -, past, carried⟩ := learns.letters k new
      rw [Packet.clock_of_carried carried, past]
      exact ⟨carried, learns.sees, learns.known stamped learns.inside path⟩
  · intro e made
    by_cases old : e.number < s.hist.count e.peer
    · obtain ⟨sees, own, counted⟩ := stamped.stamps e old
      rw [(learns.kept e old).1, (learns.kept e old).2]
      exact ⟨learns.mono sees, own, counted⟩
    · obtain ⟨-, stamp, number, before⟩ := learns.fresh e made old
      refine ⟨stamp ▸ learns.sees, number, fun f there => ?_⟩
      rw [before] at there
      rw [stamp]
      exact lt_of_lt_of_le (stamped.known p learns.inside path f there) (learns.rises f.peer)

end Step

theorem stamped_initial {repoID : String} (start : s.Initial repoID [a, b]) : Stamped a b s where
  named := start.net.named
  small := by simp [start.net.unwritten, History.empty]
  own := by
    intro p inside
    rw [start.clocks p inside, start.net.unwritten]
    rfl
  clocks := by
    intro p inside
    rw [start.clocks p inside]
    exact ⟨fun _ => Nat.zero_le _, fun e counted => absurd counted (Nat.not_lt_zero _)⟩
  known := by simp [start.net.unwritten, History.empty]
  sent := by simp [start.net.quiet]
  stamps := by simp [start.net.unwritten, History.empty]

end Counts

section Run

variable {repoID file a b : String} {s t : StampedNet} {rt : Runtime}

theorem Edit.lt_update_iff {v : String → Nat} {p : String} {n : Nat} (own : v p = n) (e : Edit) :
    e.number < Function.update v p (n + 1) e.peer ↔ e.number < v e.peer ∨ e = ⟨p, n⟩ := by
  obtain ⟨q, m⟩ := e
  rw [Function.update_apply]
  split
  · rename_i same
    simp only at same
    subst same
    simp only [Edit.mk.injEq, true_and, own]
    omega
  · rename_i other
    simp only at other
    simp [other]

theorem learns_change {p : String} {now : Int} {payload : FileChangedPayload}
    (stamped : Stamped a b s) (known : repoID ∈ (s.node p).db.repositories)
    (recorded : Recorded (s.node p) repoID payload) (room : s.hist.count p + 1 < 2 ^ 53)
    (moved : s.next rt repoID [a, b] (.change p now payload) = some t) :
    Learns a b p (relativePath (s.node p) repoID payload.path) [⟨p, s.hist.count p⟩]
        s.flight.length (announcements [a, b] s.toNet repoID p payload) s t ∧
      (t.node p).vectorClock.get =
        Function.update (s.node p).vectorClock.get p (s.hist.count p + 1) := by
  obtain ⟨first, kept, fresh⟩ := StampedNet.next_eq moved
  obtain ⟨inside, -, after⟩ := next_change first
  have hist := change_hist [a, b] now recorded known
  rw [← after] at hist
  have own := stamped.own p inside
  have before := stamped.clocks p inside
  have clock : (t.node p).vectorClock = (s.node p).vectorClock.tick p := by
    simp only [after, change, setAt_self, local_clock, if_pos recorded, stamped.named p inside]
  have get : (t.node p).vectorClock.get =
      Function.update (s.node p).vectorClock.get p (s.hist.count p + 1) := by
    rw [clock, get_tick_eq (by omega), own]
  have count : t.hist.count = Function.update s.hist.count p (s.hist.count p + 1) := by
    funext q
    rw [hist, Function.update_apply]
    rfl
  have new : ∀ e : Edit, e.number < t.hist.count e.peer → ¬ e.number < s.hist.count e.peer →
      e = ⟨p, s.hist.count p⟩ := by
    intro e made old
    rw [count] at made
    exact ((Edit.lt_update_iff rfl e).mp made).resolve_left old
  have grown : (s.node p).vectorClock.get ≤ (t.node p).vectorClock.get := by
    rw [get]
    exact le_update_self_iff.mpr (by omega)
  refine ⟨⟨inside, ?_, ?_, ?_, ?_, ⟨?_, ?_⟩, grown, ?_, ?_, ?_, ?_, ?_, ?_, ?_⟩, get⟩
  · intro q
    rw [after]
    exact (change_frame repoID [a, b] s.toNet p payload now q).1
  · rw [count]
    exact le_update_self_iff.mpr (Nat.le_succ _)
  · intro q
    rw [count, Function.update_apply]
    split
    · exact room
    · exact stamped.small q
  · rw [get, count, Function.update_self, Function.update_self]
  · rw [get, count]
    exact update_le_update_iff.mpr ⟨le_refl _, fun q _ => before.bound q⟩
  · intro e counted
    rw [get] at counted
    rcases (Edit.lt_update_iff own e).mp counted with old | rfl
    · rw [kept e (before.made old)]
      exact (before.below e old).trans grown
    · rw [fresh _ (lt_irrefl _)]
  · intro e gained
    rw [List.mem_singleton.mp gained, get, Function.update_self]
    exact Nat.lt_succ_self _
  · intro q other
    rw [count, Function.update_of_ne other]
    simp only [after, change, setAt_other _ _ other, and_self]
  · intro e made
    rw [hist]
    exact ⟨kept e made, if_neg (new_edit made)⟩
  · intro e made old
    obtain rfl := new e made old
    refine ⟨rfl, fresh _ old, ?_, ?_⟩
    · rw [fresh _ old, get, Function.update_self]
    · rw [hist]
      exact if_pos rfl
  · intro q f
    rw [hist, History.recorded_past]
    rfl
  · rw [after, change_flight [a, b] now recorded known, List.eraseIdx_of_length_le (le_refl _)]
  · intro k member
    obtain ⟨-, q, there, -, rfl⟩ := mem_announcements.mp member
    refine ⟨rfl, there, rfl, ?_, ?_⟩
    · rw [hist, History.recorded_past, if_pos ⟨rfl, rfl⟩]
    · rw [clock]
      simp only [recordedUpdate, metadataUpdate, tickClocks, stamped.named p inside]

theorem learns_deliver {i : Nat} {now : Int} {missing : Bool} {k : Packet}
    (stamped : Stamped a b s) (at_ : s.flight[i]? = some k) (src : k.src ∈ [a, b])
    (dst : k.dst ∈ [a, b]) (heard : ignoredPath k.update.path = false)
    (moved : s.next rt repoID [a, b] (.deliver i now missing) = some t) :
    ∃ sent, Learns a b k.dst k.update.path k.past i sent s t ∧
      (t.node k.dst).vectorClock.get = (s.node k.dst).vectorClock.get ⊔ k.clock.get := by
  obtain ⟨first, kept, -⟩ := StampedNet.next_eq moved
  obtain ⟨k', taken, after⟩ := next_deliver first
  obtain rfl : k = k' := Option.some.inj (at_.symm.trans taken)
  have hist := deliver_hist rt [a, b] s.toNet (s.flight.eraseIdx i) now missing heard
  obtain ⟨replies, flight, letters⟩ :=
    deliver_replies rt [a, b] s.toNet (s.flight.eraseIdx i) now missing heard
  rw [← after] at hist flight
  have clock : (t.node k.dst).vectorClock =
      (mergeRemoteClock (s.node k.dst) k.update).vectorClock := by
    simp only [after, deliver, setAt_self, peer_clock rt _ now missing _ _ _ heard]
  obtain ⟨carried, sees, counted⟩ := stamped.sent k (List.mem_of_getElem? at_)
  have get : (t.node k.dst).vectorClock.get = (s.node k.dst).vectorClock.get ⊔ k.clock.get := by
    rw [clock]
    exact get_mergeRemoteClock carried
      (entries_small (fun q => lt_of_le_of_lt (sees.bound q) (stamped.small q)))
  have count : t.hist.count = s.hist.count := by
    rw [hist]
    rfl
  refine ⟨replies, ⟨dst, ?_, count.ge, ?_, ?_, ?_, get ▸ le_sup_left, ?_, ?_, ?_, ?_, ?_, flight,
    ?_⟩, get⟩
  · intro q
    rw [after]
    exact (deliver_frame rt [a, b] s.toNet _ k now missing q).1
  · rw [count]
    exact stamped.small
  · rw [get, count, Pi.sup_apply, stamped.own k.dst dst]
    exact sup_eq_left.mpr (sees.bound k.dst)
  · rw [get]
    exact ((stamped.clocks k.dst dst).sup sees).mono count.ge kept
  · intro e gained
    rw [get]
    exact lt_of_lt_of_le (counted e gained) (le_sup_right (a := (s.node k.dst).vectorClock.get) e.peer)
  · intro q other
    rw [count]
    simp only [after, deliver, setAt_other _ _ other, and_self]
  · intro e made
    rw [hist]
    exact ⟨kept e made, rfl⟩
  · intro e made old
    rw [count] at made
    exact absurd made old
  · intro q f
    rw [hist, History.processed_past]
  · intro x there
    obtain ⟨-, -, m, -, -, -, rfl⟩ := letters x there
    refine ⟨rfl, src, rfl, ?_, by rw [clock]; rfl⟩
    rw [hist, History.processed_past, if_pos ⟨rfl, rfl⟩]

/-- A step after which all peers and clocks are as before; it may take a message. -/
theorem learns_nothing (stamped : Stamped a b s) {i : Nat}
    (named : ∀ q, (t.node q).localPeerID = (s.node q).localPeerID)
    (clocks : ∀ q, (t.node q).vectorClock = (s.node q).vectorClock) (hist : t.hist = s.hist)
    (kept : ∀ e, e.number < s.hist.count e.peer → t.stamp e = s.stamp e)
    (flight : t.flight = s.flight.eraseIdx i) : Learns a b a "" [] i [] s t where
  inside := List.mem_cons_self
  named := named
  grows := by rw [hist]
  small := by
    rw [hist]
    exact stamped.small
  own := by rw [clocks, hist, stamped.own a List.mem_cons_self]
  sees := by
    rw [clocks]
    exact (stamped.clocks a List.mem_cons_self).mono (by rw [hist]) kept
  rises := by rw [clocks]
  counts := fun _ none => (List.not_mem_nil none).elim
  others := fun q _ => ⟨clocks q, by rw [hist]⟩
  kept := fun e made => ⟨kept e made, by rw [hist]⟩
  fresh := by
    intro e made old
    rw [hist] at made
    exact absurd made old
  past := by
    intro q f
    rw [hist]
    split
    · rename_i here
      rw [here.1, here.2, List.nil_append]
    · rfl
  flight := by rw [flight, List.append_nil]
  letters := fun _ none => (List.not_mem_nil none).elim

/-! What is on its way about the file is not counted yet. -/

/-- Neither stamp counts the other change. -/
def Apart (s : StampedNet) (e f : Edit) : Prop :=
  ¬ e.number < (s.stamp f).get e.peer ∧ ¬ f.number < (s.stamp e).get f.peer

structure Unheard (repoID file : String) (s : StampedNet) : Prop where
  receiver : ∀ k ∈ s.flight, k.update.path = file →
    ¬ k.edit.number < (s.node k.dst).vectorClock.get k.edit.peer
  ordered : s.flight.Pairwise (fun j k => j.update.path ≠ file → k.update.path = file →
    j.src = k.src → ¬ k.edit.number < j.clock.get k.edit.peer)
  level : ∀ k ∈ s.flight, k.update.path = file →
    held repoID file s.toNet k.dst = k.update.decodedVersion →
      Apart s k.edit (s.hist.origin k.dst file)

theorem Stamped.concurrent_iff (stamped : Stamped a b s) {e f : Edit}
    (left : e.number < s.hist.count e.peer) (right : f.number < s.hist.count f.peer) :
    (s.stamp e).compare (s.stamp f) = .concurrent ↔ Apart s e f := by
  have below : ∀ {e f : Edit}, e.number < s.hist.count e.peer → f.number < s.hist.count f.peer →
      ((s.stamp e).Below (s.stamp f) ↔ e.number < (s.stamp f).get e.peer) := by
    intro e f first second
    constructor
    · intro under
      have own := (stamped.stamps e first).2.1
      have bound := under e.peer
      omega
    · exact (stamped.stamps f second).1.below e
  rw [(VectorClock.compare_iff _ _).2.2, below left right, below right left]
  rfl

structure Charted (repoID file a b : String) (s : StampedNet) : Prop where
  counted : Counted s.toNet
  steady : Steady repoID file a b s.toNet
  stamped : Stamped a b s
  unheard : Unheard repoID file s

section Moves

variable (charted : Charted repoID file a b s)

include charted

theorem Charted.made {k : Packet} (member : k ∈ s.flight) (here : k.update.path = file) :
    k.edit.number < s.hist.count k.edit.peer :=
  charted.counted.sent k member _ (charted.steady.underway k member here).own.1

theorem Charted.origin_made {k : Packet} (member : k ∈ s.flight) (here : k.update.path = file)
    (level : held repoID file s.toNet k.dst = k.update.decodedVersion) :
    (s.hist.origin k.dst file).number < s.hist.count (s.hist.origin k.dst file).peer := by
  have positive := (charted.steady.underway k member here).positive
  exact charted.steady.origin_counted charted.counted (charted.steady.flights k member).2.1 (by omega)

/-- A step about another path. -/
theorem Charted.elsewhere {p path : String} {gain : List Edit} {i : Nat} {sent : List Packet}
    (counted : Counted t.toNet) (steady : Steady repoID file a b t.toNet)
    (learns : Learns a b p path gain i sent s t) (leaves : LeavesFile repoID file s.toNet t.toNet)
    (away : ∀ k ∈ sent, k.update.path ≠ file)
    (still : ∀ k ∈ s.flight.eraseIdx i, k.update.path = file → k.dst = p →
      ¬ k.edit.number < (t.node p).vectorClock.get k.edit.peer) : Charted repoID file a b t := by
  have old : ∀ k ∈ t.flight, k.update.path = file → k ∈ s.flight.eraseIdx i := by
    intro k member here
    rw [learns.flight] at member
    exact (List.mem_append.mp member).resolve_right (fun new => away k new here)
  refine ⟨counted, steady, charted.stamped.learns learns, ?_, ?_, ?_⟩
  · intro k member here
    by_cases same : k.dst = p
    · rw [same]
      exact still k (old k member here) here same
    · rw [(learns.others _ same).1]
      exact charted.unheard.receiver k (List.mem_of_mem_eraseIdx (old k member here)) here
  · rw [learns.flight]
    refine List.pairwise_append.mpr
      ⟨charted.unheard.ordered.sublist (List.eraseIdx_sublist _ i), ?_, ?_⟩
    · exact List.pairwise_of_forall_mem_list (fun _ _ k member _ here => absurd here (away k member))
    · exact fun _ _ k member _ here => absurd here (away k member)
  · intro k member here level
    have inside := List.mem_of_mem_eraseIdx (old k member here)
    rw [leaves.held] at level
    rw [Apart, leaves.origin, (learns.kept _ (charted.made inside here)).1,
      (learns.kept _ (charted.origin_made inside here level)).1]
    exact charted.unheard.level k inside here level

theorem Charted.quiet (counted : Counted t.toNet) (steady : Steady repoID file a b t.toNet)
    {i : Nat} (named : ∀ q, (t.node q).localPeerID = (s.node q).localPeerID)
    (clocks : ∀ q, (t.node q).vectorClock = (s.node q).vectorClock) (hist : t.hist = s.hist)
    (kept : ∀ e, e.number < s.hist.count e.peer → t.stamp e = s.stamp e)
    (flight : t.flight = s.flight.eraseIdx i) (leaves : LeavesFile repoID file s.toNet t.toNet) :
    Charted repoID file a b t := by
  refine charted.elsewhere counted steady
    (learns_nothing charted.stamped named clocks hist kept flight) leaves ?_ ?_
  · exact fun _ none => (List.not_mem_nil none).elim
  · intro k member here same
    rw [← same, clocks]
    exact charted.unheard.receiver k (List.mem_of_mem_eraseIdx member) here

theorem Charted.setNode {p : String} {sc : SyncCoordinator} {stamp : Edit → VectorClock}
    (counted : Counted (P2PSync.setNode s.toNet p sc))
    (steady : Steady repoID file a b (P2PSync.setNode s.toNet p sc))
    (id : sc.localPeerID = (s.node p).localPeerID) (clock : sc.vectorClock = (s.node p).vectorClock)
    (kept : ∀ e, e.number < s.hist.count e.peer → stamp e = s.stamp e)
    (leaves : LeavesFile repoID file s.toNet (P2PSync.setNode s.toNet p sc)) :
    Charted repoID file a b ⟨P2PSync.setNode s.toNet p sc, stamp⟩ := by
  refine charted.quiet counted steady (i := s.flight.length) ?_ ?_ rfl kept ?_ leaves
  · exact setNode_forall (P := fun q sc => sc.localPeerID = (s.node q).localPeerID) id
      (fun _ _ => rfl)
  · exact setNode_forall (P := fun q sc => sc.vectorClock = (s.node q).vectorClock) clock
      (fun _ _ => rfl)
  · exact (List.eraseIdx_of_length_le (le_refl _)).symm

section

variable {p : String} {now : Int} {payload : FileChangedPayload} (counted : Counted t.toNet)
  (steady : Steady repoID file a b t.toNet)
  (moved : s.next rt repoID [a, b] (.change p now payload) = some t)
  (changes : Changes repoID file s.toNet p payload) (room : s.hist.count p + 1 < 2 ^ 53)
  (good : steadyMove repoID file s.toNet (.change p now payload) = true)

include counted steady moved changes room good

/-- A change crosses the message of the other peer, if there is one. -/
theorem Charted.change_here : Charted repoID file a b t := by
  obtain ⟨-, small, fresh, quiet⟩ := (of_decide_eq_true good).resolve_left (not_not.mpr changes)
  obtain ⟨first, -, stamp⟩ := StampedNet.next_eq moved
  obtain ⟨inside, -, after⟩ := next_change first
  have made := change_made charted.steady inside now changes small fresh
  rw [← after] at made
  obtain ⟨learns, get⟩ := learns_change charted.stamped (charted.steady.known p inside) changes.1
    room moved
  have flight := learns.flight
  rw [List.eraseIdx_of_length_le (le_refl _)] at flight
  have new : ∀ {v}, Sees s v → ¬ s.hist.count p < v p := fun sees => not_lt.mpr (sees.bound p)
  -- the message that is crossed and the new change
  have crossed : ∀ l ∈ s.flight, l.update.path = file → l.dst = p ∧
      (¬ l.edit.number < (t.node p).vectorClock.get l.edit.peer) ∧
      Apart t l.edit ⟨p, s.hist.count p⟩ := by
    intro l member here
    obtain ⟨ins, ind, differ, -⟩ := charted.steady.flights l member
    have dst : l.dst = p := other_peer ins ind inside differ.symm (quiet l member here).1.symm
    have old := charted.made member here
    have hidden : ¬ l.edit.number < (t.node p).vectorClock.get l.edit.peer := by
      rw [get, Edit.lt_update_iff (charted.stamped.own p inside), not_or, ← dst]
      exact ⟨charted.unheard.receiver l member here, new_edit old⟩
    refine ⟨dst, hidden, ?_, ?_⟩
    · rwa [stamp _ (lt_irrefl _)]
    · rw [(learns.kept _ old).1]
      exact new (charted.stamped.stamps _ old).1
  have sent : ∀ k ∈ announcements [a, b] s.toNet repoID p payload, k.dst ∈ [a, b] ∧ k.dst ≠ p ∧
      k.update.path = file ∧ k.edit = ⟨p, s.hist.count p⟩ ∧
      (k.update.decodedVersion : Int) = held repoID file s.toNet p + 1 := by
    intro k member
    obtain ⟨-, q, there, away, rfl⟩ := mem_announcements.mp member
    exact ⟨there, away, changes.2, rfl, (new_number (by rw [changes.2])
      (fun m row => (charted.steady.rows p inside m row).1) small fresh).2.1⟩
  refine ⟨counted, steady, charted.stamped.learns learns, ?_, ?_, ?_⟩
  · intro k member here
    rw [flight] at member
    rcases List.mem_append.mp member with old | fresh
    · obtain ⟨dst, hidden, -⟩ := crossed k old here
      rwa [dst]
    · obtain ⟨there, away, -, edit, -⟩ := sent k fresh
      rw [(learns.others _ away).1, edit]
      exact new (charted.stamped.clocks _ there)
  · rw [flight]
    refine List.pairwise_append.mpr ⟨charted.unheard.ordered, ?_, ?_⟩
    · exact List.pairwise_of_forall_mem_list
        (fun j member _ _ apart => absurd (sent j member).2.2.1 apart)
    · intro j old k fresh _ _ _
      rw [(sent k fresh).2.2.2.1]
      exact new (charted.stamped.sent j old).2.1
  · intro k member here level
    rw [flight] at member
    rcases List.mem_append.mp member with old | fresh
    · obtain ⟨dst, -, apart⟩ := crossed k old here
      rw [dst, made.origin_self]
      exact apart
    · obtain ⟨there, away, -, edit, number⟩ := sent k fresh
      rw [made.held_other away] at level
      rw [edit, made.origin_other away]
      by_cases way : ∃ l ∈ s.flight, l.update.path = file
      · obtain ⟨l, member, about⟩ := way
        obtain ⟨leaves, next⟩ := quiet l member about
        obtain ⟨dst, -, apart⟩ := crossed l member about
        have sender : l.src = k.dst :=
          other_peer inside (charted.steady.flights l member).1 there leaves away
        have origin := ((charted.steady.underway l member about).above (by rw [dst]; omega)).1
        rw [← sender, origin]
        exact apart.symm
      · push Not at way
        obtain ⟨bound, -⟩ := charted.steady.rest p inside k.dst there away.symm
          (fun l member here => absurd here (way l member))
        omega

omit changes in
theorem Charted.change : Charted repoID file a b t := by
  obtain ⟨first, kept, -⟩ := StampedNet.next_eq moved
  obtain ⟨inside, -, after⟩ := next_change first
  by_cases recorded : Recorded (s.node p) repoID payload
  · by_cases here : relativePath (s.node p) repoID payload.path = file
    · exact charted.change_here counted steady moved ⟨recorded, here⟩ room good
    · obtain ⟨learns, get⟩ :=
        learns_change charted.stamped (charted.steady.known p inside) recorded room moved
      refine charted.elsewhere counted steady learns
        (after ▸ leaves_change charted.steady inside now recorded here) ?_ ?_
      · intro k member
        obtain ⟨-, q, -, -, rfl⟩ := mem_announcements.mp member
        exact here
      · intro k member about dst
        have old := List.mem_of_mem_eraseIdx member
        rw [get, Edit.lt_update_iff (charted.stamped.own p inside), not_or, ← dst]
        exact ⟨charted.unheard.receiver k old about, new_edit (charted.made old about)⟩
  · rw [change_dropped now recorded] at after
    refine charted.quiet counted steady (i := s.flight.length) ?_ ?_ ?_ kept ?_ ?_
    · exact fun _ => by rw [after]
    · exact fun _ => by rw [after]
    · rw [after]
    · rw [after, List.eraseIdx_of_length_le (le_refl _)]
    · rw [after]
      exact ⟨fun _ => rfl, fun _ => rfl, fun _ => rfl, fun _ _ => rfl, List.Subset.refl _⟩

end

section Deliver

variable {i : Nat} {now : Int} {missing : Bool} {k : Packet} (counted : Counted t.toNet)
  (steady : Steady repoID file a b t.toNet)
  (moved : s.next rt repoID [a, b] (.deliver i now missing) = some t)
  (at_ : s.flight[i]? = some k) (heard : ignoredPath k.update.path = false)

include counted steady moved at_ heard

theorem Charted.deliver_here (here : k.update.path = file) : Charted repoID file a b t := by
  have member := List.mem_of_getElem? at_
  obtain ⟨src, dst, apart, -⟩ := charted.steady.flights k member
  obtain ⟨first, kept, -⟩ := StampedNet.next_eq moved
  obtain ⟨k', at_', after⟩ := next_deliver first
  obtain rfl : k = k' := Option.some.inj (at_.symm.trans at_')
  have taken := deliver_taken charted.steady rt at_ now missing (here ▸ heard) here
  rw [← after] at taken
  obtain ⟨sent, learns, -⟩ := learns_deliver charted.stamped at_ src dst heard moved
  refine ⟨counted, steady, charted.stamped.learns learns, ?_, ?_, ?_⟩
  · intro l there path
    rw [taken.flight] at there
    have away : l.dst ≠ k.dst := by
      rw [(left_crosses charted.steady at_ here there path).2]
      exact apart
    rw [(learns.others _ away).1]
    exact charted.unheard.receiver l (List.mem_of_mem_eraseIdx there) path
  · rw [taken.flight]
    exact charted.unheard.ordered.sublist (List.eraseIdx_sublist _ i)
  · intro l there path level
    rw [taken.flight] at there
    have old := List.mem_of_mem_eraseIdx there
    have away : l.dst ≠ k.dst := by
      rw [(left_crosses charted.steady at_ here there path).2]
      exact apart
    rw [taken.held_other away] at level
    rw [Apart, (taken.elsewhere _ away).1, kept _ (charted.made old path),
      kept _ (charted.origin_made old path level)]
    exact charted.unheard.level l old path level

/-- A message about another file that is taken in its turn counts nothing unheard. -/
theorem Charted.deliver_elsewhere (away : k.update.path ≠ file)
    (turn : ∀ j ∈ s.flight.take i, j.update.path = file → j.src ≠ k.src) :
    Charted repoID file a b t := by
  have member := List.mem_of_getElem? at_
  obtain ⟨src, dst, apart, -⟩ := charted.steady.flights k member
  obtain ⟨first, -, -⟩ := StampedNet.next_eq moved
  obtain ⟨k', at_', after⟩ := next_deliver first
  obtain rfl : k = k' := Option.some.inj (at_.symm.trans at_')
  obtain ⟨sent, learns, get⟩ := learns_deliver charted.stamped at_ src dst heard moved
  refine charted.elsewhere counted steady learns
    (after ▸ leaves_deliver charted.steady rt at_ now missing away) ?_ ?_
  · intro x there
    rw [(learns.letters x there).2.2.1]
    exact away
  · intro l there about same
    have old := List.mem_of_mem_eraseIdx there
    obtain ⟨lsrc, -, lapart, -⟩ := charted.steady.flights l old
    have sender : k.src = l.src := other_peer dst src lsrc apart (same ▸ lapart)
    rw [get, Pi.sup_apply, lt_sup_iff, not_or, ← same]
    refine ⟨charted.unheard.receiver l old about, ?_⟩
    obtain ⟨bound, rfl⟩ := List.getElem?_eq_some_iff.mp at_
    have whole : s.flight = s.flight.take i ++ s.flight[i] :: s.flight.drop (i + 1) := by simp
    have ordered := charted.unheard.ordered
    rw [List.eraseIdx_eq_take_drop_succ] at there
    rcases List.mem_append.mp there with ahead | behind
    · exact absurd sender.symm (turn l ahead about)
    · rw [whole] at ordered
      exact List.rel_of_pairwise_cons (List.pairwise_append.mp ordered).2.1 behind away about sender

end Deliver

theorem Charted.deliver (heard : ignoredPath file = false) {i : Nat} {now : Int} {missing : Bool}
    (counted : Counted t.toNet) (steady : Steady repoID file a b t.toNet)
    (moved : s.next rt repoID [a, b] (.deliver i now missing) = some t)
    (ordered : orderedMove file s.toNet (.deliver i now missing) = true) :
    Charted repoID file a b t := by
  obtain ⟨first, kept, -⟩ := StampedNet.next_eq moved
  obtain ⟨k, at_, after⟩ := next_deliver first
  simp only [orderedMove, at_, Option.all_some, decide_eq_true_eq] at ordered
  cases ignored : ignoredPath k.update.path with
  | false =>
    by_cases here : k.update.path = file
    · exact charted.deliver_here counted steady moved at_ ignored here
    · exact charted.deliver_elsewhere counted steady moved at_ ignored here
        (ordered.resolve_left here)
  | true =>
    have away : k.update.path ≠ file := by
      intro here
      rw [here, heard] at ignored
      cases ignored
    have leaves := leaves_deliver charted.steady rt at_ now missing away
    rw [← after] at leaves
    rw [deliver_ignored now missing ignored] at after
    refine charted.quiet counted steady (i := i) ?_ ?_ ?_ kept ?_ leaves
    · exact fun _ => by rw [after]
    · exact fun _ => by rw [after]
    · rw [after]
    · rw [after]

end Moves

variable (heard : ignoredPath file = false)

include heard

theorem Charted.next (charted : Charted repoID file a b s) {move : Move}
    (moved : s.next rt repoID [a, b] move = some t) (listed : editMove s.toNet move = true)
    (good : steadyMove repoID file s.toNet move = true)
    (ordered : orderedMove file s.toNet move = true) : Charted repoID file a b t := by
  obtain ⟨first, kept, -⟩ := StampedNet.next_eq moved
  have counted := counted_next charted.counted rt first
  have steady := steady_next heard rt charted.steady charted.counted first listed good
  cases move with
  | change p now payload =>
    exact charted.change counted steady moved (of_decide_eq_true ordered) good
  | deliver i now missing => exact charted.deliver heard counted steady moved ordered
  | fetch p sent =>
    cases moved
    exact charted.setNode counted steady (fetch_frame _ _).1 (fetch_clock _ _) kept
      (leaves_setNode (by rw [fetch_db]))
  | respond p now env peerID payload =>
    cases moved
    exact charted.setNode counted steady (response_frame rt _ now env peerID payload).1
      (response_clock rt _ now env peerID payload) kept (leaves_respond rt good)
  | retry p now task =>
    cases moved
    exact charted.setNode counted steady rfl rfl kept (leaves_setNode rfl)
  | resolve => cases listed

theorem charted_reach (reached : Reach (StampedNet.Initial repoID [a, b])
      (Guarded (Runs (StampedNet.next rt repoID [a, b])) (fun s move =>
        editMove s.toNet move = true ∧ steadyMove repoID file s.toNet move = true ∧
          orderedMove file s.toNet move = true)) s) : Charted repoID file a b s := by
  refine reach_invariant (Charted repoID file a b) ?_ ?_ reached
  · exact fun s start => ⟨counted_initial start.net, steady_initial start.net,
      stamped_initial start, by simp [start.net.quiet], by simp [start.net.quiet],
      by simp [start.net.quiet]⟩
  · rintro s move t charted ⟨moved, listed, good, ordered⟩
    exact charted.next heard moved listed good ordered

variable (rt)

/-- A conflict is reported exactly for concurrent changes, for every message of
every run in which a peer waits with its next change. Where no message about
another file gets ahead, those are the changes whose clocks are concurrent. -/
theorem conflict_iff_concurrent {net : Net} (reached : Reach (Net.Initial repoID [a, b])
      (Guarded (Runs (Net.next rt repoID [a, b])) (fun net move =>
        editMove net move = true ∧ steadyMove repoID file net move = true)) net) {k : Packet}
    (member : k ∈ net.flight) (here : k.update.path = file) {m : FileMetadata}
    (row : (net.node k.dst).db.get repoID file = some m) (differ : m.hash ≠ k.update.hash) :
    ((decision (net.node k.dst) k.src repoID k.update).isConflict = true ↔
      Concurrent net.hist k.edit (net.hist.origin k.dst file)) ∧
    ∀ stamp, Reach (StampedNet.Initial repoID [a, b])
        (Guarded (Runs (StampedNet.next rt repoID [a, b])) (fun s move =>
          editMove s.toNet move = true ∧ steadyMove repoID file s.toNet move = true ∧
            orderedMove file s.toNet move = true)) ⟨net, stamp⟩ →
      ((decision (net.node k.dst) k.src repoID k.update).isConflict = true ↔
        (stamp k.edit).compare (stamp (net.hist.origin k.dst file)) = .concurrent) := by
  have steady := (steady_reach heard rt reached).2
  have processed := steady.conflict_iff member here row differ
  refine ⟨processed, fun stamp stamped => ?_⟩
  have charted := charted_reach heard stamped
  have underway := steady.underway k member here
  have made := charted.made member here
  have inside := (steady.flights k member).2.1
  have origin := charted.counted.past _ _ _ (steady.rows k.dst inside m row).2.2
  rw [processed, charted.stamped.concurrent_iff made origin]
  rcases lt_or_eq_of_le underway.bound with above | level
  · -- the sender had processed the row of the receiver
    have earlier := (underway.above above).2 m row
    exact iff_of_false (fun apart => apart.2.2 earlier)
      (fun apart => apart.2 ((charted.stamped.stamps _ made).2.2 _ earlier))
  · exact iff_of_true (underway.level level) (charted.unheard.level k member here level)

end Run

theorem StampedNet.reach_net {rt : Runtime} {repoID file : String} {peers : List String}
    {s : StampedNet} (reached : Reach (StampedNet.Initial repoID peers)
      (Guarded (Runs (StampedNet.next rt repoID peers)) (fun s move =>
        editMove s.toNet move = true ∧ steadyMove repoID file s.toNet move = true ∧
          orderedMove file s.toNet move = true)) s) : Reach (Net.Initial repoID peers)
      (Guarded (Runs (Net.next rt repoID peers)) (fun net move =>
        editMove net move = true ∧ steadyMove repoID file net move = true)) s.toNet := by
  induction reached with
  | start initial => exact .start initial.net
  | next _ step ih =>
    obtain ⟨moved, listed, good, -⟩ := step
    exact .next ih ⟨(StampedNet.next_eq moved).1, listed, good⟩

theorem StampedNet.Initial.tracking (repoID root : String) (peers : List String)
    (stamp : Edit → VectorClock) :
    StampedNet.Initial repoID peers ⟨Net.tracking repoID root, stamp⟩ where
  net := Net.tracking_initial repoID root peers
  clocks := fun _ _ => rfl

def crossedRun : List Move :=
  [.change "a" 0 ⟨.add, "g", "hg", 1, 3, 420⟩, .change "a" 0 ⟨.add, "f", "ha", 1, 5, 420⟩,
    .deliver 0 0 true, .change "b" 0 ⟨.add, "f", "hb", 1, 4, 420⟩]

theorem conflict_iff_concurrent_crossedRun :
    ∃ (net : Net) (stamp : Edit → VectorClock) (k : Packet) (m : FileMetadata),
      k ∈ net.flight ∧ (net.node k.dst).db.get "r" "f" = some m ∧ m.hash ≠ k.update.hash ∧
      (decision (net.node k.dst) k.src "r" k.update).isConflict = true ∧
      ((decision (net.node k.dst) k.src "r" k.update).isConflict = true ↔
        Concurrent net.hist k.edit (net.hist.origin k.dst "f")) ∧
      ((decision (net.node k.dst) k.src "r" k.update).isConflict = true ↔
        (stamp k.edit).compare (stamp (net.hist.origin k.dst "f")) = .concurrent) := by
  obtain ⟨⟨net, stamp⟩, stamped, k, member, path, differ, conflict⟩ := reach_of_replay
    (StampedNet.next .plain "r" ["a", "b"])
    (fun s move => editMove s.toNet move = true ∧ steadyMove "r" "f" s.toNet move = true ∧
      orderedMove "f" s.toNet move = true)
    (.start (StampedNet.Initial.tracking "r" "/r" ["a", "b"] (fun _ => .new))) crossedRun
    (fun s => ∃ k ∈ s.flight, k.update.path = "f" ∧
      ((s.node k.dst).db.get "r" "f").any (fun m => decide (m.hash ≠ k.update.hash)) = true ∧
      (decision (s.node k.dst) k.src "r" k.update).isConflict = true) (by decide +kernel)
  have reached := StampedNet.reach_net stamped
  cases row : (net.node k.dst).db.get "r" "f" with
  | none =>
    rw [row] at differ
    cases differ
  | some m =>
    rw [row, Option.any_some, decide_eq_true_eq] at differ
    obtain ⟨processed, clocks⟩ :=
      conflict_iff_concurrent .plain (by decide) reached member path row differ
    exact ⟨net, stamp, k, m, member, row, differ, conflict, processed, clocks stamp stamped⟩

/-- A message about another file gets ahead: it counts a change that the receiver
has not heard of, and the stamp of the receiver's own change counts it too. -/
theorem overtaken_stamps_ordered : ∃ s,
    Reach (StampedNet.Initial "r" ["a", "b"])
      (Guarded (Runs (StampedNet.next .plain "r" ["a", "b"])) (fun s move =>
        editMove s.toNet move = true ∧ steadyMove "r" "f" s.toNet move = true)) s ∧
    ∃ k ∈ s.flight, k.update.path = "f" ∧
      Concurrent s.hist k.edit (s.hist.origin k.dst "f") ∧
      (s.stamp k.edit).compare (s.stamp (s.hist.origin k.dst "f")) = .before ∧
      (decision (s.node k.dst) k.src "r" k.update).isConflict = true :=
  reach_of_replay (StampedNet.next .plain "r" ["a", "b"])
    (fun s move => editMove s.toNet move = true ∧ steadyMove "r" "f" s.toNet move = true)
    (.start (StampedNet.Initial.tracking "r" "/r" ["a", "b"] (fun _ => .new)))
    [.change "a" 0 ⟨.add, "f", "ha", 1, 5, 420⟩, .change "a" 0 ⟨.add, "g", "hg", 1, 3, 420⟩,
      .deliver 1 0 true, .change "b" 0 ⟨.add, "f", "hb", 1, 4, 420⟩] _ (by decide +kernel)

def unequalRun : List Move :=
  [.change "a" 0 ⟨.add, "f", "h", 1, 5, 420⟩, .change "a" 0 ⟨.modify, "f", "ha", 1, 6, 420⟩,
    .change "b" 0 ⟨.add, "f", "hb", 1, 4, 420⟩]

theorem unequal_edits_missed : ∃ net,
    Reach (Net.Initial "r" ["a", "b"])
      (Guarded (Runs (Net.next .plain "r" ["a", "b"]))
        (fun net move => editMove net move = true)) net ∧
    ∃ k ∈ net.flight, k.update.path = "f" ∧
      Concurrent net.hist k.edit (net.hist.origin k.dst "f") ∧
      ((net.node k.dst).db.get "r" "f").any (fun m => decide (m.hash ≠ k.update.hash ∧
        (k.update.vectorClock.bind fun remote => m.vectorClock.map fun own =>
          VectorClock.compare ⟨decodeClock remote⟩ own) = some .concurrent)) = true ∧
      (decision (net.node k.dst) k.src "r" k.update).isConflict = false :=
  reach_of_replay (Net.next .plain "r" ["a", "b"])
    (fun net move => editMove net move = true) (.start (Net.tracking_initial "r" "/r" ["a", "b"]))
    unequalRun _ (by decide +kernel)

end P2PSync
