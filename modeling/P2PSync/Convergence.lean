import P2PSync.Library.LastWriter
import P2PSync.Network

/-! When the peers of a network agree. For each path the network is compared with a
replicated register whose versions are ordered by number, time and author; the handlers
follow that order under conditions. -/
namespace P2PSync

open Transition

structure Stamp where
  version : Int
  time : Int
  author : String
  hash : String
  isDeleted : Bool
  deriving DecidableEq

def Stamp.key (v : Stamp) : Int ×ₗ Int ×ₗ String := toLex (v.version, toLex (v.time, v.author))

theorem Stamp.key_lt_iff (a b : Stamp) : a.key < b.key ↔ a.version < b.version ∨
    (a.version = b.version ∧ (a.time < b.time ∨ (a.time = b.time ∧ a.author < b.author))) := by
  simp only [Stamp.key, Prod.Lex.toLex_lt_toLex]

theorem Stamp.author_of_key (a b : Stamp) (same : a.key = b.key) : a.author = b.author := by
  simp only [Stamp.key, toLex_inj, Prod.mk.injEq] at same
  exact same.2.2

def FileMetadata.stamp (m : FileMetadata) (author : String) : Stamp :=
  ⟨m.version, m.localLastModified, author, m.hash, m.isDeleted⟩

def Packet.stamp (k : Packet) : Stamp :=
  ⟨k.update.decodedVersion, k.update.decodedTime, k.edit.peer, k.update.hash, k.update.isDeleted⟩

structure Faithful (version time : Int) : Prop extends WireExact version where
  positive : 0 < version
  time : Binary64.toInt64 time = time

/-- A local change keeps the order of versions: its path is one the receivers
look at, its number and time survive the wire, and a reused number comes with a
later time. -/
def orderlyChange (sc : SyncCoordinator) (repoID : String) (payload : FileChangedPayload) : Bool :=
  let path := relativePath sc repoID payload.path
  let row := sc.db.get repoID path
  let u := recordedUpdate sc repoID payload
  !ignoredPath path && decide ((u.decodedVersion : Int) = nextVersion row payload) &&
    decide (u.decodedTime = payload.modifiedTime) &&
    row.all (fun m => !reusesVersion m payload || m.localLastModified < payload.modifiedTime)

/-- A delivery keeps the order of versions: the same content is not announced
with a greater version, a tombstone without hash finds a row, and for different
contents of equal number and time the sender is to the receiver as the author of
the announced version is to the author of the row. -/
def orderlyDelivery (net : Net) (k : Packet) : Bool :=
  let author := (net.hist.origin k.dst k.update.path).peer
  match (net.node k.dst).db.get k.repoID k.update.path with
  | none => k.update.hash ≠ ""
  | some m =>
    if k.update.hash = m.hash then decide (k.stamp.key ≤ (m.stamp author).key)
    else
      !decide ((k.update.decodedVersion : Int) = m.version ∧
        k.update.decodedTime = m.localLastModified) ||
      decide (k.dst < k.src) == decide (author < k.edit.peer)

def orderly (repoID : String) (net : Net) : Move → Bool
  | .change p _ payload =>
    !decide (Recorded (net.node p) repoID payload) || orderlyChange (net.node p) repoID payload
  | .deliver i _ _ => net.flight[i]?.all (orderlyDelivery net)
  | _ => true

def Move.announces : Move → Bool
  | .change _ _ payload => announced payload
  | .deliver .. => true
  | _ => false

section Register

variable (repoID : String) (peers : List String)

def register (net : Net) (path : String) (issued : Set Stamp) : LastWriter.State String Stamp where
  row p :=
    if p ∈ peers then
      ((net.node p).db.get repoID path).map (·.stamp (net.hist.origin p path).peer)
    else none
  flight := { x | ∃ k ∈ net.flight, k.update.path = path ∧ x = (k.dst, k.stamp) }
  issued := issued

structure Sane (net : Net) : Prop where
  named : ∀ p ∈ peers, (net.node p).localPeerID = p
  known : ∀ p ∈ peers, repoID ∈ (net.node p).db.repositories
  rows : ∀ p ∈ peers, ∀ path m, (net.node p).db.get repoID path = some m →
    ignoredPath path = false ∧ Faithful m.version m.localLastModified
  flights : ∀ k ∈ net.flight, k.src ∈ peers ∧ k.dst ∈ peers ∧ k.src ≠ k.dst ∧ k.repoID = repoID ∧
    ignoredPath k.update.path = false ∧ Faithful k.update.decodedVersion k.update.decodedTime

theorem rank_row {m : FileMetadata} (faithful : Faithful m.version m.localLastModified)
    (sc : SyncCoordinator) (src : String) (u : Update) :
    (ownVersion sc (some m)).rank < (remoteVersion src u).rank ↔
      m.version < u.decodedVersion ∨ (m.version = u.decodedVersion ∧
        (m.localLastModified < u.decodedTime ∨
          (m.localLastModified = u.decodedTime ∧ sc.localPeerID < src))) := by
  have wrap := faithful.wrap
  have lt : Binary64.wrapUint64 m.version < u.decodedVersion ↔
      m.version < (u.decodedVersion : Int) := by omega
  have eq : Binary64.wrapUint64 m.version = u.decodedVersion ↔
      m.version = (u.decodedVersion : Int) := by omega
  simp only [rank_lt_iff, ownVersion, remoteVersion, lt, eq]

theorem rank_iff_key {net : Net} {k : Packet} {m : FileMetadata}
    (named : (net.node k.dst).localPeerID = k.dst)
    (row : (net.node k.dst).db.get k.repoID k.update.path = some m)
    (faithful : Faithful m.version m.localLastModified) (good : orderlyDelivery net k = true)
    (differ : k.update.hash ≠ m.hash) :
    (ownVersion (net.node k.dst) (some m)).rank < (remoteVersion k.src k.update).rank ↔
      (m.stamp (net.hist.origin k.dst k.update.path).peer).key < k.stamp.key := by
  rw [rank_row faithful, Stamp.key_lt_iff, named]
  simp only [FileMetadata.stamp, Packet.stamp]
  -- the two sides differ only where the number and the time tie
  have tie : m.version = k.update.decodedVersion → m.localLastModified = k.update.decodedTime →
      (k.dst < k.src ↔ (net.hist.origin k.dst k.update.path).peer < k.edit.peer) := by
    intro version time
    simp only [orderlyDelivery, row, if_neg differ] at good
    simpa [← version, ← time] using good
  constructor
  · rintro (h | ⟨version, h | ⟨time, h⟩⟩)
    · exact Or.inl h
    · exact Or.inr ⟨version, Or.inl h⟩
    · exact Or.inr ⟨version, Or.inr ⟨time, (tie version time).mp h⟩⟩
  · rintro (h | ⟨version, h | ⟨time, h⟩⟩)
    · exact Or.inl h
    · exact Or.inr ⟨version, Or.inl h⟩
    · exact Or.inr ⟨version, Or.inr ⟨time, (tie version time).mpr h⟩⟩

theorem orderly_decision {net : Net} {k : Packet} (named : (net.node k.dst).localPeerID = k.dst)
    (faithful : ∀ m, (net.node k.dst).db.get k.repoID k.update.path = some m →
      Faithful m.version m.localLastModified) (positive : 0 < k.update.decodedVersion)
    (good : orderlyDelivery net k = true) : let author := (net.hist.origin k.dst k.update.path).peer
    let held := ((net.node k.dst).db.get k.repoID k.update.path).map (·.stamp author)
    if (decision (net.node k.dst) k.src k.repoID k.update).action = .acceptRemote
    then ∀ w, held = some w → w.key ≤ k.stamp.key
    else LastWriter.Covers Stamp.key held k.stamp := by
  intro author held
  cases row : (net.node k.dst).db.get k.repoID k.update.path with
  | none =>
    have hash : k.update.hash ≠ "" := by simpa [orderlyDelivery, row] using good
    have below : (ownVersion (net.node k.dst) none).rank < (remoteVersion k.src k.update).rank :=
      (rank_lt_iff _ _).mpr (Or.inl positive)
    have accept : (decision (net.node k.dst) k.src k.repoID k.update).action = .acceptRemote := by
      rw [decision, row]
      exact (resolve_accept_iff _ _).mpr ⟨fun h => hash h.symm, below⟩
    rw [if_pos accept]
    simp [held, row]
  | some m =>
    have here : held = some (m.stamp author) := by simp [held, row]
    rw [here]
    by_cases same : k.update.hash = m.hash
    · have skip : (decision (net.node k.dst) k.src k.repoID k.update).action = .skip := by
        rw [decision, row]
        exact (resolve_skip_iff _ _).mpr same.symm
      rw [if_neg (by rw [skip]; decide)]
      refine ⟨_, rfl, ?_⟩
      simpa [orderlyDelivery, row, same] using good
    · have order := rank_iff_key named row (faithful m row) good same
      split
      · rename_i accept
        rw [decision, row] at accept
        intro w eq
        cases eq
        exact (order.mp ((resolve_accept_iff _ _).mp accept).2).le
      · rename_i keep
        rw [decision, row, resolve_action (fun h => same h.symm)] at keep
        refine ⟨_, rfl, not_lt.mp (fun h => keep ?_)⟩
        rw [if_pos (order.mpr h)]

theorem orderlyChange_spec {sc : SyncCoordinator} {payload : FileChangedPayload}
    (faithful : ∀ m, sc.db.get repoID (relativePath sc repoID payload.path) = some m →
      Faithful m.version m.localLastModified) (good : orderlyChange sc repoID payload = true) :
    let path := relativePath sc repoID payload.path
    let version := nextVersion (sc.db.get repoID path) payload
    ignoredPath path = false ∧
      ((recordedUpdate sc repoID payload).decodedVersion : Int) = version ∧
      (recordedUpdate sc repoID payload).decodedTime = payload.modifiedTime ∧
      Faithful version payload.modifiedTime ∧
      ∀ m, sc.db.get repoID path = some m → m.version < version ∨
        (m.version = version ∧ m.localLastModified < payload.modifiedTime) := by
  intro path version
  simp only [orderlyChange, Bool.and_eq_true, Bool.not_eq_true', decide_eq_true_eq] at good
  obtain ⟨⟨⟨heard, number⟩, time⟩, reuse⟩ := good
  obtain ⟨stored, step⟩ := recorded_exact rfl (fun m row => (faithful m row).toWireExact) number
  have above : ∀ m, sc.db.get repoID path = some m → m.version < version ∨
      (m.version = version ∧ m.localLastModified < payload.modifiedTime) := by
    intro m row
    rw [show version = _ from step m row]
    cases again : reusesVersion m payload with
    | true =>
      have later : m.localLastModified < payload.modifiedTime := by
        simpa [show sc.db.get repoID (relativePath sc repoID payload.path) = some m from row,
          again] using reuse
      exact Or.inr ⟨rfl, later⟩
    | false => exact Or.inl (Int.lt_succ m.version)
  have positive : 0 < version := by
    cases row : sc.db.get repoID path with
    | none => simp [version, row, nextVersion]
    | some m =>
      have held := (faithful m row).positive
      have order := above m row
      omega
  exact ⟨heard, number, time, ⟨stored, positive, time⟩, above⟩

variable {repoID peers} {net : Net}

section

variable (sane : Sane repoID peers net) {p : String} (inside : p ∈ peers)
  {payload : FileChangedPayload} (now : Int) (loud : announced payload = true)
  (recorded : Recorded (net.node p) repoID payload)
  (good : orderlyChange (net.node p) repoID payload = true)

include sane inside loud recorded good

omit loud in
theorem change_sane : Sane repoID peers (change repoID peers net p now payload) := by
  obtain ⟨heard, number, time, faithful, -⟩ :=
    orderlyChange_spec repoID (fun m row => (sane.rows p inside _ m row).2) good
  have frame := change_frame repoID peers net p payload now
  refine ⟨?_, ?_, ?_, ?_⟩
  · intro q hq
    rw [(frame q).1]
    exact sane.named q hq
  · intro q hq
    rw [(frame q).2.2.2]
    exact sane.known q hq
  · intro q hq path m row
    rw [change_row peers now recorded (sane.known p inside)] at row
    split at row
    · rename_i here
      cases here.2
      cases row
      exact ⟨heard, faithful⟩
    · exact sane.rows q hq path m row
  · intro k member
    rw [change_flight peers now recorded (sane.known p inside)] at member
    rcases List.mem_append.mp member with old | sent
    · exact sane.flights k old
    · obtain ⟨-, q, there, away, rfl⟩ := mem_announcements.mp sent
      refine ⟨inside, there, away.symm, rfl, heard, ?_⟩
      simp only [number, time]
      exact faithful

omit loud good in
theorem change_elsewhere {path : String}
    (elsewhere : path ≠ relativePath (net.node p) repoID payload.path) (issued : Set Stamp) :
    register repoID peers (change repoID peers net p now payload) path issued =
      register repoID peers net path issued := by
  have rows := change_row peers now recorded (sane.known p inside)
  have flight := change_flight peers now recorded (sane.known p inside)
  have hist := change_hist peers now recorded (sane.known p inside)
  simp only [register, rows, hist, History.recorded_origin, Prod.mk.injEq, elsewhere, and_false,
    if_false, LastWriter.State.mk.injEq, true_and, and_true]
  ext x
  constructor
  · rintro ⟨k, member, at_, rfl⟩
    rw [flight] at member
    rcases List.mem_append.mp member with old | sent
    · exact ⟨k, old, at_, rfl⟩
    · obtain ⟨-, q, -, -, rfl⟩ := mem_announcements.mp sent
      exact absurd at_.symm elsewhere
  · rintro ⟨k, member, at_, rfl⟩
    exact ⟨k, flight ▸ List.mem_append_left _ member, at_, rfl⟩

theorem change_step (path : String) (issued : Set Stamp) : ∃ issued',
    LastWriter.Step peers Stamp.key Stamp.author (register repoID peers net path issued)
      (register repoID peers (change repoID peers net p now payload) path issued') := by
  obtain ⟨heard, number, time, faithful, above⟩ :=
    orderlyChange_spec repoID (fun m row => (sane.rows p inside _ m row).2) good
  have rows := change_row peers now recorded (sane.known p inside)
  have flight := change_flight peers now recorded (sane.known p inside)
  have hist := change_hist peers now recorded (sane.known p inside)
  by_cases here : path = relativePath (net.node p) repoID payload.path
  · subst here
    let v : Stamp := (recordedMeta (net.node p) repoID payload).stamp p
    refine ⟨insert v issued, .issue p v rfl ?_ ?_ ?_ ?_ ?_ rfl⟩
    · intro w held
      simp only [register, if_pos inside, Option.map_eq_some_iff] at held
      obtain ⟨m, row, rfl⟩ := held
      rw [Stamp.key_lt_iff]
      exact (above m row).imp id (fun h => ⟨h.1, Or.inl h.2⟩)
    · funext q
      by_cases same : q = p
      · subst same
        simp only [register, if_pos inside, rows, hist, History.recorded_origin, and_self, if_true,
          Function.update_self]
        rfl
      · simp only [register, rows, hist, History.recorded_origin, same, false_and, if_false,
          Function.update_of_ne same]
    · rintro x ⟨k, member, at_, rfl⟩
      exact ⟨k, flight ▸ List.mem_append_left _ member, at_, rfl⟩
    · intro q hq other
      refine ⟨_, flight ▸ List.mem_append_right _ (mem_announcements.mpr
        ⟨loud, q, hq, other, rfl⟩), rfl, ?_⟩
      simp only [v, Packet.stamp, FileMetadata.stamp, number, time]
      rfl
    · rintro x ⟨k, member, at_, rfl⟩
      rw [flight] at member
      rcases List.mem_append.mp member with old | sent
      · exact Or.inl ⟨k, old, at_, rfl⟩
      · obtain ⟨-, q, -, -, rfl⟩ := mem_announcements.mp sent
        right
        simp only [v, Packet.stamp, FileMetadata.stamp, number, time]
        rfl
  · refine ⟨issued, ?_⟩
    rw [change_elsewhere sane inside now recorded here]
    exact .idle _

end

section

variable (sane : Sane repoID peers net) (rt : Runtime) {i : Nat} {k : Packet}
  (at_ : net.flight[i]? = some k) (now : Int) (missing : Bool)

include sane at_

theorem deliver_sane :
    Sane repoID peers (deliver rt peers net (net.flight.eraseIdx i) k now missing) := by
  obtain ⟨from_, to_, away, repo, heard, faithful⟩ := sane.flights k (List.mem_of_getElem? at_)
  have frame := deliver_frame rt peers net (net.flight.eraseIdx i) k
    now missing
  have known : k.repoID ∈ (net.node k.dst).db.repositories := repo ▸ sane.known k.dst to_
  refine ⟨?_, ?_, ?_, ?_⟩
  · intro q hq
    rw [(frame q).1]
    exact sane.named q hq
  · intro q hq
    rw [(frame q).2.2.2]
    exact sane.known q hq
  · intro q hq path m row
    rw [deliver_row rt peers _ now missing heard known] at row
    split at row
    · rename_i here
      cases here.2.2
      cases row
      refine ⟨heard, ?_⟩
      simpa only [acceptedMeta, faithful.stored] using faithful
    · exact sane.rows q hq path m row
  · intro x member
    rcases deliver_flight heard member with old | ⟨-, -, m, row, back, ne, rfl⟩
    · exact sane.flights x ((mem_eraseIdx_or at_).mpr (Or.inr old))
    · have stored := (sane.rows k.dst to_ _ m (repo ▸ row)).2
      refine ⟨to_, back, ne.symm, repo, heard, ?_⟩
      simpa only [metadataUpdate, Update.decodedVersion, Update.decodedTime, stored.exact,
        stored.time] using stored

theorem deliver_elsewhere {path : String} (elsewhere : path ≠ k.update.path) (issued : Set Stamp) :
    register repoID peers (deliver rt peers net (net.flight.eraseIdx i) k now missing) path issued =
      register repoID peers net path issued := by
  obtain ⟨-, to_, -, repo, heard, -⟩ := sane.flights k (List.mem_of_getElem? at_)
  have known : k.repoID ∈ (net.node k.dst).db.repositories := repo ▸ sane.known k.dst to_
  have rows := deliver_row rt peers (net.flight.eraseIdx i) now missing heard known
  have hist := deliver_hist rt peers net (net.flight.eraseIdx i) now missing heard
  simp only [register, rows, hist, History.processed_origin, Prod.mk.injEq, elsewhere, and_false,
    if_false, LastWriter.State.mk.injEq, true_and, and_true]
  ext x
  constructor
  · rintro ⟨y, member, at_path, rfl⟩
    rcases deliver_flight heard member with old | ⟨-, -, m, -, -, -, rfl⟩
    · exact ⟨y, List.mem_of_mem_eraseIdx old, at_path, rfl⟩
    · exact absurd at_path.symm elsewhere
  · rintro ⟨y, member, at_path, rfl⟩
    refine ⟨y, List.mem_append_left _
      (((mem_eraseIdx_or at_).mp member).resolve_left ?_), at_path, rfl⟩
    rintro rfl
    exact elsewhere at_path.symm

theorem deliver_step (good : orderlyDelivery net k = true) (path : String) (issued : Set Stamp) :
    LastWriter.Step peers Stamp.key Stamp.author (register repoID peers net path issued)
      (register repoID peers (deliver rt peers net (net.flight.eraseIdx i) k now missing) path
        issued) := by
  obtain ⟨from_, to_, away, repo, heard, faithful⟩ := sane.flights k (List.mem_of_getElem? at_)
  have known : k.repoID ∈ (net.node k.dst).db.repositories := repo ▸ sane.known k.dst to_
  have rows := deliver_row rt peers (net.flight.eraseIdx i) now missing heard known
  have hist := deliver_hist rt peers net (net.flight.eraseIdx i) now missing heard
  by_cases here : path = k.update.path
  · subst here
    have decided := orderly_decision (sane.named k.dst to_)
      (fun m row => (sane.rows k.dst to_ _ m (repo ▸ row)).2) (by have := faithful.positive; omega)
      good
    refine .receive k.dst k.stamp ⟨k, List.mem_of_getElem? at_, rfl, rfl⟩ ?_ ?_ ?_ ?_ rfl
    · intro p other
      simp only [register, rows, hist, History.processed_origin, other, false_and, and_false,
        if_false]
    · simp only [register, if_pos to_, rows, hist, History.processed_origin, decide_eq_true_eq,
        repo, and_true]
      rw [repo] at decided
      split at decided
      · rename_i accept
        left
        refine ⟨?_, decided⟩
        simp only [accept, if_true, Option.map_some, FileMetadata.stamp, acceptedMeta, Packet.stamp,
          faithful.stored]
      · rename_i stay
        right
        refine ⟨?_, decided⟩
        simp only [stay, if_false]
    · rintro x ⟨y, member, at_path, rfl⟩ ne
      refine ⟨y, List.mem_append_left _
        (((mem_eraseIdx_or at_).mp member).resolve_left ?_), at_path, rfl⟩
      rintro rfl
      exact ne rfl
    · rintro x ⟨y, member, at_path, rfl⟩
      rcases deliver_flight heard member with old | ⟨-, -, m, row, -, -, rfl⟩
      · exact Or.inl ⟨y, (mem_eraseIdx_or at_).mpr (Or.inr old), at_path, rfl⟩
      · right
        have stored := (sane.rows k.dst to_ _ m (repo ▸ row)).2
        simp only [register, if_pos to_, ← repo, row, Option.map_some, FileMetadata.stamp,
          Packet.stamp, metadataUpdate, Update.decodedVersion, Update.decodedTime, stored.exact,
          stored.time]
  · rw [deliver_elsewhere sane rt at_ now missing here]
    exact .idle _

end

variable (repoID peers) in
structure Converging (net : Net) : Prop where
  sane : Sane repoID peers net
  registers : ∀ path, ∃ issued,
    LastWriter.Invariant peers Stamp.key Stamp.author (register repoID peers net path issued)

theorem converging_initial (start : net.Initial repoID peers) : Converging repoID peers net where
  sane := {
    named := start.named
    known := start.known
    rows := fun p hp path m row => absurd row (by simp [start.blank p hp path])
    flights := by simp [start.quiet] }
  registers := by
    intro path
    refine ⟨∅, LastWriter.invariant_empty _ _ _ _ ?_ ?_ rfl⟩
    · intro p
      simp only [register]
      split
      · rename_i inside
        simp [start.blank p inside path]
      · rfl
    · simp [register, start.quiet]

theorem converging_next (rt : Runtime) {after : Net} {move : Move}
    (before : Converging repoID peers net) (moved : net.next rt repoID peers move = some after)
    (loud : move.announces = true) (good : orderly repoID net move = true) :
    Converging repoID peers after := by
  cases move with
  | change p now payload =>
    obtain ⟨inside, -, rfl⟩ := next_change moved
    by_cases recorded : Recorded (net.node p) repoID payload
    · have fine : orderlyChange (net.node p) repoID payload = true := by
        simpa [orderly, recorded] using good
      refine ⟨change_sane before.sane inside now recorded fine, fun path => ?_⟩
      obtain ⟨issued, inv⟩ := before.registers path
      obtain ⟨issued', step⟩ := change_step before.sane inside now loud recorded fine path issued
      exact ⟨issued', step.keeps Stamp.author_of_key inv⟩
    · rw [change_dropped now recorded]
      exact before
  | deliver i now missing =>
    obtain ⟨k, at_, rfl⟩ := next_deliver moved
    have fine : orderlyDelivery net k = true := by simpa [orderly, at_] using good
    refine ⟨deliver_sane before.sane rt at_ now missing, fun path => ?_⟩
    obtain ⟨issued, inv⟩ := before.registers path
    exact ⟨issued, (deliver_step before.sane rt at_ now missing fine path issued).keeps
      Stamp.author_of_key inv⟩
  | _ => cases loud

end Register

def Agree (repoID : String) (peers : List String) (net : Net) : Prop :=
  ∀ p ∈ peers, ∀ q ∈ peers, ∀ path,
    liveHash (net.node p) repoID path = liveHash (net.node q) repoID path

/-- Peers whose moves are all orderly agree whenever nothing is in flight. -/
theorem metadata_converges (rt : Runtime) (repoID : String) (peers : List String) {net : Net}
    (reached : Reach (Net.Initial repoID peers)
      (Guarded (Runs (Net.next rt repoID peers))
        (fun net move => move.announces = true ∧ orderly repoID net move = true)) net)
    (quiet : net.flight = []) : Agree repoID peers net := by
  have holds : Converging repoID peers net := by
    refine reach_invariant (Converging repoID peers) (fun _ => converging_initial) ?_
      reached
    rintro s move t before ⟨moved, loud, good⟩
    exact converging_next rt before moved loud good
  intro p hp q hq path
  obtain ⟨issued, inv⟩ := holds.registers path
  have same := inv.agree (by simp [register, quiet]) hp hq
  simp only [register, if_pos hp, if_pos hq] at same
  -- what is compared is part of the version the register holds
  have content : ∀ r : String, liveHash (net.node r) repoID path =
      (((net.node r).db.get repoID path).map (·.stamp (net.hist.origin r path).peer)).bind
        (fun v => if v.isDeleted then none else some v.hash) := by
    intro r
    cases h : (net.node r).db.get repoID path <;> simp [liveHash, h, FileMetadata.stamp]
  rw [content p, content q, same]

def orderlyRun : List Move :=
  [.change "a" 0 ⟨.add, "f", "ha", 1, 5, 420⟩, .change "b" 0 ⟨.add, "f", "hb", 1, 5, 420⟩,
    .deliver 2 0 false, .deliver 2 0 false, .deliver 0 0 false, .deliver 0 0 false,
    .change "a" 0 ⟨.delete, "f", "", 0, 7, 0⟩, .change "b" 0 ⟨.add, "g", "hg", 1, 8, 420⟩,
    .deliver 3 0 false, .deliver 2 0 false, .deliver 1 0 false, .deliver 0 0 false]

theorem metadata_converges_orderlyRun :
    ∃ net, (net.flight = [] ∧ liveHash (net.node "c") "r" "f" = none ∧
        liveHash (net.node "c") "r" "g" = some "hg") ∧ Agree "r" ["a", "b", "c"] net := by
  obtain ⟨net, reached, done⟩ := reach_of_replay
    (Net.next .plain "r" ["a", "b", "c"])
    (fun net move => move.announces = true ∧ orderly "r" net move = true)
    (.start (Net.tracking_initial "r" "/r" ["a", "b", "c"])) orderlyRun
    (fun net => net.flight = [] ∧ liveHash (net.node "c") "r" "f" = none ∧
      liveHash (net.node "c") "r" "g" = some "hg") (by decide)
  exact ⟨net, done, metadata_converges .plain "r" ["a", "b", "c"] reached done.1⟩

/-- The third peer hears of the lower peer's file first and then compares its own
name, not the author's, with the other sender's. -/
def tieRun : List Move :=
  [.change "a" 0 ⟨.add, "f", "ha", 1, 5, 420⟩, .change "b" 0 ⟨.add, "f", "hb", 1, 5, 420⟩,
    .deliver 0 0 false, .deliver 0 0 false, .deliver 0 0 false, .deliver 0 0 false]

theorem tieRun_disagrees : ∃ net, Reach (Net.Initial "r" ["a", "b", "c"])
      (Guarded (Runs (Net.next .plain "r" ["a", "b", "c"]))
        (fun _ move => move.announces = true)) net ∧
      net.flight = [] ∧ ¬ Agree "r" ["a", "b", "c"] net := by
  obtain ⟨net, reached, quiet, differ⟩ := reach_of_replay
    (Net.next .plain "r" ["a", "b", "c"])
    (fun _ move => move.announces = true)
    (.start (Net.tracking_initial "r" "/r" ["a", "b", "c"])) tieRun
    (fun net => net.flight = [] ∧
      liveHash (net.node "b") "r" "f" ≠ liveHash (net.node "c") "r" "f") (by decide)
  exact ⟨net, reached, quiet, fun agree => differ (agree "b" (by decide) "c" (by decide) "f")⟩

end P2PSync
