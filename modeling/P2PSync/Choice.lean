import P2PSync.Network

/-! The user takes over the other side of a conflict. The coordinator forgets its row,
removes the file and asks the peer for its version; the removal comes back as an
ordinary deletion. -/
namespace P2PSync

open Transition

section Choice

variable (repoID file a b : String)

structure Conflicted (m : FileMetadata) (net : Net) : Prop where
  named : (net.node a).localPeerID = a ∧ (net.node b).localPeerID = b
  known : repoID ∈ (net.node a).db.repositories ∧ repoID ∈ (net.node b).db.repositories
  own : ∃ r, (net.node a).db.get repoID file = some r ∧ r.isDeleted = false ∧
    r.version = m.version ∧ r.hash ≠ m.hash
  other : (net.node b).db.get repoID file = some m ∧ m.isDeleted = false
  quiet : net.flight = []

/-- The events after the choice: the watcher reports the removal of the file, the
messages are delivered, and the content of the peer is downloaded. -/
def choiceMove (m : FileMetadata) (net : Net) : Move → Bool
  | .change p _ payload => p = a ∧ payload.action = .delete ∧ payload.hash = "" ∧
      relativePath (net.node a) repoID payload.path = file
  | .respond p _ _ _ payload => clean payload.path = file → p = a ∧ payload.hash = m.hash
  | .resolve .. => false
  | _ => true

def outranked (m : FileMetadata) (time : Int) : Bool :=
  2 ≤ m.version ∨
    ((time < Binary64.toInt64 m.localLastModified ∨
        (time = Binary64.toInt64 m.localLastModified ∧ a < b)) ∧
      (Binary64.toInt64 time < m.localLastModified ∨
        (Binary64.toInt64 time = m.localLastModified ∧ a < b)))

/-- The removal is reported while there is no row, its time does not win, and the
download does not fail for good. -/
def timelyMove (m : FileMetadata) (net : Net) : Move → Bool
  | .change _ _ payload => (net.node a).db.get repoID file = none ∧
      outranked a b m payload.modifiedTime
  | .respond p _ env _ payload => clean payload.path = file →
      ((net.node p).pendingDownloads.lookup (pendingKey file payload.hash)).all
        (fun details => !finalFailure env payload details)
  | _ => true

def Announces (m : FileMetadata) (u : Update) : Prop :=
  u.path = file ∧ u.hash = m.hash ∧ u.decodedVersion = Binary64.wrapUint64 m.version ∧
    u.decodedTime = Binary64.toInt64 m.localLastModified ∧ u.isDeleted = false

def Yields (m : FileMetadata) (u : Update) : Prop :=
  u.path = file ∧ u.hash = "" ∧
    ¬ (⟨m.hash, Binary64.wrapUint64 m.version, m.localLastModified, b⟩ : FileVersion).rank <
      (remoteVersion a u).rank

structure Choosing (m : FileMetadata) (net : Net) : Prop where
  named : (net.node a).localPeerID = a ∧ (net.node b).localPeerID = b
  known : repoID ∈ (net.node a).db.repositories ∧ repoID ∈ (net.node b).db.repositories
  kept : (net.node b).db.get repoID file = some m
  /-- The row of the chooser: none, its own deletion, or the peer's content. -/
  row : ∀ r, (net.node a).db.get repoID file = some r →
    r.hash = m.hash ∧ r.isDeleted = false ∨
      r.hash = "" ∧ r.version = 1 ∧ outranked a b m r.localLastModified = true
  flights : ∀ k ∈ net.flight, k.repoID = repoID ∧
    (k.src = a ∧ k.dst = b ∧ Yields file a b m k.update ∨
      k.src = b ∧ k.dst = a ∧ Announces file m k.update)
  /-- The peer's content is taken over, or something on the way leads to it. -/
  ahead : liveHash (net.node a) repoID file = some m.hash ∨
    ∃ k ∈ net.flight, k.src = b ∨ k.src = a ∧ k.update.decodedVersion = 0

variable {repoID file a b} {m : FileMetadata} {net after : Net}

theorem Choosing.step (choosing : Choosing repoID file a b m net)
    (frame : ∀ p, SameFrame (after.node p) (net.node p))
    (kept : (after.node b).db.get repoID file = some m)
    (row : ∀ r, (after.node a).db.get repoID file = some r →
      r.hash = m.hash ∧ r.isDeleted = false ∨
        r.hash = "" ∧ r.version = 1 ∧ outranked a b m r.localLastModified = true)
    (flights : ∀ k ∈ after.flight, k.repoID = repoID ∧
      (k.src = a ∧ k.dst = b ∧ Yields file a b m k.update ∨
        k.src = b ∧ k.dst = a ∧ Announces file m k.update))
    (ahead : liveHash (after.node a) repoID file = some m.hash ∨
      ∃ k ∈ after.flight, k.src = b ∨ k.src = a ∧ k.update.decodedVersion = 0) :
    Choosing repoID file a b m after := by
  refine ⟨?_, ?_, kept, row, flights, ahead⟩
  · rw [(frame a).1, (frame b).1]
    exact choosing.named
  · rw [(frame a).2.2.2, (frame b).2.2.2]
    exact choosing.known

theorem Choosing.kept_rank (choosing : Choosing repoID file a b m net) :
    ownVersion (net.node b) ((net.node b).db.get repoID file) =
      ⟨m.hash, Binary64.wrapUint64 m.version, m.localLastModified, b⟩ := by
  rw [choosing.kept, ownVersion, choosing.named.2]

theorem yields_kept (choosing : Choosing repoID file a b m net) (content : m.hash ≠ "") {u : Update}
    (yields : Yields file a b m u) : (decision (net.node b) a repoID u).action = .keepLocal := by
  obtain ⟨path, hash, below⟩ := yields
  rw [decision, path, choosing.kept_rank]
  refine (resolve_keep_iff _ _).mpr ⟨?_, below⟩
  rw [show (remoteVersion a u).hash = "" from hash]
  exact content

section

variable (choosing : Choosing repoID file a b m net) (stored : WireExact m.version)
  (positive : 0 < m.version)

include choosing stored positive

theorem announced_taken (content : m.hash ≠ "") {u : Update} (announces : Announces file m u) :
    (decision (net.node a) b repoID u).action = .acceptRemote ∨
      (decision (net.node a) b repoID u).action = .skip ∧
        liveHash (net.node a) repoID file = some m.hash := by
  obtain ⟨path, hash, version, time, -⟩ := announces
  have wrap := stored.wrap
  have remote : (remoteVersion b u) = ⟨m.hash, Binary64.wrapUint64 m.version,
      Binary64.toInt64 m.localLastModified, b⟩ := by
    rw [remoteVersion, hash, version, time]
  rw [decision, path, remote]
  cases row : (net.node a).db.get repoID file with
  | none =>
    refine Or.inl ((resolve_accept_iff _ _).mpr ⟨fun same => content same.symm, ?_⟩)
    rw [rank_lt_iff]
    left
    have zero : (ownVersion (net.node a) none).lamportVersion = 0 := rfl
    simp only [zero]
    omega
  | some r =>
    rcases choosing.row r row with ⟨same, alive⟩ | ⟨blank, one, low⟩
    · refine Or.inr ⟨(resolve_skip_iff _ _).mpr same, ?_⟩
      simp [liveHash, row, alive, same]
    · refine Or.inl ((resolve_accept_iff _ _).mpr ⟨?_, ?_⟩)
      · rw [show (ownVersion (net.node a) (some r)).hash = "" from blank]
        exact fun same => content same.symm
      · have first : Binary64.wrapUint64 r.version = 1 := by rw [one]; decide
        simp only [rank_lt_iff, ownVersion, first, choosing.named.1]
        rcases of_decide_eq_true low with higher | ⟨earlier, -⟩
        · left
          omega
        · by_cases tie : m.version = 1
          · right
            exact ⟨by omega, earlier⟩
          · left
            omega

omit choosing in
theorem deletion_yields {p : String} {payload : FileChangedPayload}
    (none : (net.node p).db.get repoID file = none)
    (path : relativePath (net.node p) repoID payload.path = file) (blank : payload.hash = "")
    (low : outranked p b m payload.modifiedTime = true) :
    Yields file p b m (recordedUpdate (net.node p) repoID payload) := by
  refine ⟨path, blank, ?_⟩
  have wrap := stored.wrap
  have version : (recordedUpdate (net.node p) repoID payload).decodedVersion = 1 := by
    simp only [recordedUpdate, metadataUpdate, Update.decodedVersion, path, none, nextVersion]
    decide
  have time : (recordedUpdate (net.node p) repoID payload).decodedTime =
    Binary64.toInt64 payload.modifiedTime := rfl
  simp only [rank_lt_iff, remoteVersion, version]
  rw [time]
  rintro (less | ⟨tie, later | ⟨same, order⟩⟩)
  · omega
  · rcases of_decide_eq_true low with higher | ⟨-, below | ⟨eq, -⟩⟩ <;> omega
  · rcases of_decide_eq_true low with higher | ⟨-, below | ⟨-, names⟩⟩
    · omega
    · omega
    · exact absurd order (lt_asymm names)

theorem choosing_change (apart : a ≠ b) {p : String} {now : Int} {payload : FileChangedPayload}
    (listed : choiceMove repoID file a m net (.change p now payload) = true)
    (timely : timelyMove repoID file a b m net (.change p now payload) = true) :
    Choosing repoID file a b m (change repoID [a, b] net p now payload) := by
  obtain ⟨rfl, deleted, blank, path⟩ := of_decide_eq_true listed
  obtain ⟨none, low⟩ := of_decide_eq_true timely
  by_cases recorded : Recorded (net.node p) repoID payload
  · have rows := change_row [p, b] now recorded choosing.known.1
    have frame := change_frame repoID [p, b] net p payload now
    have flight := change_flight [p, b] now recorded choosing.known.1
    rw [path] at rows
    refine choosing.step frame ?_ ?_ ?_ ?_
    · rw [rows, if_neg (fun h => apart h.1.symm)]
      exact choosing.kept
    · intro r row
      rw [rows, if_pos ⟨rfl, rfl⟩] at row
      cases row
      right
      refine ⟨blank, ?_, low⟩
      simp only [recordedMeta, localMeta, path, none, nextVersion]
    · intro k member
      rw [flight] at member
      rcases List.mem_append.mp member with old | new
      · exact choosing.flights k old
      · obtain ⟨-, q, there, away, rfl⟩ := mem_announcements.mp new
        have target : q = b := by simpa [away] using there
        subst target
        exact ⟨rfl, Or.inl ⟨rfl, rfl, deletion_yields stored positive none path blank low⟩⟩
    · right
      rcases choosing.ahead with live | ⟨k, member, leads⟩
      · simp [liveHash, none] at live
      · exact ⟨k, flight ▸ List.mem_append_left _ member, leads⟩
  · rw [change_dropped now recorded]
    exact choosing

theorem zero_silent {u : Update} (path : u.path = file) (zero : u.decodedVersion = 0) :
    (decision (net.node b) a repoID u).isConflict = false := by
  refine Bool.eq_false_iff.mpr (fun conflict => ?_)
  have same := ((resolve_conflict_iff _ _).mp conflict).2
  have remote : (remoteVersion a u).lamportVersion = u.decodedVersion := rfl
  have wrap := stored.wrap
  rw [path, choosing.kept_rank] at same
  simp only at same
  omega

section

variable (content : m.hash ≠ "") (alive : m.isDeleted = false) (apart : a ≠ b)
  (heard : ignoredPath file = false) (rt : Runtime) {i : Nat} {k : Packet}
  (at_ : net.flight[i]? = some k) (now : Int) (missing : Bool) (repo : k.repoID = repoID)

include content alive apart heard at_ repo

theorem choosing_deliver_own (src : k.src = a) (dst : k.dst = b)
    (yields : Yields file a b m k.update) :
    Choosing repoID file a b m (deliver rt [a, b] net (net.flight.eraseIdx i) k now missing) := by
  have path := yields.1
  have open_ : ignoredPath k.update.path = false := by rw [path]; exact heard
  have keep : (decision (net.node k.dst) k.src k.repoID k.update).action = .keepLocal := by
    rw [dst, src, repo]
    exact yields_kept choosing content yields
  have frame := deliver_frame rt [a, b] net (net.flight.eraseIdx i) k now missing
  have rows := deliver_row_declined rt [a, b] (net.flight.eraseIdx i) now missing
    (fun accept => by rw [keep] at accept; cases accept)
  have row : (net.node k.dst).db.get k.repoID k.update.path = some m := by
    rw [dst, repo, path]
    exact choosing.kept
  refine choosing.step frame ?_ ?_ ?_ ?_
  · rw [rows]
    exact choosing.kept
  · rw [rows]
    exact choosing.row
  · intro x member
    rcases deliver_flight open_ member with old | ⟨-, -, r, found, -, -, rfl⟩
    · exact choosing.flights x ((mem_eraseIdx_or at_).mpr (Or.inr old))
    · cases Option.some.inj (row.symm.trans found)
      refine ⟨repo, Or.inr ⟨dst, src, path, rfl, ?_, rfl, alive⟩⟩
      have back := stored.exact
      have wrap := stored.wrap
      simp only [metadataUpdate, Update.decodedVersion]
      omega
  · rcases choosing.ahead with live | ⟨x, member, leads⟩
    · left
      rw [liveHash, rows]
      exact live
    · right
      rcases (mem_eraseIdx_or at_).mp member with rfl | rest
      · have zero : x.update.decodedVersion = 0 := by
          rcases leads with peer | ⟨-, zero⟩
          · exact absurd (src.symm.trans peer) apart
          · exact zero
        have silent : (decision (net.node x.dst) x.src x.repoID x.update).isConflict = false := by
          rw [dst, src, repo]
          exact zero_silent choosing stored positive path zero
        have inside : x.src ∈ [a, b] := by simp [src]
        obtain ⟨reply, sent, from_, -⟩ := deliver_reply rt (net.flight.eraseIdx i) now missing open_
          keep silent row inside (by rw [src, dst]; exact apart)
        exact ⟨reply, sent, Or.inl (from_.trans dst)⟩
      · exact ⟨x, List.mem_append_left _ rest, leads⟩

omit alive in
theorem choosing_deliver_other (src : k.src = b) (dst : k.dst = a)
    (announces : Announces file m k.update) :
    Choosing repoID file a b m (deliver rt [a, b] net (net.flight.eraseIdx i) k now missing) := by
  obtain ⟨path, hash, -, -, alive⟩ := id announces
  have open_ : ignoredPath k.update.path = false := by rw [path]; exact heard
  have taken := announced_taken choosing stored positive content announces
  have frame := deliver_frame rt [a, b] net (net.flight.eraseIdx i) k now missing
  have rows := deliver_row rt [a, b] (net.flight.eraseIdx i) now missing open_
    (by rw [dst, repo]; exact choosing.known.1)
  rw [dst, src, repo, path] at rows
  have has : ∀ r, ((deliver rt [a, b] net (net.flight.eraseIdx i) k now missing).node a).db.get
      repoID file = some r → r.hash = m.hash ∧ r.isDeleted = false ∨
        (decision (net.node a) b repoID k.update).action = .skip ∧
          (net.node a).db.get repoID file = some r := by
    intro r row
    rw [rows] at row
    split at row
    · cases row
      exact Or.inl ⟨hash, alive⟩
    · rename_i stays
      rcases taken with accept | ⟨skip, -⟩
      · exact absurd ⟨accept, rfl, rfl⟩ stays
      · exact Or.inr ⟨skip, row⟩
  refine choosing.step frame ?_ ?_ ?_ ?_
  · rw [rows, if_neg (fun h => apart h.2.1.symm)]
    exact choosing.kept
  · intro r row
    rcases has r row with live | ⟨-, old⟩
    · exact Or.inl live
    · exact choosing.row r old
  · intro x member
    rcases deliver_flight open_ member with old | ⟨keep, -⟩
    · exact choosing.flights x ((mem_eraseIdx_or at_).mpr (Or.inr old))
    · rw [dst, src, repo] at keep
      rcases taken with accept | ⟨skip, -⟩
      · rw [accept] at keep
        cases keep
      · rw [skip] at keep
        cases keep
  · left
    rcases taken with accept | ⟨skip, live⟩
    · rw [liveHash, rows, if_pos ⟨accept, rfl, rfl⟩]
      simp [acceptedMeta, hash, alive]
    · have declined :
          (decision (net.node k.dst) k.src k.repoID k.update).action ≠ .acceptRemote := by
        rw [dst, src, repo, skip]
        nofun
      rw [liveHash, deliver_row_declined rt [a, b] _ now missing declined]
      exact live

end

end

theorem choosing_setNode (choosing : Choosing repoID file a b m net) (apart : a ≠ b) {p : String}
    {sc : SyncCoordinator} (frame : SameFrame sc (net.node p))
    (row : sc.db.get repoID file = (net.node p).db.get repoID file ∨
      p = a ∧ ∃ r, sc.db.get repoID file = some r ∧ r.hash = m.hash ∧ r.isDeleted = false) :
    Choosing repoID file a b m (setNode net p sc) := by
  have frames : ∀ q, SameFrame ((setNode net p sc).node q) (net.node q) :=
    setNode_forall (P := fun q sc => SameFrame sc (net.node q)) frame
      (fun _ _ => ⟨rfl, rfl, rfl, rfl⟩)
  have rows : ∀ q, ((setNode net p sc).node q).db.get repoID file = (net.node q).db.get repoID file ∨
      q = a ∧ ∃ r, ((setNode net p sc).node q).db.get repoID file = some r ∧ r.hash = m.hash ∧
        r.isDeleted = false :=
    setNode_forall (P := fun q sc => sc.db.get repoID file = (net.node q).db.get repoID file ∨
      q = a ∧ ∃ r, sc.db.get repoID file = some r ∧ r.hash = m.hash ∧ r.isDeleted = false)
      row (fun _ _ => Or.inl rfl)
  refine choosing.step frames ?_ ?_ choosing.flights ?_
  · rcases rows b with same | ⟨own, -⟩
    · rw [same]
      exact choosing.kept
    · exact absurd own.symm apart
  · intro r found
    rcases rows a with same | ⟨-, r', written, hash, alive⟩
    · exact choosing.row r (same ▸ found)
    · cases Option.some.inj (found.symm.trans written)
      exact Or.inl ⟨hash, alive⟩
  · rcases rows a with same | ⟨-, r', written, hash, alive⟩
    · rw [liveHash, same]
      exact choosing.ahead
    · left
      simp [liveHash, written, hash, alive]

theorem choosing_respond (choosing : Choosing repoID file a b m net) (apart : a ≠ b) (rt : Runtime)
    {p : String} {now : Int} {env : Env} {peerID : String} {payload : FileResponsePayload}
    (listed : choiceMove repoID file a m net (.respond p now env peerID payload) = true)
    (timely : timelyMove repoID file a b m net (.respond p now env peerID payload) = true) :
    Choosing repoID file a b m
      (setNode net p (handleFileResponse rt (net.node p) now env peerID payload).sc) := by
  refine choosing_setNode choosing apart (response_frame rt (net.node p) now env peerID payload) ?_
  rcases response_row rt (net.node p) now env peerID payload repoID file with
    same | ⟨details, consumed, place, ⟨data, digest, written⟩ | ⟨final, -⟩⟩
  · exact Or.inl same
  · have path := (Prod.mk.inj place).2.symm
    obtain ⟨own, hash⟩ := (of_decide_eq_true listed) path
    exact Or.inr ⟨own, _, written, digest.trans hash, rfl⟩
  · have path := (Prod.mk.inj place).2.symm
    have lasting := (of_decide_eq_true timely) path
    have found := consumed.2.2.2
    rw [path] at found
    rw [found, Option.all_some, final] at lasting
    cases lasting

section Run

variable (stored : WireExact m.version) (positive : 0 < m.version) (content : m.hash ≠ "")
  (alive : m.isDeleted = false) (apart : a ≠ b) (heard : ignoredPath file = false) (rt : Runtime)

include stored positive content alive apart heard

theorem choosing_next (choosing : Choosing repoID file a b m net) {move : Move}
    (moved : net.next rt repoID [a, b] move = some after)
    (listed : choiceMove repoID file a m net move = true)
    (timely : timelyMove repoID file a b m net move = true) : Choosing repoID file a b m after := by
  cases move with
  | change p now payload =>
    obtain ⟨-, -, rfl⟩ := next_change moved
    exact choosing_change choosing stored positive apart listed timely
  | deliver i now missing =>
    obtain ⟨k, at_, rfl⟩ := next_deliver moved
    obtain ⟨repo, ⟨src, dst, yields⟩ | ⟨src, dst, announces⟩⟩ :=
      choosing.flights k (List.mem_of_getElem? at_)
    · exact choosing_deliver_own choosing stored positive content alive apart heard rt at_ now
        missing repo src dst yields
    · exact choosing_deliver_other choosing stored positive content apart heard rt at_ now missing
        repo src dst announces
  | fetch p sent =>
    cases moved
    exact choosing_setNode choosing apart (fetch_frame _ _) (Or.inl (by rw [fetch_db]))
  | respond p now env peerID payload =>
    cases moved
    exact choosing_respond choosing apart rt listed timely
  | retry p now task =>
    cases moved
    exact choosing_setNode choosing apart ⟨rfl, rfl, rfl, rfl⟩ (Or.inl rfl)
  | resolve => cases listed

omit content alive heard in
theorem choosing_start (start : Conflicted repoID file a b m net)
    (chosen : net.next rt repoID [a, b] (.resolve a file "remote" b) = some after) :
    Choosing repoID file a b m after := by
  obtain ⟨-, rfl⟩ := next_resolve chosen
  have frame := resolveAt_frame repoID [a, b] net a file "remote" b
  have rows := resolveAt_row repoID [a, b] net a file "remote" b
  refine ⟨?_, ?_, ?_, ?_, ?_, ?_⟩
  · rw [(frame a).1, (frame b).1]
    exact start.named
  · rw [(frame a).2.2.2, (frame b).2.2.2]
    exact start.known
  · rw [rows, if_neg (fun h => apart h.1.symm)]
    exact start.other.1
  · intro r row
    rw [rows, if_pos ⟨rfl, rfl, rfl⟩] at row
    cases row
  · intro k member
    rcases resolveAt_flight member with old | ⟨src, there, away, repo, path, content⟩
    · rw [start.quiet] at old
      cases old
    · have dst : k.dst = b := by simpa [away] using there
      have update := (content.resolve_left (fun own => absurd own.1 (by decide))).2
      have zero : k.update.decodedVersion = 0 := by
        rw [update]
        exact (by decide : Binary64.toUint64 ((0 : Nat) : Int) = 0)
      refine ⟨repo, Or.inl ⟨src, dst, path, by rw [update]; rfl, ?_⟩⟩
      have wrap := stored.wrap
      simp only [rank_lt_iff, remoteVersion, zero]
      omega
  · right
    obtain ⟨x, sent, src, -, -, update⟩ := resolveAt_blank repoID net file
      (by simp : b ∈ [a, b]) (Ne.symm apart)
    refine ⟨x, sent, Or.inr ⟨src, ?_⟩⟩
    rw [update]
    exact (by decide : Binary64.toUint64 ((0 : Nat) : Int) = 0)

/-- Both sides end with the content of the peer, in every run in which the removal
is reported in time and ranks below the row of the peer. -/
theorem remote_choice_keeps (start : Conflicted repoID file a b m net) {late : Net}
    (chosen : net.next rt repoID [a, b] (.resolve a file "remote" b) = some after)
    (reached : Reach (after = ·)
      (Guarded (Runs (Net.next rt repoID [a, b])) (fun net move =>
        choiceMove repoID file a m net move = true ∧
          timelyMove repoID file a b m net move = true)) late) (quiet : late.flight = []) :
    liveHash (late.node b) repoID file = some m.hash ∧
      liveHash (late.node a) repoID file = some m.hash := by
  have choosing : Choosing repoID file a b m late := by
    refine reach_invariant (Choosing repoID file a b m) ?_ ?_ reached
    · rintro s rfl
      exact choosing_start stored positive apart rt start chosen
    · rintro s move t before ⟨moved, listed, timely⟩
      exact choosing_next stored positive content alive apart heard rt before moved listed timely
  constructor
  · simp [liveHash, choosing.kept, alive]
  · rcases choosing.ahead with live | ⟨k, member, -⟩
    · exact live
    · rw [quiet] at member
      cases member

end Run

end Choice

def addedApart : Net :=
  change "r" [] (change "r" [] (Net.tracking "r" "/r") "a" 0 ⟨.add, "f", "ha", 1, 5, 420⟩) "b" 0
    ⟨.add, "f", "hb", 1, 5, 420⟩

def addedRow : FileMetadata :=
  recordedMeta ((Net.tracking "r" "/r").node "b") "r" ⟨.add, "f", "hb", 1, 5, 420⟩

theorem addedApart_conflicted : Conflicted "r" "f" "a" "b" addedRow addedApart where
  named := by decide
  known := by decide
  own := ⟨recordedMeta ((Net.tracking "r" "/r").node "a") "r" ⟨.add, "f", "ha", 1, 5, 420⟩,
    rfl, by decide⟩
  other := ⟨rfl, by decide⟩
  quiet := rfl

def promptRun : List Move :=
  [.change "a" 0 ⟨.delete, "f", "", 0, 3, 0⟩, .deliver 0 0 false, .deliver 0 0 false,
    .deliver 0 0 false]

theorem remote_choice_keeps_promptRun : ∃ late : Net, late.flight = [] ∧
    liveHash (late.node "b") "r" "f" = some "hb" ∧
      liveHash (late.node "a") "r" "f" = some "hb" := by
  obtain ⟨late, reached, quiet⟩ := reach_of_replay (Net.next .plain "r" ["a", "b"])
    (fun net move => choiceMove "r" "f" "a" addedRow net move = true ∧
      timelyMove "r" "f" "a" "b" addedRow net move = true)
    (.start (rfl : resolveAt "r" ["a", "b"] addedApart "a" "f" "remote" "b" = _)) promptRun
    (fun late => late.flight = []) (by decide +kernel)
  exact ⟨late, quiet, remote_choice_keeps ⟨by decide, by decide, by decide⟩ (by decide)
    (by decide) (by decide) (by decide) (by decide) .plain addedApart_conflicted rfl reached quiet⟩

def tardyRun : List Move :=
  [.deliver 0 0 false, .deliver 0 0 false, .change "a" 0 ⟨.delete, "f", "", 0, 3, 0⟩,
    .deliver 0 0 false]

theorem tardy_removal_deletes : Conflicted "r" "f" "a" "b" addedRow addedApart ∧
    ∃ late, Reach
      (resolveAt "r" ["a", "b"] addedApart "a" "f" "remote" "b" = ·)
      (Guarded (Runs (Net.next .plain "r" ["a", "b"]))
        (fun net move => choiceMove "r" "f" "a" addedRow net move = true)) late ∧
      late.flight = [] ∧ liveHash (late.node "b") "r" "f" = none ∧
        liveHash (late.node "a") "r" "f" = none := by
  refine ⟨addedApart_conflicted, ?_⟩
  exact reach_of_replay (Net.next .plain "r" ["a", "b"])
    (fun net move => choiceMove "r" "f" "a" addedRow net move = true) (.start rfl) tardyRun _
    (by decide +kernel)

end P2PSync
