import P2PSync.Library.Causality
import P2PSync.Network
import P2PSync.Scan

/-! Vector clocks over a run of peers. Every update that is sent stays in the
world with the event that sent it: it can be delivered late, twice or never. -/
namespace P2PSync

open Transition

structure Letter where
  src : String
  dst : String
  repoID : String
  update : Update
  /-- History: the position of the sending event. -/
  sentAt : Nat

structure Occurrence where
  peer : String
  received : Option Nat
  ticked : Bool
  stamped : Bool
  after : VectorClock

def Occurrence.event (o : Occurrence) : Causality.Event String :=
  ⟨o.peer, o.received, o.ticked, o.after.get⟩

structure World where
  node : String → SyncCoordinator
  posted : List Letter
  log : List Occurrence

def World.events (w : World) : List (Causality.Event String) := w.log.map Occurrence.event

def letters (peers : List String) (p : String) (n : Nat) (out : List Output) : List Letter :=
  out.flatMap fun
    | .broadcast (.fileMetadataUpdate r u) => (peers.filter (· ≠ p)).map (⟨p, ·, r, u, n⟩)
    | .sendToPeer q (.fileMetadataUpdate r u) => [⟨p, q, r, u, n⟩]
    | _ => []

/-- What can happen at a peer, `record` being one finding of a scan. -/
inductive Happening where
  | change (p : String) (now : Int) (repoID : String) (payload : FileChangedPayload)
  | record (p : String) (now : Int) (m : FileMetadata) (announce : Bool)
  | deliver (i : Nat) (now : Int) (missing : Bool)
  | announce (p peerID : String)
  | resolve (p repoID path resolution peerID : String)
  | fetch (p : String) (sent : Bool)
  | respond (p : String) (now : Int) (env : Env) (peerID : String) (payload : FileResponsePayload)
  | retry (p : String) (now : Int) (task : SyncTask)

section World

variable (rt : Runtime) (peers : List String)

def World.logged (w : World) (p : String) (received : Option Nat) (ticked stamped : Bool)
    (sc : SyncCoordinator) (out : List Output) : World :=
  ⟨setAt w.node p sc, w.posted ++ letters peers p w.log.length out,
    w.log ++ [⟨p, received, ticked, stamped, sc.vectorClock⟩]⟩

def World.next (w : World) : Happening → Option World
  | .change p now repoID payload =>
    let result := handleLocalFileChanged (w.node p) now repoID payload
    let recorded := decide (Recorded (w.node p) repoID payload)
    some (w.logged peers p none recorded recorded result.sc result.out)
  | .record p now m announce =>
    let result := recordScanned (w.node p) now m announce
    some (w.logged peers p none true false result.1 result.2)
  | .deliver i now missing =>
    w.posted[i]?.map fun k =>
      let result := handlePeerMetadataUpdate rt (w.node k.dst) now missing k.src k.repoID k.update
      -- an update for an ignored path is dropped, as if it were lost
      let received := if ignoredPath k.update.path then none else some k.sentAt
      w.logged peers k.dst received false false result.1 result.2
  | .announce p peerID =>
    some (w.logged peers p none false false (w.node p) (syncAllRepositoriesWithPeer (w.node p) peerID))
  | .resolve p repoID path resolution peerID =>
    let result := handleConflictResolution (w.node p) repoID path resolution peerID
    some (w.logged peers p none false false result.sc result.out)
  | .fetch p sent => some (w.logged peers p none false false (fetch (w.node p) sent) [])
  | .respond p now env peerID payload =>
    some (w.logged peers p none false false
      (handleFileResponse rt (w.node p) now env peerID payload).sc [])
  | .retry p now task =>
    some (w.logged peers p none false false (retryDownload rt (w.node p) now task) [])

structure World.Initial (w : World) : Prop where
  ids : ∀ p, (w.node p).localPeerID = p
  clocks : ∀ p, (w.node p).vectorClock = .new
  posted : w.posted = []
  log : w.log = []

def World.Reachable : World → Prop :=
  Reach World.Initial (Runs (World.next rt peers))

end World

def World.Small (w : World) : Prop :=
  ∀ o ∈ w.log, ∀ entry ∈ o.after.clocks.entries, entry.2 < 2 ^ 53

instance (w : World) : Decidable w.Small :=
  inferInstanceAs (Decidable (∀ o ∈ w.log, ∀ entry ∈ o.after.clocks.entries, entry.2 < 2 ^ 53))

/-! What the handlers do to the clock. -/

def Carries (vc : VectorClock) (out : List Output) : Prop :=
  ∀ r u, (.broadcast (.fileMetadataUpdate r u) ∈ out ∨
    ∃ q, .sendToPeer q (.fileMetadataUpdate r u) ∈ out) → u.vectorClock = some vc.clocks

theorem carries_nil (vc : VectorClock) : Carries vc [] := by
  rintro r u (sent | ⟨q, sent⟩) <;> cases sent

theorem Carries.sublist {vc : VectorClock} {out out' : List Output} (carries : Carries vc out)
    (fewer : out'.Sublist out) : Carries vc out' := by
  rintro r u (sent | ⟨q, sent⟩)
  · exact carries r u (.inl (fewer.subset sent))
  · exact carries r u (.inr ⟨q, fewer.subset sent⟩)

section

variable (rt : Runtime) (sc : SyncCoordinator) (now : Int) (missing : Bool) (peerID repoID : String)
  (u : Update)

theorem local_carries (payload : FileChangedPayload) :
    Carries (handleLocalFileChanged sc now repoID payload).sc.vectorClock
      (handleLocalFileChanged sc now repoID payload).out := by
  by_cases recorded : Recorded sc repoID payload
  · rw [local_clock, if_pos recorded]
    rintro r u (sent | ⟨q, sent⟩)
    · cases (local_out sent).2
      rfl
    · cases (local_out sent).2
  · rw [(local_dropped recorded now).2]
    exact carries_nil _

theorem recordScanned_clock (m : FileMetadata) (announce : Bool) :
    (recordScanned sc now m announce).1.vectorClock = sc.vectorClock.tick sc.localPeerID ∧
      (recordScanned sc now m announce).1.localPeerID = sc.localPeerID ∧
      Carries (sc.vectorClock.tick sc.localPeerID) (recordScanned sc now m announce).2 := by
  simp only [recordScanned]
  split
  · exact ⟨rfl, rfl, carries_nil _⟩
  · refine ⟨rfl, rfl, ?_⟩
    rintro r u (sent | ⟨q, sent⟩)
    · simp only at sent
      split at sent
      · cases List.mem_singleton.mp sent
        rfl
      · cases sent
    · simp only at sent
      split at sent
      · cases List.mem_singleton.mp sent
      · cases sent

theorem peer_clock (heard : ignoredPath u.path = false) :
    (handlePeerMetadataUpdate rt sc now missing peerID repoID u).1.vectorClock =
      (mergeRemoteClock sc u).vectorClock := by
  cases h : (decision sc peerID repoID u).action with
  | acceptRemote =>
    simp only [peer_accept rt now missing heard h, applyAccept]
    split
    · rfl
    · split <;> rfl
  | keepLocal => simp only [peer_keep rt now missing heard h]
  | skip =>
    simp only [peer_skip rt now missing heard h, applySkip]
    split <;> rfl

theorem peer_carries :
    Carries (handlePeerMetadataUpdate rt sc now missing peerID repoID u).1.vectorClock
      (handlePeerMetadataUpdate rt sc now missing peerID repoID u).2 := by
  cases heard : ignoredPath u.path with
  | true =>
    rw [peer_ignored rt now missing heard]
    exact carries_nil _
  | false =>
    rw [peer_clock rt sc now missing peerID repoID u heard]
    rintro r v (sent | ⟨q, sent⟩)
    · rcases peer_sends rt now missing sent with ⟨msg, eq⟩ | ⟨-, -, m, -, eq⟩ <;> cases eq
    · rcases peer_sends rt now missing sent with ⟨msg, eq⟩ | ⟨-, -, m, -, eq⟩
      · cases eq
      · cases eq
        rfl

theorem announce_carries : Carries sc.vectorClock (syncAllRepositoriesWithPeer sc peerID) := by
  have each : ∀ o ∈ syncAllRepositoriesWithPeer sc peerID, ∃ (repoID : String) (m : FileMetadata),
      o = sendMetadataUpdateToPeer sc peerID repoID m.filepath m.size
        (Binary64.wrapUint64 m.version) m.hash m.localLastModified m.isDeleted m.mode := by
    intro o sent
    obtain ⟨repo, -, sent⟩ := List.mem_flatMap.mp sent
    obtain ⟨m, -, rfl⟩ := List.mem_map.mp sent
    exact ⟨repo.id, m, rfl⟩
  rintro r u (sent | ⟨q, sent⟩)
  · obtain ⟨repoID, m, eq⟩ := each _ sent
    cases eq
  · obtain ⟨repoID, m, eq⟩ := each _ sent
    cases eq
    rfl

theorem resolution_carries (path resolution peerID : String) :
    Carries sc.vectorClock (handleConflictResolution sc repoID path resolution peerID).out := by
  rintro r u (sent | ⟨q, sent⟩)
  · rcases resolution_sends sent with ⟨file, eq⟩ | ⟨-, m, -, eq⟩ | ⟨-, eq⟩ <;> cases eq
  · rcases resolution_sends sent with ⟨file, eq⟩ | ⟨-, m, -, eq⟩ | ⟨-, eq⟩
    · cases eq
    · cases eq
      rfl
    · cases eq
      rfl

theorem fetch_clock (sent : Bool) : (fetch sc sent).vectorClock = sc.vectorClock := by
  obtain ⟨queue, round⟩ := queueRound_touches sc
  have kept : (queueRound sc).1.vectorClock = sc.vectorClock := by rw [round]
  unfold fetch
  split
  · rename_i sc' eq
    rwa [eq] at kept
  · rename_i sc' task eq
    rw [eq] at kept
    obtain ⟨queue', pending, executed⟩ := executeSyncTask_touches sc' sent task
    rwa [executed]

theorem response_clock (env : Env) (peerID : String) (payload : FileResponsePayload) :
    (handleFileResponse rt sc now env peerID payload).sc.vectorClock = sc.vectorClock := by
  obtain ⟨_, _, eq, _⟩ := response_touches rt sc now env peerID payload
  rw [eq]

end

theorem lookup_decodeClock {vc : VectorClock}
    (small : ∀ entry ∈ vc.clocks.entries, entry.2 < 2 ^ 53) (q : String) :
    ((decodeClock vc.clocks).lookup q).getD 0 = vc.get q := by
  have each : (decodeClock vc.clocks).lookup q =
      (vc.clocks.lookup q).map (fun n : Nat => Binary64.toUint64 (n : Int)) :=
    List.dlookup_map₂ (l := vc.clocks.entries)
      (f := fun (_ : String) (n : Nat) => Binary64.toUint64 (n : Int)) q
  rw [each, VectorClock.get]
  cases found : vc.clocks.lookup q with
  | none => rfl
  | some n =>
    have bound := small ⟨q, n⟩ (AList.mem_lookup_iff.mp found)
    rw [Option.map_some, Option.getD_some, Option.getD_some, Binary64.toUint64_small bound]

theorem get_mergeRemoteClock {sc : SyncCoordinator} {u : Update} {vc : VectorClock}
    (carried : u.vectorClock = some vc.clocks)
    (small : ∀ entry ∈ vc.clocks.entries, entry.2 < 2 ^ 53) :
    (mergeRemoteClock sc u).vectorClock.get = sc.vectorClock.get ⊔ vc.get := by
  funext q
  simp only [mergeRemoteClock, carried, Pi.sup_apply]
  rw [VectorClock.get_merge, lookup_decodeClock small]

theorem get_tick_eq {vc : VectorClock} {p : String} (room : vc.get p + 1 < 2 ^ 64) :
    (vc.tick p).get = Function.update vc.get p (vc.get p + 1) := by
  funext q
  rw [VectorClock.get_tick, Function.update_apply, Nat.mod_eq_of_lt room]

/-! Runs. -/

structure World.Clocked (w : World) : Prop where
  ids : ∀ p, (w.node p).localPeerID = p
  tracks : Causality.Tracks w.events (fun p => (w.node p).vectorClock.get)
  letters : ∀ k ∈ w.posted, ∃ o, w.log[k.sentAt]? = some o ∧
    k.update.vectorClock = some o.after.clocks

theorem VectorClock.get_lt {vc : VectorClock} {n : Nat} (positive : 0 < n)
    (small : ∀ entry ∈ vc.clocks.entries, entry.2 < n) (q : String) : vc.get q < n := by
  unfold VectorClock.get
  cases found : vc.clocks.lookup q with
  | none => exact positive
  | some count => exact small ⟨q, count⟩ (AList.mem_lookup_iff.mp found)

theorem World.Clocked.count_lt {w : World} (clocked : w.Clocked) (small : w.Small) (p q : String) :
    (w.node p).vectorClock.get q < 2 ^ 53 := by
  rcases clocked.tracks.last p with zero | ⟨e, logged, -, clock⟩
  · rw [zero q]
    decide
  · obtain ⟨o, member, rfl⟩ := List.mem_map.mp logged
    rw [← clock]
    exact VectorClock.get_lt (by decide) (small o member) q

theorem letters_carry {peers : List String} {p : String} {n : Nat} {out : List Output}
    {vc : VectorClock} (carries : Carries vc out) {k : Letter} (mem : k ∈ letters peers p n out) :
    k.sentAt = n ∧ k.update.vectorClock = some vc.clocks := by
  obtain ⟨o, sent, mem⟩ := List.mem_flatMap.mp mem
  split at mem
  · obtain ⟨q, -, rfl⟩ := List.mem_map.mp mem
    exact ⟨rfl, carries _ _ (Or.inl sent)⟩
  · cases List.mem_singleton.mp mem
    exact ⟨rfl, carries _ _ (Or.inr ⟨_, sent⟩)⟩
  · cases mem

section Logged

variable (w : World) (peers : List String) (p : String) (received : Option Nat)
  (ticked stamped : Bool) (sc : SyncCoordinator) (out : List Output)

theorem logged_events : (w.logged peers p received ticked stamped sc out).events =
    w.events ++ [⟨p, received, ticked, sc.vectorClock.get⟩] := by
  simp [World.logged, World.events, Occurrence.event]

theorem logged_self : (w.logged peers p received ticked stamped sc out).node p = sc :=
  setAt_self _ _ _

theorem logged_other {q : String} (other : q ≠ p) :
    (w.logged peers p received ticked stamped sc out).node q = w.node q :=
  setAt_other _ _ other

end Logged

section

variable {rt : Runtime} {peers : List String} {w w' : World} {a : Happening}

theorem World.Clocked.logged (clocked : w.Clocked) (peers : List String) {p : String}
    {received : Option Nat} {ticked stamped : Bool} {sc : SyncCoordinator} {out : List Output}
    (id : sc.localPeerID = p) (advances : Causality.Advances w.events (w.node p).vectorClock.get
      ⟨p, received, ticked, sc.vectorClock.get⟩) (carries : Carries sc.vectorClock out) :
    (w.logged peers p received ticked stamped sc out).Clocked where
  ids := by
    intro q
    by_cases here : q = p
    · subst here
      rw [logged_self, id]
    · rw [logged_other _ _ _ _ _ _ _ _ here, clocked.ids q]
  tracks := by
    have step := clocked.tracks.concat
      (e := ⟨p, received, ticked, sc.vectorClock.get⟩) advances
    have clocks : (fun q => ((w.logged peers p received ticked stamped sc out).node q).vectorClock.get) =
        Function.update (fun q => (w.node q).vectorClock.get) p sc.vectorClock.get := by
      funext q
      by_cases here : q = p
      · subst here
        rw [logged_self, Function.update_self]
      · rw [logged_other _ _ _ _ _ _ _ _ here, Function.update_of_ne here]
    rw [logged_events, clocks]
    exact step
  letters := by
    intro k mem
    rcases List.mem_append.mp mem with old | new
    · obtain ⟨o, at_, carried⟩ := clocked.letters k old
      exact ⟨o, by rw [← at_]; exact List.getElem?_append_left (List.getElem?_eq_some_iff.mp at_).1,
        carried⟩
    · obtain ⟨at_, carried⟩ := letters_carry carries new
      exact ⟨_, by rw [at_]; exact List.getElem?_concat_length, carried⟩

theorem World.Clocked.idle (clocked : w.Clocked) (peers : List String) {p : String}
    {sc : SyncCoordinator} {out : List Output} (id : sc.localPeerID = (w.node p).localPeerID)
    (clock : sc.vectorClock = (w.node p).vectorClock)
    (carries : Carries (w.node p).vectorClock out) :
    (w.logged peers p none false false sc out).Clocked := by
  apply clocked.logged peers (id.trans (clocked.ids p))
  · rw [clock]
    exact .idle p
  · rwa [clock]

theorem World.Clocked.tick (clocked : w.Clocked) (small : w.Small) (peers : List String)
    {p : String} {stamped : Bool} {sc : SyncCoordinator} {out : List Output}
    (id : sc.localPeerID = (w.node p).localPeerID)
    (clock : sc.vectorClock = (w.node p).vectorClock.tick (w.node p).localPeerID)
    (carries : Carries sc.vectorClock out) :
    (w.logged peers p none true stamped sc out).Clocked := by
  apply clocked.logged peers (id.trans (clocked.ids p)) ?_ carries
  have room := clocked.count_lt small p p
  rw [clock, clocked.ids p, get_tick_eq (by omega)]
  exact .tick p

theorem World.Clocked.next (clocked : w.Clocked) (small : w.Small)
    (step : w.next rt peers a = some w') : w'.Clocked := by
  cases a with
  | change p now repoID payload =>
    cases step
    have clock := local_clock (w.node p) now repoID payload
    have id := (local_frame (w.node p) now repoID payload).1
    have carries := local_carries (w.node p) now repoID payload
    by_cases recorded : Recorded (w.node p) repoID payload
    · rw [if_pos recorded] at clock
      simp only [recorded, decide_true]
      exact clocked.tick small peers id clock carries
    · rw [if_neg recorded] at clock
      simp only [recorded, decide_false]
      exact clocked.idle peers id clock (clock ▸ carries)
  | record p now m announce =>
    cases step
    obtain ⟨clock, id, carries⟩ := recordScanned_clock (w.node p) now m announce
    exact clocked.tick small peers id clock (clock ▸ carries)
  | deliver i now missing =>
    obtain ⟨k, at_, rfl⟩ := Option.map_eq_some_iff.mp step
    have id := (peer_frame rt (w.node k.dst) now missing k.src k.repoID k.update).1
    have carries := peer_carries rt (w.node k.dst) now missing k.src k.repoID k.update
    cases heard : ignoredPath k.update.path with
    | true =>
      simp only [peer_ignored rt now missing heard, if_true]
      exact clocked.idle peers rfl rfl (carries_nil _)
    | false =>
      simp only [Bool.false_eq_true, if_false]
      obtain ⟨o, sender, carried⟩ := clocked.letters k (List.mem_of_getElem? at_)
      apply clocked.logged peers (id.trans (clocked.ids k.dst)) ?_ carries
      rw [peer_clock rt _ now missing _ _ _ heard,
        get_mergeRemoteClock carried (small o (List.mem_of_getElem? sender))]
      apply Causality.Advances.merge k.dst k.sentAt o.event
      rw [World.events, List.getElem?_map, sender, Option.map_some]
  | announce p peerID =>
    cases step
    exact clocked.idle peers rfl rfl (announce_carries _ _)
  | resolve p repoID path resolution peerID =>
    cases step
    obtain ⟨db, same, -⟩ := resolution_touches (w.node p) repoID path resolution peerID
    exact clocked.idle peers (by rw [same]) (by rw [same]) (resolution_carries _ _ _ _ _)
  | fetch p sent =>
    cases step
    exact clocked.idle peers (fetch_frame _ _).1 (fetch_clock _ _) (carries_nil _)
  | respond p now env peerID payload =>
    cases step
    exact clocked.idle peers (response_frame rt _ now env peerID payload).1
      (response_clock rt _ now env peerID payload) (carries_nil _)
  | retry p now task =>
    cases step
    exact clocked.idle peers rfl rfl (carries_nil _)

theorem World.next_log (step : w.next rt peers a = some w') : ∃ o, w'.log = w.log ++ [o] ∧
      (o.stamped = true → o.ticked = true) := by
  cases a with
  | deliver i now missing =>
    obtain ⟨k, -, rfl⟩ := Option.map_eq_some_iff.mp step
    exact ⟨_, rfl, id⟩
  | record p now m announce =>
    cases step
    exact ⟨_, rfl, fun _ => rfl⟩
  | _ =>
    cases step
    exact ⟨_, rfl, id⟩

theorem World.Initial.clocked (initial : w.Initial) : w.Clocked where
  ids := initial.ids
  tracks := by
    have none : (fun p => (w.node p).vectorClock.get) = fun _ => 0 := by
      funext p q
      rw [initial.clocks p]
      rfl
    rw [World.events, initial.log, none]
    exact Causality.tracks_nil
  letters := by
    rw [initial.posted]
    simp

theorem World.Reachable.clocked (reached : World.Reachable rt peers w) (small : w.Small) :
    w.Clocked := by
  induction reached with
  | start initial => exact initial.clocked
  | @next w w' a _ step ih =>
    obtain ⟨o, log, -⟩ := World.next_log step
    have before : w.Small := fun o mem => small o (log ▸ List.mem_append_left _ mem)
    exact (ih before).next before step

theorem World.Reachable.stamped_ticked (reached : World.Reachable rt peers w) :
    ∀ o ∈ w.log, o.stamped = true → o.ticked = true := by
  induction reached with
  | start initial =>
    rw [initial.log]
    simp
  | @next w w' a _ step ih =>
    obtain ⟨o, log, stamped⟩ := World.next_log step
    rw [log]
    intro o' mem
    rcases List.mem_append.mp mem with old | new
    · exact ih o' old
    · cases List.mem_singleton.mp new
      exact stamped

end

/-- The stamps of two local changes compare as the changes happened. -/
theorem stamps_characterise_causality (rt : Runtime) (peers : List String) {w : World}
    (reached : World.Reachable rt peers w) (small : w.Small) {i j : Nat} {e f : Occurrence}
    (first : w.log[i]? = some e) (second : w.log[j]? = some f) (distinct : i ≠ j)
    (e_local : e.stamped = true) (f_local : f.stamped = true) :
    (e.after.compare f.after = .before ↔ Causality.HappensBefore w.events i j) ∧
      (e.after.compare f.after = .after ↔ Causality.HappensBefore w.events j i) ∧
      (e.after.compare f.after = .concurrent ↔
        ¬ Causality.HappensBefore w.events i j ∧ ¬ Causality.HappensBefore w.events j i) := by
  have clocked := reached.clocked small
  have events : w.events[i]? = some e.event ∧ w.events[j]? = some f.event := by
    simp [World.events, first, second]
  have counted := World.Reachable.stamped_ticked reached
  have e_ticked := counted e (List.mem_of_getElem? first) e_local
  have f_ticked := counted f (List.mem_of_getElem? second) f_local
  have forth : e.after.Below f.after ↔ Causality.HappensBefore w.events i j :=
    clocked.tracks.timed.clock_le_iff events.1 e_ticked events.2 distinct
  have back : f.after.Below e.after ↔ Causality.HappensBefore w.events j i :=
    clocked.tracks.timed.clock_le_iff events.2 f_ticked events.1 distinct.symm
  have oneWay : Causality.HappensBefore w.events i j → ¬ Causality.HappensBefore w.events j i := by
    intro ahead behind
    exact lt_asymm (Causality.happensBefore_lt ahead) (Causality.happensBefore_lt behind)
  obtain ⟨before, after, concurrent⟩ := VectorClock.compare_iff e.after f.after
  rw [before, after, concurrent, forth, back]
  exact ⟨⟨And.left, fun h => ⟨h, oneWay h⟩⟩, ⟨And.left, fun h => ⟨h, fun h' => oneWay h' h⟩⟩, Iff.rfl⟩

def overheard : List Happening :=
  [.change "a" 0 "r" ⟨.add, "f", "h", 1, 5, 420⟩, .deliver 0 0 true, .deliver 0 0 true,
    .change "b" 0 "r" ⟨.add, "g", "h'", 1, 6, 420⟩, .change "c" 0 "r" ⟨.add, "g", "k", 1, 7, 420⟩]

theorem stamps_characterise_causality_overheard : ∃ (w : World) (e f g : Occurrence),
    w.log[0]? = some e ∧ w.log[3]? = some f ∧ w.log[4]? = some g ∧
    e.after.compare f.after = .before ∧ e.after.compare g.after = .concurrent ∧
    (e.after.compare f.after = .before ↔ Causality.HappensBefore w.events 0 3) ∧
    (e.after.compare g.after = .concurrent ↔
      ¬ Causality.HappensBefore w.events 0 4 ∧ ¬ Causality.HappensBefore w.events 4 0) := by
  obtain ⟨w, reached, small, e_local, f_local, g_local, before, concurrent⟩ :=
    reach_of_replay (World.next .plain ["a", "b", "c"]) (fun _ _ => True)
      (.start (⟨fun _ => rfl, fun _ => rfl, rfl, rfl⟩ :
        World.Initial ⟨(Net.tracking "r" "/r").node, [], []⟩)) overheard
      (fun w => w.Small ∧ w.log[0]?.any (·.stamped) = true ∧ w.log[3]?.any (·.stamped) = true ∧
        w.log[4]?.any (·.stamped) = true ∧
        (w.log[0]?.bind fun e => w.log[3]?.map fun f => e.after.compare f.after) = some .before ∧
        (w.log[0]?.bind fun e => w.log[4]?.map fun f => e.after.compare f.after) =
          some .concurrent) (by decide +kernel)
  have run : World.Reachable .plain ["a", "b", "c"] w :=
    reach_mono (fun _ _ _ step => step.1) reached
  obtain ⟨e, first, e_local⟩ := (Option.any_eq_true _ _).mp e_local
  obtain ⟨f, second, f_local⟩ := (Option.any_eq_true _ _).mp f_local
  obtain ⟨g, third, g_local⟩ := (Option.any_eq_true _ _).mp g_local
  simp only [first, second, third, Option.bind_some, Option.map_some, Option.some.injEq]
    at before concurrent
  exact ⟨w, e, f, g, first, second, third, before, concurrent,
    (stamps_characterise_causality .plain _ run small first second (by decide) e_local f_local).1,
    (stamps_characterise_causality .plain _ run small first third (by decide) e_local g_local).2.2⟩

end P2PSync
