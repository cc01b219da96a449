import P2PSync.Network
import P2PSync.Scan

/-! Two peers with any rows meet again: each announces its live files to the
other, and the updates and the replies to them arrive in any order. Tombstones
are not announced, and the loser of a conflict is not answered. -/
namespace P2PSync

open Transition

def rejoin (a b : String) (node : String → SyncCoordinator) : Net :=
  ⟨node, packets [a, b] a ⟨a, 0⟩ [] (syncAllRepositoriesWithPeer (node a) b) ++
    packets [a, b] b ⟨b, 0⟩ [] (syncAllRepositoriesWithPeer (node b) a), .empty⟩

def rowLive (row : Option FileMetadata) : Option String :=
  row.bind (fun m => if m.isDeleted then none else some m.hash)

def storedVersion (id : String) : Option FileMetadata → FileVersion
  | none => ⟨"", 0, 0, id⟩
  | some m => ⟨m.hash, Binary64.wrapUint64 m.version, m.localLastModified, id⟩

def wireVersion (id : String) (m : FileMetadata) : FileVersion :=
  ⟨m.hash, Binary64.toUint64 (Binary64.wrapUint64 m.version : Int),
    Binary64.toInt64 m.localLastModified, id⟩

def verdict (x : String) (row : Option FileMetadata) (y : String) (m : FileMetadata) : Resolution :=
  resolve (storedVersion x row) (wireVersion y m)

structure Tells (m : FileMetadata) (u : Update) : Prop where
  hash : u.hash = m.hash
  version : u.version = (Binary64.wrapUint64 m.version : Int)
  time : u.modifiedTime = m.localLastModified
  deleted : u.isDeleted = m.isDeleted

theorem tells_metadataUpdate (sc : SyncCoordinator) (path : String) (m : FileMetadata) :
    Tells m (metadataUpdate sc path m.size (Binary64.wrapUint64 m.version) m.hash
      m.localLastModified m.isDeleted m.mode) :=
  ⟨rfl, rfl, rfl, rfl⟩

theorem decision_told {sc : SyncCoordinator} {x y repoID : String} {u : Update} {m : FileMetadata}
    (named : sc.localPeerID = x) (tells : Tells m u) :
    decision sc y repoID u = verdict x (sc.db.get repoID u.path) y m := by
  have own : ∀ row, ownVersion sc row = storedVersion x row := by
    rintro (_ | row) <;> simp [ownVersion, storedVersion, named]
  simp only [decision, verdict, own, remoteVersion, wireVersion, tells.hash, Update.decodedVersion,
    tells.version, Update.decodedTime, tells.time]

/-! One path of the repository, from the rows `r` that the peers start with. -/

section Exchange

variable (a b : String) (r : String → Option FileMetadata)

def Pair (x y : String) : Prop := x = a ∧ y = b ∨ x = b ∧ y = a

def Adopts (x y : String) : Prop :=
  ∃ m, r y = some m ∧ (verdict x (r x) y m).action = .acceptRemote

def Replies (x y : String) : Prop :=
  ∃ m, r y = some m ∧ (verdict x (r x) y m).action = .keepLocal ∧
    (verdict x (r x) y m).isConflict = false

def Speaks (x y : String) : Prop :=
  (rowLive (r x)).isSome ∨ (rowLive (r y)).isSome ∧ Replies r x y

def Due (x y : String) : Prop := Adopts r x y ∧ Speaks r y x

def Copied (y : String) (row : Option FileMetadata) : Prop :=
  ∃ m m', r y = some m ∧ row = some m' ∧ m'.hash = m.hash ∧ m'.isDeleted = m.isDeleted

variable (repoID file : String)

def About (k : Packet) : Prop := k.repoID = repoID ∧ k.update.path = file

structure Exchange (net : Net) : Prop where
  named : ∀ x y, Pair a b x y → (net.node x).localPeerID = x
  known : ∀ x y, Pair a b x y → repoID ∈ (net.node x).db.repositories
  told : ∀ k ∈ net.flight, About repoID file k → Pair a b k.src k.dst ∧ Speaks r k.src k.dst ∧
    ∃ m, r k.src = some m ∧ Tells m k.update
  rows : ∀ x y, Pair a b x y → (net.node x).db.get repoID file = r x ∨
    Due r x y ∧ Copied r y ((net.node x).db.get repoID file)
  /-- What makes a peer take over the other's row is done, or on its way. -/
  due : ∀ x y, Pair a b x y → Due r x y → Copied r y ((net.node x).db.get repoID file) ∨
    (∃ k ∈ net.flight, About repoID file k ∧ k.dst = x) ∨
    Replies r y x ∧ ∃ k ∈ net.flight, About repoID file k ∧ k.dst = y

end Exchange

section Pair

variable {a b x y : String} {r : String → Option FileMetadata}

theorem Pair.symm (pair : Pair a b x y) : Pair a b y x := by
  rcases pair with ⟨rfl, rfl⟩ | ⟨rfl, rfl⟩
  · exact Or.inr ⟨rfl, rfl⟩
  · exact Or.inl ⟨rfl, rfl⟩

theorem Pair.ne (pair : Pair a b x y) (apart : a ≠ b) : x ≠ y := by
  rcases pair with ⟨rfl, rfl⟩ | ⟨rfl, rfl⟩
  · exact apart
  · exact apart.symm

theorem Pair.mem (pair : Pair a b x y) : x ∈ [a, b] := by
  rcases pair with ⟨rfl, rfl⟩ | ⟨rfl, rfl⟩ <;> simp

theorem Pair.unique (pair : Pair a b x y) (apart : a ≠ b) {z : String} (other : Pair a b x z) :
    z = y := by
  rcases pair with ⟨rfl, rfl⟩ | ⟨rfl, rfl⟩ <;> rcases other with ⟨h, rfl⟩ | ⟨h, rfl⟩
  · rfl
  · exact absurd h apart
  · exact absurd h.symm apart
  · rfl

theorem Pair.partner (pair : Pair a b x y) {z w : String} (other : Pair a b z w) (ne : x ≠ z) :
    y = z := by
  rcases pair with ⟨rfl, rfl⟩ | ⟨rfl, rfl⟩ <;> rcases other with ⟨rfl, rfl⟩ | ⟨rfl, rfl⟩
  · exact absurd rfl ne
  · rfl
  · rfl
  · exact absurd rfl ne

theorem Adopts.not_replies (adopts : Adopts r x y) : ¬ Replies r x y := by
  rintro ⟨m, row, keep, -⟩
  obtain ⟨m', row', accept⟩ := adopts
  cases Option.some.inj (row.symm.trans row')
  rw [accept] at keep
  cases keep

theorem Speaks.answer (speaks : Speaks r y x) (replies : Replies r x y) : Speaks r x y := by
  rcases speaks with live | ⟨live, -⟩
  · exact Or.inr ⟨live, replies⟩
  · exact Or.inl live

end Pair

theorem deliver_row_other (rt : Runtime) (peers : List String) (net : Net) (rest : List Packet)
    {k : Packet} (now : Int) (missing : Bool) {repoID file x : String}
    (other : ¬ (About repoID file k ∧ x = k.dst)) :
    ((deliver rt peers net rest k now missing).node x).db.get repoID file =
      (net.node x).db.get repoID file := by
  by_cases here : x = k.dst
  · subst here
    simp only [deliver, setAt_self, handlePeerMetadataUpdate_db]
    split
    · cases saved : (net.node k.dst).db.save now (acceptedMeta k.repoID k.update) with
      | none => rfl
      | some db =>
        apply DB.get_save_other saved
        intro same
        obtain ⟨repo, path⟩ := Prod.mk.inj same
        exact other ⟨⟨repo.symm, path.symm⟩, rfl⟩
    · rfl
  · simp only [deliver, setAt_other _ _ here]

section Deliver

variable {rt : Runtime} {a b repoID file : String} {r : String → Option FileMetadata} {net : Net}
  (exchange : Exchange a b r repoID file net)
include exchange

theorem exchange_elsewhere {i : Nat} {k : Packet} (at_ : net.flight[i]? = some k) (now : Int)
    (missing : Bool) (other : ¬ About repoID file k) :
    Exchange a b r repoID file (deliver rt [a, b] net (net.flight.eraseIdx i) k now missing) := by
  have kept : ∀ x ∈ net.flight, About repoID file x → x ∈ net.flight.eraseIdx i := by
    intro x mem about
    rcases (mem_eraseIdx_or at_).mp mem with rfl | left
    · exact absurd about other
    · exact left
  have stays : ∀ x ∈ net.flight.eraseIdx i,
      x ∈ (deliver rt [a, b] net (net.flight.eraseIdx i) k now missing).flight :=
    fun x mem => List.mem_append_left _ mem
  have rows : ∀ x, ((deliver rt [a, b] net (net.flight.eraseIdx i) k now missing).node x).db.get
      repoID file = (net.node x).db.get repoID file :=
    fun x => deliver_row_other rt [a, b] net _ now missing (fun h => other h.1)
  have frame := deliver_frame rt [a, b] net (net.flight.eraseIdx i) k now missing
  constructor
  · intro x y pair
    exact (frame x).1.trans (exchange.named x y pair)
  · intro x y pair
    rw [(frame x).2.2.2]
    exact exchange.known x y pair
  · intro x mem about
    cases ignored : ignoredPath k.update.path with
    | true =>
      rw [deliver_ignored now missing ignored] at mem
      exact exchange.told x (List.mem_of_mem_eraseIdx mem) about
    | false =>
      rcases deliver_flight ignored mem with left | ⟨-, -, m, -, -, -, rfl⟩
      · exact exchange.told x (List.mem_of_mem_eraseIdx left) about
      · exact absurd about other
  · intro x y pair
    rw [rows]
    exact exchange.rows x y pair
  · intro x y pair due
    rw [rows]
    rcases exchange.due x y pair due with done | ⟨k', mem, about, dst⟩ | ⟨replies, k', mem, about, dst⟩
    · exact Or.inl done
    · exact Or.inr (Or.inl ⟨k', stays k' (kept k' mem about), about, dst⟩)
    · exact Or.inr (Or.inr ⟨replies, k', stays k' (kept k' mem about), about, dst⟩)

theorem exchange_decision {k : Packet} (mem : k ∈ net.flight) (about : About repoID file k) :
    ∃ m, r k.src = some m ∧ Tells m k.update ∧
      ((net.node k.dst).db.get repoID file = r k.dst ∧
        decision (net.node k.dst) k.src k.repoID k.update = verdict k.dst (r k.dst) k.src m ∨
      Due r k.dst k.src ∧ Copied r k.src ((net.node k.dst).db.get repoID file) ∧
        (decision (net.node k.dst) k.src k.repoID k.update).action = .skip) := by
  obtain ⟨pair, -, m, row, tells⟩ := exchange.told k mem about
  refine ⟨m, row, tells, ?_⟩
  rw [decision_told (exchange.named k.dst k.src pair.symm) tells, about.1, about.2]
  rcases exchange.rows k.dst k.src pair.symm with same | ⟨due, copied⟩
  · exact Or.inl ⟨same, by rw [same]⟩
  · refine Or.inr ⟨due, copied, ?_⟩
    obtain ⟨m', copy, row', stored, hash, -⟩ := copied
    cases Option.some.inj (row.symm.trans row')
    rw [stored]
    exact (resolve_same_hash hash).1

section Decided

variable {k : Packet} (mem : k ∈ net.flight) (about : About repoID file k)
include mem about

theorem adopts_of_accept
    (accept : (decision (net.node k.dst) k.src k.repoID k.update).action = .acceptRemote) :
    Adopts r k.dst k.src := by
  obtain ⟨m, row, -, ⟨-, eq⟩ | ⟨-, -, skip⟩⟩ := exchange_decision exchange mem about
  · exact ⟨m, row, eq ▸ accept⟩
  · rw [skip] at accept
    cases accept

theorem accept_of_adopts (adopts : Adopts r k.dst k.src) :
    (decision (net.node k.dst) k.src k.repoID k.update).action = .acceptRemote ∨
      Copied r k.src ((net.node k.dst).db.get repoID file) := by
  obtain ⟨m, row, accept⟩ := adopts
  obtain ⟨m', row', -, ⟨-, eq⟩ | ⟨-, copied, -⟩⟩ := exchange_decision exchange mem about
  · cases Option.some.inj (row.symm.trans row')
    exact Or.inl (eq ▸ accept)
  · exact Or.inr copied

theorem replies_of_keep
    (keep : (decision (net.node k.dst) k.src k.repoID k.update).action = .keepLocal)
    (silent : (decision (net.node k.dst) k.src k.repoID k.update).isConflict = false) :
    Replies r k.dst k.src ∧ (net.node k.dst).db.get repoID file = r k.dst := by
  obtain ⟨m, row, -, ⟨same, eq⟩ | ⟨-, -, skip⟩⟩ := exchange_decision exchange mem about
  · rw [eq] at keep silent
    exact ⟨⟨m, row, keep, silent⟩, same⟩
  · rw [skip] at keep
    cases keep

theorem keep_of_replies (replies : Replies r k.dst k.src) :
    (decision (net.node k.dst) k.src k.repoID k.update).action = .keepLocal ∧
      (decision (net.node k.dst) k.src k.repoID k.update).isConflict = false := by
  obtain ⟨m, row, -, ⟨-, eq⟩ | ⟨due, -, -⟩⟩ := exchange_decision exchange mem about
  · obtain ⟨m', row', keep, silent⟩ := replies
    cases Option.some.inj (row.symm.trans row')
    rw [eq]
    exact ⟨keep, silent⟩
  · exact absurd replies due.1.not_replies

end Decided

variable (apart : a ≠ b) (heard : ignoredPath file = false)

section Here

variable {i : Nat} {k : Packet} (at_ : net.flight[i]? = some k) (now : Int) (missing : Bool)
  (about : About repoID file k)
include at_ about heard

theorem told_here {x : Packet}
    (mem : x ∈ (deliver rt [a, b] net (net.flight.eraseIdx i) k now missing).flight)
    (about' : About repoID file x) :
    Pair a b x.src x.dst ∧ Speaks r x.src x.dst ∧ ∃ m, r x.src = some m ∧ Tells m x.update := by
  obtain ⟨rfl, rfl⟩ := about
  obtain ⟨replies, flight, sent⟩ := deliver_replies rt [a, b] net (net.flight.eraseIdx i) now
    missing heard
  rw [flight] at mem
  rcases List.mem_append.mp mem with left | reply
  · exact exchange.told x (List.mem_of_mem_eraseIdx left) about'
  · obtain ⟨keep, silent, own, stored, -, -, rfl⟩ := sent x reply
    have asked := List.mem_of_getElem? at_
    obtain ⟨pair, speaks, -⟩ := exchange.told k asked ⟨rfl, rfl⟩
    obtain ⟨replies, same⟩ := replies_of_keep exchange asked ⟨rfl, rfl⟩ keep silent
    exact ⟨pair.symm, speaks.answer replies, own, same ▸ stored, tells_metadataUpdate _ _ own⟩

theorem copied_here (due : Due r k.dst k.src) :
    Copied r k.src (((deliver rt [a, b] net (net.flight.eraseIdx i) k now missing).node
      k.dst).db.get repoID file) := by
  obtain ⟨rfl, rfl⟩ := about
  have mem := List.mem_of_getElem? at_
  obtain ⟨sent, -, m, row, tells⟩ := exchange.told k mem ⟨rfl, rfl⟩
  rw [deliver_row rt [a, b] (net.flight.eraseIdx i) now missing heard
    (exchange.known k.dst k.src sent.symm)]
  split
  · exact ⟨m, _, row, rfl, tells.hash, tells.deleted⟩
  · rename_i refused
    rcases accept_of_adopts exchange mem ⟨rfl, rfl⟩ due.1 with accept | copied
    · exact absurd ⟨accept, rfl, rfl⟩ refused
    · exact copied

include apart

theorem rows_here {x y : String} (pair : Pair a b x y) :
    ((deliver rt [a, b] net (net.flight.eraseIdx i) k now missing).node x).db.get repoID file =
        r x ∨
      Due r x y ∧ Copied r y
        (((deliver rt [a, b] net (net.flight.eraseIdx i) k now missing).node x).db.get
          repoID file) := by
  obtain ⟨rfl, rfl⟩ := about
  have mem := List.mem_of_getElem? at_
  obtain ⟨sent, speaks, m, row, tells⟩ := exchange.told k mem ⟨rfl, rfl⟩
  rw [deliver_row rt [a, b] (net.flight.eraseIdx i) now missing heard
    (exchange.known k.dst k.src sent.symm)]
  split
  · rename_i taken
    obtain ⟨accept, rfl, -⟩ := taken
    obtain rfl := sent.symm.unique apart pair
    have adopts := adopts_of_accept exchange mem ⟨rfl, rfl⟩ accept
    exact Or.inr ⟨⟨adopts, speaks⟩, m, _, row, rfl, tells.hash, tells.deleted⟩
  · exact exchange.rows x y pair

theorem answered_here (replies : Replies r k.dst k.src) :
    ∃ x ∈ (deliver rt [a, b] net (net.flight.eraseIdx i) k now missing).flight,
      About repoID file x ∧ x.dst = k.src := by
  obtain ⟨rfl, rfl⟩ := about
  have mem := List.mem_of_getElem? at_
  obtain ⟨pair, -, -⟩ := exchange.told k mem ⟨rfl, rfl⟩
  obtain ⟨keep, silent⟩ := keep_of_replies exchange mem ⟨rfl, rfl⟩ replies
  obtain ⟨own, stored⟩ : ∃ own, (net.node k.dst).db.get k.repoID k.update.path = some own := by
    cases stored : (net.node k.dst).db.get k.repoID k.update.path with
    | none =>
      have conflict := keep_of_none stored keep
      rw [silent] at conflict
      cases conflict
    | some own => exact ⟨own, rfl⟩
  obtain ⟨x, sent, -, dst, repo, update⟩ := deliver_reply rt (net.flight.eraseIdx i) now missing
    heard keep silent stored pair.mem (pair.ne apart)
  exact ⟨x, sent, ⟨repo, by rw [update]; rfl⟩, dst⟩

end Here

include apart heard

theorem exchange_here {i : Nat} {k : Packet} (at_ : net.flight[i]? = some k) (now : Int)
    (missing : Bool) (about : About repoID file k) :
    Exchange a b r repoID file (deliver rt [a, b] net (net.flight.eraseIdx i) k now missing) := by
  obtain ⟨sent, -, -⟩ := exchange.told k (List.mem_of_getElem? at_) about
  have frame := deliver_frame rt [a, b] net (net.flight.eraseIdx i) k now missing
  constructor
  · intro x y pair
    exact (frame x).1.trans (exchange.named x y pair)
  · intro x y pair
    rw [(frame x).2.2.2]
    exact exchange.known x y pair
  · intro x mem about'
    exact told_here exchange heard at_ now missing about mem about'
  · intro x y pair
    exact rows_here exchange apart heard at_ now missing about pair
  · intro x y pair due
    by_cases here : x = k.dst
    · subst here
      obtain rfl := sent.symm.unique apart pair
      exact Or.inl (copied_here exchange heard at_ now missing about due)
    · -- the message went to the other one, which may owe this peer an answer
      obtain rfl : y = k.dst := pair.partner sent.symm here
      obtain rfl := pair.symm.unique apart sent.symm
      rw [deliver_row_other rt [a, b] net _ now missing (fun h => here h.2)]
      rcases exchange.due _ _ pair due with done | ⟨k', mem, about', dst⟩ | ⟨replies, -⟩
      · exact Or.inl done
      · refine Or.inr (Or.inl ⟨k', ?_, about', dst⟩)
        rcases (mem_eraseIdx_or at_).mp mem with rfl | left
        · exact absurd dst.symm here
        · exact List.mem_append_left _ left
      · exact Or.inr (Or.inl (answered_here exchange apart heard at_ now missing about replies))

end Deliver

/-! The start of the exchange. -/

structure Tracked (repoID x : String) (sc : SyncCoordinator) : Prop where
  named : sc.localPeerID = x
  active : ∃ repo, sc.db.getRepository repoID = some repo ∧ repo.id = repoID ∧
    repo.status = .active
  versions : ∀ path m, sc.db.get repoID path = some m → 0 ≤ m.version ∧ m.version < 2 ^ 53

theorem Tracked.known {repoID x : String} {sc : SyncCoordinator} (tracked : Tracked repoID x sc) :
    repoID ∈ sc.db.repositories := by
  obtain ⟨repo, stored, -⟩ := tracked.active
  exact AList.lookup_isSome.mp (by rw [← DB.getRepository, stored]; rfl)

theorem rowLive_isSome {row : Option FileMetadata} :
    (rowLive row).isSome = true ↔ ∃ m, row = some m ∧ m.isDeleted = false := by
  cases row with
  | none => simp [rowLive]
  | some m => cases deleted : m.isDeleted <;> simp [rowLive, deleted]

theorem syncAll_live {sc : SyncCoordinator} {peerID : String} {o : Output}
    (sent : o ∈ syncAllRepositoriesWithPeer sc peerID) : ∃ m ∈ sc.db.live,
      o = sendMetadataUpdateToPeer sc peerID m.repositoryID m.filepath m.size
        (Binary64.wrapUint64 m.version) m.hash m.localLastModified m.isDeleted m.mode := by
  obtain ⟨repo, -, sent⟩ := List.mem_flatMap.mp sent
  obtain ⟨m, listed, rfl⟩ := List.mem_map.mp sent
  obtain ⟨live, own⟩ := DB.mem_listByRepository.mp listed
  exact ⟨m, live, by rw [own]⟩

theorem live_syncAll {repoID x : String} {sc : SyncCoordinator} (tracked : Tracked repoID x sc)
    (peerID : String) {m : FileMetadata} (live : m ∈ sc.db.live) (own : m.repositoryID = repoID) :
    sendMetadataUpdateToPeer sc peerID repoID m.filepath m.size (Binary64.wrapUint64 m.version)
      m.hash m.localLastModified m.isDeleted m.mode ∈ syncAllRepositoriesWithPeer sc peerID := by
  obtain ⟨repo, stored, id, active⟩ := tracked.active
  apply List.mem_flatMap.mpr
  refine ⟨repo, ?_, ?_⟩
  · apply List.mem_filter.mpr
    refine ⟨?_, decide_eq_true active⟩
    rw [List.mem_insertionSort]
    exact List.mem_map.mpr ⟨⟨repoID, repo⟩, AList.mem_lookup_iff.mp stored, rfl⟩
  · rw [id]
    exact List.mem_map.mpr ⟨m, DB.mem_listByRepository.mpr ⟨live, own⟩, rfl⟩

section Rejoin

variable {a b repoID file : String} {node : String → SyncCoordinator}

theorem rejoin_flight {k : Packet} (mem : k ∈ (rejoin a b node).flight) :
    Pair a b k.src k.dst ∧ ∃ m ∈ (node k.src).db.live, k.repoID = m.repositoryID ∧
      k.update = metadataUpdate (node k.src) m.filepath m.size (Binary64.wrapUint64 m.version) m.hash
        m.localLastModified m.isDeleted m.mode := by
  have each : ∀ x y, Pair a b x y →
      k ∈ packets [a, b] x ⟨x, 0⟩ [] (syncAllRepositoriesWithPeer (node x) y) →
      Pair a b k.src k.dst ∧ ∃ m ∈ (node k.src).db.live, k.repoID = m.repositoryID ∧
        k.update = metadataUpdate (node k.src) m.filepath m.size (Binary64.wrapUint64 m.version)
          m.hash m.localLastModified m.isDeleted m.mode := by
    intro x y pair sent
    obtain ⟨rfl, -, -, -, -, out⟩ := packets_spec [a, b] sent
    rcases out with out | out
    · obtain ⟨m, -, eq⟩ := syncAll_live out
      cases eq
    · obtain ⟨m, live, eq⟩ := syncAll_live out
      simp only [sendMetadataUpdateToPeer, Output.sendToPeer.injEq,
        P2PMessage.fileMetadataUpdate.injEq] at eq
      obtain ⟨rfl, repo, update⟩ := eq
      exact ⟨pair, m, live, repo, update⟩
  rcases List.mem_append.mp mem with own | other
  · exact each a b (Or.inl ⟨rfl, rfl⟩) own
  · exact each b a (Or.inr ⟨rfl, rfl⟩) other

theorem rejoin_announced {x y : String} (pair : Pair a b x y) (apart : a ≠ b)
    (tracked : Tracked repoID x (node x))
    (live : (rowLive ((node x).db.get repoID file)).isSome = true) :
    ∃ k ∈ (rejoin a b node).flight, About repoID file k ∧ k.dst = y := by
  obtain ⟨m, row, alive⟩ := rowLive_isSome.mp live
  obtain ⟨repo, path⟩ := DB.get_fields row
  have stored : m ∈ (node x).db.live := DB.mem_live.mpr ⟨by rw [repo, path]; exact row, alive⟩
  have sent : ⟨x, y, repoID, metadataUpdate (node x) m.filepath m.size
      (Binary64.wrapUint64 m.version) m.hash m.localLastModified m.isDeleted m.mode, ⟨x, 0⟩, []⟩ ∈
      packets [a, b] x ⟨x, 0⟩ [] (syncAllRepositoriesWithPeer (node x) y) :=
    packets_send [a, b] (live_syncAll tracked y stored repo) pair.symm.mem (pair.ne apart).symm
  have flight : ∀ k ∈ packets [a, b] x ⟨x, 0⟩ [] (syncAllRepositoriesWithPeer (node x) y),
      k ∈ (rejoin a b node).flight := by
    intro k mem
    rcases pair with ⟨rfl, rfl⟩ | ⟨rfl, rfl⟩
    · exact List.mem_append_left _ mem
    · exact List.mem_append_right _ mem
  exact ⟨_, flight _ sent, ⟨rfl, path⟩, rfl⟩

theorem exchange_rejoin (apart : a ≠ b) (first : Tracked repoID a (node a))
    (second : Tracked repoID b (node b)) :
    Exchange a b (fun x => (node x).db.get repoID file) repoID file (rejoin a b node) := by
  have tracked : ∀ x y, Pair a b x y → Tracked repoID x (node x) := by
    rintro x y (⟨rfl, -⟩ | ⟨rfl, -⟩)
    · exact first
    · exact second
  constructor
  · exact fun x y pair => (tracked x y pair).named
  · exact fun x y pair => (tracked x y pair).known
  · rintro k mem ⟨repo, path⟩
    obtain ⟨pair, m, live, own, update⟩ := rejoin_flight mem
    obtain ⟨row, alive⟩ := DB.mem_live.mp live
    have stored : (node k.src).db.get repoID file = some m := by
      rw [update] at path
      rw [← repo, own, show file = m.filepath from path.symm]
      exact row
    refine ⟨pair, Or.inl (rowLive_isSome.mpr ⟨m, stored, alive⟩), m, stored, ?_⟩
    rw [update]
    exact tells_metadataUpdate _ _ m
  · exact fun x y _ => Or.inl rfl
  · rintro x y pair ⟨-, live | ⟨live, replies⟩⟩
    · exact Or.inr (Or.inl (rejoin_announced pair.symm apart (tracked y x pair.symm) live))
    · exact Or.inr (Or.inr ⟨replies, rejoin_announced pair apart (tracked x y pair) live⟩)

end Rejoin

/-! The end of the exchange. -/

def rowTime : Option FileMetadata → Int
  | none => 0
  | some m => m.localLastModified

def Overwritten (x : String) (row : Option FileMetadata) (y : String)
    (other : Option FileMetadata) : Prop :=
  ∃ m ∈ other, rowHash row ≠ m.hash ∧
    (m.isDeleted = false ∧ (rowVersion row < m.version ∨ rowVersion row = m.version ∧
        (rowTime row < Binary64.toInt64 m.localLastModified ∨
          rowTime row = Binary64.toInt64 m.localLastModified ∧ x < y)) ∨
      (rowLive row).isSome = true ∧ rowVersion row < m.version)

instance (x : String) (row : Option FileMetadata) (y : String) (other : Option FileMetadata) :
    Decidable (Overwritten x row y other) := by
  unfold Overwritten
  infer_instance

def Heals (a b file : String) (rowA rowB : Option FileMetadata) : Prop :=
  rowLive rowA = rowLive rowB ∨ ignoredPath file = false ∧
    (Overwritten a rowA b rowB ↔ ¬ Overwritten b rowB a rowA)

instance (a b file : String) (rowA rowB : Option FileMetadata) :
    Decidable (Heals a b file rowA rowB) := by
  unfold Heals
  infer_instance

def Bounded (row : Option FileMetadata) : Prop :=
  ∀ m, row = some m → 0 ≤ m.version ∧ m.version < 2 ^ 53

theorem storedVersion_eq (x : String) {row : Option FileMetadata} (bounded : Bounded row) :
    (storedVersion x row).hash = rowHash row ∧
      ((storedVersion x row).lamportVersion : Int) = rowVersion row ∧
      (storedVersion x row).timestamp = rowTime row ∧ (storedVersion x row).peerID = x := by
  cases row with
  | none => exact ⟨rfl, rfl, rfl, rfl⟩
  | some m =>
    obtain ⟨lower, upper⟩ := bounded m rfl
    exact ⟨rfl, Binary64.wrapUint64_of_range lower (by omega), rfl, rfl⟩

theorem wireVersion_eq (y : String) {m : FileMetadata} (lower : 0 ≤ m.version)
    (upper : m.version < 2 ^ 53) : ((wireVersion y m).lamportVersion : Int) = m.version := by
  have exact_ := Binary64.wrapUint64_of_range lower (by omega)
  rw [wireVersion, Binary64.toUint64_small (by omega)]
  exact exact_

section

variable {x y : String} {row : Option FileMetadata} {m : FileMetadata} (bounded : Bounded row)
  (lower : 0 ≤ m.version) (upper : m.version < 2 ^ 53)

include bounded lower upper

theorem verdict_accept_iff : (verdict x row y m).action = .acceptRemote ↔ rowHash row ≠ m.hash ∧
      (rowVersion row < m.version ∨ rowVersion row = m.version ∧
        (rowTime row < Binary64.toInt64 m.localLastModified ∨
          rowTime row = Binary64.toInt64 m.localLastModified ∧ x < y)) := by
  obtain ⟨hash, version, time, id⟩ := storedVersion_eq x bounded
  have wire := wireVersion_eq y lower upper
  rw [verdict, resolve_accept_iff, rank_lt_iff, hash, time, id, ← version, ← wire]
  simp only [wireVersion, Nat.cast_lt, Nat.cast_inj]

theorem verdict_reply_iff :
    (verdict x row y m).action = .keepLocal ∧ (verdict x row y m).isConflict = false ↔
      rowHash row ≠ m.hash ∧ m.version < rowVersion row := by
  obtain ⟨hash, version, -, -⟩ := storedVersion_eq x bounded
  have wire := wireVersion_eq y lower upper
  have conflict := resolve_conflict_iff (storedVersion x row) (wireVersion y m)
  rw [verdict, resolve_keep_iff, rank_lt_iff, ← Bool.not_eq_true, conflict, hash, ← version, ← wire]
  constructor
  · rintro ⟨⟨differ, below⟩, distinct⟩
    refine ⟨differ, ?_⟩
    have apart : (storedVersion x row).lamportVersion ≠ (wireVersion y m).lamportVersion :=
      fun same => distinct ⟨differ, same⟩
    rw [not_or] at below
    have above := below.1
    omega
  · rintro ⟨differ, above⟩
    refine ⟨⟨differ, ?_⟩, ?_⟩
    · rintro (less | ⟨same, -⟩) <;> omega
    · rintro ⟨-, same⟩
      omega

end

theorem due_iff {r : String → Option FileMetadata} {x y : String} (bounded : Bounded (r x))
    (bounded' : Bounded (r y)) : Due r x y ↔ Overwritten x (r x) y (r y) := by
  constructor
  · rintro ⟨⟨m, row, accept⟩, speaks⟩
    obtain ⟨lower, upper⟩ := bounded' m row
    obtain ⟨differ, above⟩ := (verdict_accept_iff bounded lower upper).mp accept
    refine ⟨m, row, differ, ?_⟩
    rcases speaks with live | ⟨live, m', row', reply⟩
    · obtain ⟨m', row', alive⟩ := rowLive_isSome.mp live
      cases Option.some.inj (row.symm.trans row')
      exact Or.inl ⟨alive, above⟩
    · obtain ⟨lower', upper'⟩ := bounded m' row'
      have higher := ((verdict_reply_iff bounded' lower' upper').mp reply).2
      rw [row] at higher
      rw [row']
      exact Or.inr ⟨row' ▸ live, higher⟩
  · rintro ⟨m, row, differ, why⟩
    obtain ⟨lower, upper⟩ := bounded' m row
    rcases why with ⟨alive, above⟩ | ⟨live, higher⟩
    · exact ⟨⟨m, row, (verdict_accept_iff bounded lower upper).mpr ⟨differ, above⟩⟩,
        Or.inl (rowLive_isSome.mpr ⟨m, row, alive⟩)⟩
    · obtain ⟨m', row', alive⟩ := rowLive_isSome.mp live
      obtain ⟨lower', upper'⟩ := bounded m' row'
      rw [row'] at differ higher
      refine ⟨⟨m, row, (verdict_accept_iff bounded lower upper).mpr ?_⟩, Or.inr ⟨live, m', row', ?_⟩⟩
      · rw [row']
        exact ⟨differ, Or.inl higher⟩
      · rw [row]
        have bounded : Bounded (some m) := by
          rintro _ ⟨⟩
          exact ⟨lower, upper⟩
        exact (verdict_reply_iff bounded lower' upper').mpr ⟨differ.symm, higher⟩

section Quiet

variable {a b repoID file : String} {r : String → Option FileMetadata} {net : Net}
  (exchange : Exchange a b r repoID file net) (quiet : net.flight = []) {x y : String}
  (pair : Pair a b x y)
include exchange quiet pair

theorem quiet_due (due : Due r x y) :
    rowLive ((net.node x).db.get repoID file) = rowLive (r y) := by
  rcases exchange.due x y pair due with ⟨m, m', row, stored, hash, deleted⟩ | late | late
  · simp only [rowLive, row, stored, Option.bind_some, hash, deleted]
  · obtain ⟨k, mem, -⟩ := late
    rw [quiet] at mem
    cases mem
  · obtain ⟨-, k, mem, -⟩ := late
    rw [quiet] at mem
    cases mem

omit quiet in
theorem quiet_own (own : ¬ Due r x y) : (net.node x).db.get repoID file = r x :=
  (exchange.rows x y pair).resolve_right (fun h => own h.1)

end Quiet

theorem exchange_agrees_iff {a b repoID file : String} {r : String → Option FileMetadata}
    {net : Net} (exchange : Exchange a b r repoID file net) (quiet : net.flight = [])
    (heard : ignoredPath file = false) (boundedA : Bounded (r a)) (boundedB : Bounded (r b)) :
    liveHash (net.node a) repoID file = liveHash (net.node b) repoID file ↔
      Heals a b file (r a) (r b) := by
  have ab : Pair a b a b := Or.inl ⟨rfl, rfl⟩
  have live : ∀ x, liveHash (net.node x) repoID file = rowLive ((net.node x).db.get repoID file) :=
    fun _ => rfl
  rw [live, live, Heals, ← due_iff boundedA boundedB, ← due_iff boundedB boundedA]
  by_cases first : Due r a b
  · rw [quiet_due exchange quiet ab first]
    by_cases second : Due r b a
    · rw [quiet_due exchange quiet ab.symm second, eq_comm (a := rowLive (r b))]
      simp [first, second]
    · rw [quiet_own exchange ab.symm second]
      simp [first, second, heard]
  · rw [quiet_own exchange ab first]
    by_cases second : Due r b a
    · rw [quiet_due exchange quiet ab.symm second]
      simp [first, second, heard]
    · rw [quiet_own exchange ab.symm second]
      simp [first, second]

section Run

variable {rt : Runtime} {a b repoID : String} {node : String → SyncCoordinator} {net : Net}
  (reached : Reach (· = rejoin a b node)
    (Guarded (Runs (Net.next rt repoID [a, b]))
      (fun _ move => move.delivers = true)) net)
include reached

theorem exchange_reach (apart : a ≠ b) (first : Tracked repoID a (node a))
    (second : Tracked repoID b (node b)) {file : String} (heard : ignoredPath file = false) :
    Exchange a b (fun x => (node x).db.get repoID file) repoID file net := by
  refine reach_invariant (Exchange a b _ repoID file) ?_ ?_ reached
  · rintro s rfl
    exact exchange_rejoin apart first second
  · rintro s move t before ⟨moved, delivers⟩
    cases move with
    | deliver i now missing =>
      obtain ⟨k, at_, rfl⟩ := next_deliver moved
      by_cases about : About repoID file k
      · exact exchange_here before apart heard at_ now missing about
      · exact exchange_elsewhere before at_ now missing about
    | _ => cases delivers

theorem ignored_reach {file : String} (ignored : ignoredPath file = true) (x : String) :
    (net.node x).db.get repoID file = (node x).db.get repoID file := by
  refine reach_invariant
    (fun net => (net.node x).db.get repoID file = (node x).db.get repoID file) ?_ ?_ reached
  · rintro s rfl
    rfl
  · rintro s move t before ⟨moved, delivers⟩
    cases move with
    | deliver i now missing =>
      obtain ⟨k, at_, rfl⟩ := next_deliver moved
      rw [← before]
      by_cases about : About repoID file k
      · rw [deliver_ignored now missing (about.2 ▸ ignored)]
      · exact deliver_row_other rt [a, b] s _ now missing (fun h => about h.1)
    | _ => cases delivers

end Run

def holding (peer : String) (m : FileMetadata) : SyncCoordinator :=
  let sc := addRepository (.new peer) 0 m.repositoryID "/r"
  { sc with db := (sc.db.save 0 m).getD sc.db }

theorem holding_saved (peer : String) (m : FileMetadata) :
    (addRepository (.new peer) 0 m.repositoryID "/r").db.save 0 m = some (holding peer m).db := by
  have known : m.repositoryID ∈ (addRepository (.new peer) 0 m.repositoryID "/r").db.repositories := by
    simp [addRepository, DB.saveRepository]
  obtain ⟨db, saved⟩ := DB.save_known known 0
  simp only [holding, saved, Option.getD_some]

theorem holding_tracked (peer : String) (m : FileMetadata) (lower : 0 ≤ m.version)
    (upper : m.version < 2 ^ 53) : Tracked m.repositoryID peer (holding peer m) := by
  have saved := holding_saved peer m
  refine ⟨rfl, ?_, ?_⟩
  · refine ⟨⟨m.repositoryID, "/r", .active, 0, 0⟩, ?_, rfl, rfl⟩
    rw [DB.getRepository, (DB.save_some saved).2.1]
    exact AList.lookup_insert _
  · intro path row stored
    by_cases same : path = m.filepath
    · rw [same, DB.get_save_self saved] at stored
      cases stored
      exact ⟨lower, upper⟩
    · rw [DB.get_save_other saved (fun h => same (Prod.mk.inj h).2)] at stored
      cases stored

def parted (m m' : FileMetadata) (x : String) : SyncCoordinator :=
  holding x (if x = "a" then m else m')

theorem rejoin_reach (rt : Runtime) (a b repoID : String) (node : String → SyncCoordinator) :
    Reach (· = rejoin a b node)
      (Guarded (Runs (Net.next rt repoID [a, b]))
        (fun _ move => move.delivers = true)) (rejoin a b node) :=
  .start rfl

def twiceEdited : FileMetadata := ⟨"r", "f", "new", 1, 3, 9, false, 0, 420, none⟩

def onceEdited : FileMetadata := ⟨"r", "f", "old", 1, 2, 10, false, 0, 420, none⟩

def onceDeleted : FileMetadata := ⟨"r", "f", "", 0, 2, 12, true, 0, 0, none⟩

end P2PSync
