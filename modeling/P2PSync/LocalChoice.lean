import P2PSync.Healing

/-! The user keeps the own side of a conflict. By then the automatic rule has been
applied to the row; the coordinator sends what the row has, and the peer applies
the same rule to it. -/
namespace P2PSync

open Transition

section LocalChoice

variable (repoID file a b : String) (ma mb : FileMetadata)

def Keeps : Prop := (verdict a (some ma) b mb).action = .keepLocal

def Yielded : Prop := (verdict b (some mb) a ma).action = .acceptRemote

instance : Decidable (Keeps a b ma mb) := inferInstanceAs (Decidable (_ = _))

instance : Decidable (Yielded a b ma mb) := inferInstanceAs (Decidable (_ = _))

structure Contest (net : Net) : Prop where
  named : (net.node a).localPeerID = a ∧ (net.node b).localPeerID = b
  known : repoID ∈ (net.node a).db.repositories ∧ repoID ∈ (net.node b).db.repositories
  own : ∃ r, (net.node a).db.get repoID file = some r ∧ r.version = ma.version ∧
    (r = ma ∨ ¬ Keeps a b ma mb ∧ r.hash = mb.hash)
  other : ∃ r, (net.node b).db.get repoID file = some r ∧ r.version = ma.version ∧
    (Keeps a b ma mb → r = mb ∨ Yielded a b ma mb ∧ r.hash = ma.hash)
  flights : ∀ k ∈ net.flight, About repoID file k →
    k.src = b ∧ k.dst = a ∧ Tells mb k.update ∨
      k.src = a ∧ k.dst = b ∧ k.update.version = (Binary64.wrapUint64 ma.version : Int) ∧
        (Keeps a b ma mb → Tells ma k.update)

/-- The events after the report: messages are delivered, and a content that was taken
over from the other side is downloaded. -/
def settleMove (net : Net) : Move → Bool
  | .change .. | .resolve .. => false
  | .respond p _ env _ payload => clean payload.path = file →
      payload.hash = heldHash repoID file net p ∧
      (p = a ∧ payload.hash = mb.hash ∨ p = b ∧ payload.hash = ma.hash) ∧
      ((net.node p).pendingDownloads.lookup (pendingKey file payload.hash)).all
        (fun details => !finalFailure env payload details)
  | _ => true

structure Advance (net after : Net) : Prop where
  contest : Contest repoID file a b ma mb after
  own : heldHash repoID file net a = mb.hash → heldHash repoID file after a = mb.hash
  other : Keeps a b ma mb → heldHash repoID file net b = ma.hash →
    heldHash repoID file after b = ma.hash
  heard : ∀ k ∈ net.flight, About repoID file k → k.src = a → k ∈ after.flight ∨
    (Keeps a b ma mb → Yielded a b ma mb → heldHash repoID file after b = ma.hash)

variable {repoID file a b ma mb} {net after : Net}

theorem heldHash_row {p : String} {m : FileMetadata}
    (row : (net.node p).db.get repoID file = some m) : heldHash repoID file net p = m.hash := by
  rw [heldHash, row, rowHash]

theorem heldHash_same {p : String}
    (same : (after.node p).db.get repoID file = (net.node p).db.get repoID file) :
    heldHash repoID file after p = heldHash repoID file net p := by
  simp only [heldHash, same]

theorem Contest.step (contest : Contest repoID file a b ma mb net)
    (frame : ∀ p, SameFrame (after.node p) (net.node p))
    (own : ∃ r, (after.node a).db.get repoID file = some r ∧ r.version = ma.version ∧
      (r = ma ∨ ¬ Keeps a b ma mb ∧ r.hash = mb.hash))
    (other : ∃ r, (after.node b).db.get repoID file = some r ∧ r.version = ma.version ∧
      (Keeps a b ma mb → r = mb ∨ Yielded a b ma mb ∧ r.hash = ma.hash))
    (flights : ∀ k ∈ after.flight, About repoID file k → k ∈ net.flight) :
    Contest repoID file a b ma mb after := by
  refine ⟨?_, ?_, own, other, fun k member about => contest.flights k (flights k member about) about⟩
  · rw [(frame a).1, (frame b).1]
    exact contest.named
  · rw [(frame a).2.2.2, (frame b).2.2.2]
    exact contest.known

theorem Contest.advance (contest : Contest repoID file a b ma mb net)
    (frame : ∀ p, SameFrame (after.node p) (net.node p))
    (rows : ∀ p, (after.node p).db.get repoID file = (net.node p).db.get repoID file)
    (flights : ∀ k, About repoID file k → (k ∈ after.flight ↔ k ∈ net.flight)) :
    Advance repoID file a b ma mb net after := by
  refine ⟨contest.step frame ?_ ?_ (fun k member about => (flights k about).mp member), ?_, ?_, ?_⟩
  · rw [rows]
    exact contest.own
  · rw [rows]
    exact contest.other
  · rw [heldHash_same (rows a)]
    exact id
  · intro _
    rw [heldHash_same (rows b)]
    exact id
  · intro k member about _
    exact Or.inl ((flights k about).mpr member)

section Deliver

variable (exact : WireExact ma.version) (equal : mb.version = ma.version)
  (differ : ma.hash ≠ mb.hash) (heard : ignoredPath file = false) (apart : a ≠ b)

include exact

omit exact in
theorem deliver_elsewhere_flight {rt : Runtime} {peers : List String} {i : Nat} {k : Packet}
    (at_ : net.flight[i]? = some k) (now : Int) (missing : Bool) (other : ¬ About repoID file k)
    (x : Packet) (about : About repoID file x) :
    x ∈ (deliver rt peers net (net.flight.eraseIdx i) k now missing).flight ↔ x ∈ net.flight := by
  rw [mem_eraseIdx_or at_]
  constructor
  · intro member
    right
    cases ignored : ignoredPath k.update.path with
    | true =>
      rw [deliver_ignored now missing ignored] at member
      exact member
    | false =>
      rcases deliver_flight ignored member with left | ⟨-, -, m, -, -, -, rfl⟩
      · exact left
      · exact absurd about other
  · rintro (rfl | left)
    · exact absurd about other
    · exact List.mem_append_left _ left

theorem exact_decoded {u : Update} (number : u.version = (Binary64.wrapUint64 ma.version : Int)) :
    u.decodedVersion = Binary64.wrapUint64 ma.version := by
  have back := exact.exact
  have wrap := exact.wrap
  rw [Update.decodedVersion, number]
  omega

theorem deliver_silent (rt : Runtime) (peers : List String) (rest : List Packet) {k : Packet}
    (now : Int) (missing : Bool) (heard : ignoredPath k.update.path = false)
    (number : k.update.version = (Binary64.wrapUint64 ma.version : Int)) {r : FileMetadata}
    (row : (net.node k.dst).db.get k.repoID k.update.path = some r)
    (same : r.version = ma.version) :
    (deliver rt peers net rest k now missing).flight = rest := by
  obtain ⟨replies, flight, sent⟩ := deliver_replies rt peers net rest now missing heard
  rw [flight]
  cases replies with
  | nil => exact List.append_nil rest
  | cons x xs =>
    obtain ⟨keep, silent, -⟩ := sent x List.mem_cons_self
    rw [decision, row] at keep silent
    have content := ((resolve_keep_iff _ _).mp keep).1
    have tie : (ownVersion (net.node k.dst) (some r)).lamportVersion =
        (remoteVersion k.src k.update).lamportVersion := by
      simp only [ownVersion, remoteVersion, exact_decoded exact number, same]
    rw [(resolve_conflict_iff _ _).mpr ⟨content, tie⟩] at silent
    cases silent

theorem accepted_version (repoID : String) {u : Update} (now : Int)
    (number : u.version = (Binary64.wrapUint64 ma.version : Int)) :
    ({ acceptedMeta repoID u with updatedAt := now } : FileMetadata).version = ma.version := by
  have wrap := exact.wrap
  simp only [acceptedMeta, exact_decoded exact number]
  rw [wrap]
  exact Binary64.wrapInt64_of_range (by have := exact.nonneg; omega) exact.range

theorem deliver_outcome (heard : ignoredPath file = false) (rt : Runtime) (peers : List String)
    (rest : List Packet) {k : Packet} (now : Int) (missing : Bool) (about : About repoID file k)
    (number : k.update.version = (Binary64.wrapUint64 ma.version : Int)) {r : FileMetadata}
    (row : (net.node k.dst).db.get repoID file = some r) (version : r.version = ma.version) :
    (deliver rt peers net rest k now missing).flight = rest ∧
      ∃ r', ((deliver rt peers net rest k now missing).node k.dst).db.get repoID file = some r' ∧
        r'.version = ma.version ∧
        (r' = r ∧ (decision (net.node k.dst) k.src repoID k.update).action ≠ .acceptRemote ∨
          r'.hash = k.update.hash ∧
            (decision (net.node k.dst) k.src repoID k.update).action = .acceptRemote) := by
  obtain ⟨repo, path⟩ := about
  have open_ : ignoredPath k.update.path = false := by rw [path]; exact heard
  refine ⟨deliver_silent exact rt peers rest now missing open_ number
    (by rw [repo, path]; exact row) version, ?_⟩
  rw [← repo, ← path, deliver_row rt peers rest now missing open_
    (by rw [repo]; exact DB.repository_of_get row)]
  split
  · rename_i taken
    exact ⟨_, rfl, accepted_version exact k.repoID now number, Or.inr ⟨rfl, taken.1⟩⟩
  · rename_i left
    rw [repo, path]
    exact ⟨r, row, version, Or.inl ⟨rfl, fun accept => left ⟨repo ▸ accept, rfl, rfl⟩⟩⟩

include equal differ heard apart

omit exact heard apart equal in
theorem keeps_or_accepts : Keeps a b ma mb ∨ (verdict a (some ma) b mb).action = .acceptRemote := by
  rw [Keeps, verdict, resolve_action differ]
  split
  · exact Or.inr rfl
  · exact Or.inl rfl

theorem advance_report (contest : Contest repoID file a b ma mb net) (rt : Runtime) {i : Nat}
    {k : Packet} (at_ : net.flight[i]? = some k) (now : Int) (missing : Bool)
    (about : About repoID file k) (src : k.src = b) (dst : k.dst = a) (tells : Tells mb k.update) :
    Advance repoID file a b ma mb net
        (deliver rt [a, b] net (net.flight.eraseIdx i) k now missing) ∧
      (¬ Keeps a b ma mb → heldHash repoID file
        (deliver rt [a, b] net (net.flight.eraseIdx i) k now missing) a = mb.hash) := by
  obtain ⟨r, row, version, origin⟩ := contest.own
  have number : k.update.version = (Binary64.wrapUint64 ma.version : Int) := by
    rw [tells.version, equal]
  have frame := deliver_frame rt [a, b] net (net.flight.eraseIdx i) k now missing
  obtain ⟨flight, r', row', version', outcome⟩ := deliver_outcome exact heard rt [a, b]
    (net.flight.eraseIdx i) now missing about number (by rw [dst]; exact row) version
  have still := deliver_row_other rt [a, b] net (net.flight.eraseIdx i) now missing
    (fun here : About repoID file k ∧ b = k.dst => apart (dst.symm.trans here.2.symm))
  have told : decision (net.node a) b repoID k.update = verdict a (some r) b mb := by
    rw [decision_told contest.named.1 tells, about.2, row]
  rw [dst] at row'
  rw [dst, src, told] at outcome
  -- the row before is the own version or the other one, which is skipped
  have origin' : r' = ma ∧ Keeps a b ma mb ∨ ¬ Keeps a b ma mb ∧ r'.hash = mb.hash := by
    rcases outcome with ⟨rfl, stays⟩ | ⟨content, accept⟩
    · rcases origin with rfl | other
      · exact Or.inl ⟨rfl, (keeps_or_accepts differ).resolve_right stays⟩
      · exact Or.inr other
    · refine Or.inr ⟨fun keeps => ?_, content.trans tells.hash⟩
      rcases origin with rfl | ⟨loses, -⟩
      · rw [keeps] at accept
        cases accept
      · exact loses keeps
  have taken : ¬ Keeps a b ma mb → r'.hash = mb.hash := fun loses =>
    (origin'.resolve_left (fun own => loses own.2)).2
  rw [heldHash_row row']
  refine ⟨⟨contest.step frame ⟨r', row', version', origin'.imp_left And.left⟩ ?_ ?_, ?_, ?_, ?_⟩,
    taken⟩
  · rw [still]
    exact contest.other
  · rw [flight]
    exact fun x member _ => List.mem_of_mem_eraseIdx member
  · intro held
    rw [heldHash_row row']
    refine taken (fun keeps => differ ?_)
    rcases origin with rfl | ⟨loses, -⟩
    · rw [← heldHash_row row, held]
    · exact absurd keeps loses
  · intro _
    rw [heldHash_same still]
    exact id
  · intro x member _ from_
    rw [flight]
    rcases (mem_eraseIdx_or at_).mp member with rfl | left
    · exact absurd (from_.symm.trans src) apart
    · exact Or.inl left

omit apart in
theorem advance_word (contest : Contest repoID file a b ma mb net) (apart : a ≠ b) (rt : Runtime)
    {i : Nat} {k : Packet} (at_ : net.flight[i]? = some k) (now : Int) (missing : Bool)
    (about : About repoID file k) (src : k.src = a) (dst : k.dst = b)
    (number : k.update.version = (Binary64.wrapUint64 ma.version : Int))
    (tells : Keeps a b ma mb → Tells ma k.update) : Advance repoID file a b ma mb net
      (deliver rt [a, b] net (net.flight.eraseIdx i) k now missing) := by
  obtain ⟨r, row, version, origin⟩ := contest.other
  have frame := deliver_frame rt [a, b] net (net.flight.eraseIdx i) k now missing
  obtain ⟨flight, r', row', version', outcome⟩ := deliver_outcome exact heard rt [a, b]
    (net.flight.eraseIdx i) now missing about number (by rw [dst]; exact row) version
  have still := deliver_row_other rt [a, b] net (net.flight.eraseIdx i) now missing
    (fun here : About repoID file k ∧ a = k.dst => apart (here.2.trans dst))
  rw [dst] at row'
  rw [dst, src] at outcome
  have told : Keeps a b ma mb →
      decision (net.node b) a repoID k.update = verdict b (some r) a ma := by
    intro keeps
    rw [decision_told contest.named.2 (tells keeps), about.2, row]
  have origin' : Keeps a b ma mb → r' = mb ∧ ¬ Yielded a b ma mb ∨
      Yielded a b ma mb ∧ r'.hash = ma.hash := by
    intro keeps
    rw [told keeps] at outcome
    rcases outcome with ⟨rfl, stays⟩ | ⟨content, accept⟩
    · exact (origin keeps).imp_left (fun same => ⟨same, by rw [Yielded, ← same]; exact stays⟩)
    · refine Or.inr ⟨?_, content.trans (tells keeps).hash⟩
      rcases origin keeps with rfl | ⟨yielded, -⟩
      · exact accept
      · exact yielded
  refine ⟨contest.step frame ?_ ⟨r', row', version', fun keeps => (origin' keeps).imp_left And.left⟩
    ?_, ?_, ?_, ?_⟩
  · rw [still]
    exact contest.own
  · rw [flight]
    exact fun x member _ => List.mem_of_mem_eraseIdx member
  · rw [heldHash_same still]
    exact id
  · intro keeps held
    rw [heldHash_row row']
    rcases outcome with ⟨rfl, -⟩ | ⟨content, -⟩
    · rw [← heldHash_row row, held]
    · exact content.trans (tells keeps).hash
  · intro x member _ _
    rw [flight, heldHash_row row']
    rcases (mem_eraseIdx_or at_).mp member with rfl | left
    · exact Or.inr (fun keeps yielded =>
        ((origin' keeps).resolve_left (fun own => own.2 yielded)).2)
    · exact Or.inl left

end Deliver

section Download

variable (differ : ma.hash ≠ mb.hash) (apart : a ≠ b)

include differ apart

theorem advance_setNode (contest : Contest repoID file a b ma mb net) {p : String}
    {sc : SyncCoordinator} (frame : SameFrame sc (net.node p))
    (row : sc.db.get repoID file = (net.node p).db.get repoID file ∨
      ∃ r r', (net.node p).db.get repoID file = some r ∧ sc.db.get repoID file = some r' ∧
        r'.version = r.version ∧ r'.hash = r.hash ∧
        (p = a ∧ r.hash = mb.hash ∨ p = b ∧ r.hash = ma.hash)) :
    Advance repoID file a b ma mb net (setNode net p sc) := by
  have frames : ∀ q, SameFrame ((setNode net p sc).node q) (net.node q) :=
    setNode_forall (P := fun q sc => SameFrame sc (net.node q)) frame
      (fun _ _ => ⟨rfl, rfl, rfl, rfl⟩)
  rcases row with same | ⟨r, r', old, new, version, hash, side⟩
  · exact contest.advance frames
      (setNode_forall (P := fun q sc => sc.db.get repoID file = (net.node q).db.get repoID file)
        same (fun _ _ => rfl)) (fun _ _ => Iff.rfl)
  · have here : ((setNode net p sc).node p).db.get repoID file = some r' := by
      simp only [setNode, setAt_self, new]
    have there : ∀ q, q ≠ p → ((setNode net p sc).node q).db.get repoID file =
        (net.node q).db.get repoID file := by
      intro q other
      simp only [setNode, setAt_other _ _ other]
    have held : ∀ q, heldHash repoID file (setNode net p sc) q = heldHash repoID file net q := by
      intro q
      by_cases same : q = p
      · rw [same, heldHash_row here, heldHash_row old, hash]
      · exact heldHash_same (there q same)
    refine ⟨contest.step frames ?_ ?_ (fun _ member _ => member), ?_, ?_, ?_⟩
    · rcases side with ⟨rfl, content⟩ | ⟨rfl, -⟩
      · obtain ⟨m, row, number, origin⟩ := contest.own
        cases Option.some.inj (old.symm.trans row)
        refine ⟨r', here, version.trans number, Or.inr ⟨?_, hash.trans content⟩⟩
        rcases origin with rfl | ⟨loses, -⟩
        · exact absurd content differ
        · exact loses
      · rw [there a apart]
        exact contest.own
    · rcases side with ⟨rfl, -⟩ | ⟨rfl, content⟩
      · rw [there b apart.symm]
        exact contest.other
      · obtain ⟨m, row, number, origin⟩ := contest.other
        cases Option.some.inj (old.symm.trans row)
        refine ⟨r', here, version.trans number, fun keeps => Or.inr ?_⟩
        rcases origin keeps with rfl | ⟨yielded, -⟩
        · exact absurd content.symm differ
        · exact ⟨yielded, hash.trans content⟩
    · rw [held]
      exact id
    · intro _
      rw [held]
      exact id
    · exact fun k member _ _ => Or.inl member

theorem advance_respond (contest : Contest repoID file a b ma mb net) (rt : Runtime) {p : String}
    {now : Int} {env : Env} {peerID : String} {payload : FileResponsePayload}
    (listed : settleMove repoID file a b ma mb net (.respond p now env peerID payload) = true) :
    Advance repoID file a b ma mb net
      (setNode net p (handleFileResponse rt (net.node p) now env peerID payload).sc) := by
  refine advance_setNode differ apart contest (response_frame rt (net.node p) now env peerID payload)
    ?_
  rcases response_row rt (net.node p) now env peerID payload repoID file with
    same | ⟨details, consumed, place, outcome⟩
  · exact Or.inl same
  · obtain ⟨repo, path⟩ := Prod.mk.inj place
    obtain ⟨held, side, lasting⟩ := (of_decide_eq_true listed) path.symm
    rcases outcome with ⟨data, digest, written⟩ | ⟨final, -⟩
    · right
      have stored : ∃ r, (net.node p).db.get repoID file = some r := by
        rcases side with ⟨rfl, -⟩ | ⟨rfl, -⟩
        · exact contest.own.imp (fun _ h => h.1)
        · exact contest.other.imp (fun _ h => h.1)
      obtain ⟨r, old⟩ := stored
      rw [heldHash_row old] at held
      refine ⟨r, _, old, written, ?_, digest.trans held, held ▸ side⟩
      simp only [inlineMeta, ← repo, old]
    · have found := consumed.2.2.2
      rw [← path] at found
      rw [found, Option.all_some, final] at lasting
      cases lasting

end Download

section Run

variable (exact : WireExact ma.version) (equal : mb.version = ma.version)
  (differ : ma.hash ≠ mb.hash) (heard : ignoredPath file = false) (apart : a ≠ b) (rt : Runtime)

include exact equal differ heard apart

theorem advance_next (contest : Contest repoID file a b ma mb net) {move : Move}
    (moved : net.next rt repoID [a, b] move = some after)
    (listed : settleMove repoID file a b ma mb net move = true) :
    Advance repoID file a b ma mb net after := by
  cases move with
  | change | resolve => cases listed
  | deliver i now missing =>
    obtain ⟨k, at_, rfl⟩ := next_deliver moved
    by_cases about : About repoID file k
    · rcases contest.flights k (List.mem_of_getElem? at_) about with
        ⟨src, dst, tells⟩ | ⟨src, dst, number, tells⟩
      · exact (advance_report exact equal differ heard apart contest rt at_ now missing about src
          dst tells).1
      · exact advance_word exact equal differ heard contest apart rt at_ now missing about src dst
          number tells
    · exact contest.advance (deliver_frame rt [a, b] net (net.flight.eraseIdx i) k now missing)
        (fun p => deliver_row_other rt [a, b] net _ now missing (fun h => about h.1))
        (deliver_elsewhere_flight at_ now missing about)
  | fetch p sent =>
    cases moved
    exact advance_setNode differ apart contest (fetch_frame _ _) (Or.inl (by rw [fetch_db]))
  | respond p now env peerID payload =>
    cases moved
    exact advance_respond differ apart contest rt listed
  | retry p now task =>
    cases moved
    exact advance_setNode differ apart contest ⟨rfl, rfl, rfl, rfl⟩ (Or.inl rfl)

omit exact equal differ heard in
theorem contest_resolve (contest : Contest repoID file a b ma mb net)
    (chosen : net.next rt repoID [a, b] (.resolve a file "local" b) = some after) :
    Contest repoID file a b ma mb after ∧
      heldHash repoID file after a = heldHash repoID file net a ∧
      ∃ k ∈ after.flight, About repoID file k ∧ k.src = a := by
  obtain ⟨-, rfl⟩ := next_resolve chosen
  have frame := resolveAt_frame repoID [a, b] net a file "local" b
  have rows : ∀ q, ((resolveAt repoID [a, b] net a file "local" b).node q).db.get repoID file =
      (net.node q).db.get repoID file := by
    intro q
    rw [resolveAt_row, if_neg (fun h => absurd h.2.1 (by decide))]
  obtain ⟨r, row, version, origin⟩ := contest.own
  refine ⟨⟨?_, ?_, ?_, ?_, ?_⟩, heldHash_same (rows a), ?_⟩
  · rw [(frame a).1, (frame b).1]
    exact contest.named
  · rw [(frame a).2.2.2, (frame b).2.2.2]
    exact contest.known
  · rw [rows]
    exact contest.own
  · rw [rows]
    exact contest.other
  · intro k member about
    rcases resolveAt_flight member with old | ⟨src, there, away, -, -, content⟩
    · exact contest.flights k old about
    · obtain ⟨m, found, update⟩ :=
        (content.resolve_right (fun other => absurd other.1 (by decide))).2
      cases Option.some.inj (row.symm.trans found)
      refine Or.inr ⟨src, by simpa [away] using there, by rw [update, ← version]; rfl, ?_⟩
      intro keeps
      rcases origin with rfl | ⟨loses, -⟩
      · rw [update]
        exact tells_metadataUpdate _ _ _
      · exact absurd keeps loses
  · have sent : .sendToPeer b (.fileMetadataUpdate repoID (metadataUpdate (net.node a) file r.size
        (Binary64.wrapUint64 r.version) r.hash r.localLastModified r.isDeleted r.mode)) ∈
        (handleConflictResolution (net.node a) repoID file "local" b).out := by
      simp only [handleConflictResolution, row]
      exact List.mem_cons_self
    exact ⟨_, List.mem_append_right _ (packets_send [a, b] sent (by simp) apart.symm),
      ⟨rfl, rfl⟩, rfl⟩

theorem reported_run {late : Net} (start : Contest repoID file a b ma mb net ∧
      (¬ Keeps a b ma mb → heldHash repoID file net a = mb.hash)) (reached : Reach (net = ·)
      (Guarded (Runs (Net.next rt repoID [a, b]))
        (fun net move => settleMove repoID file a b ma mb net move = true)) late) :
    Contest repoID file a b ma mb late ∧
      (¬ Keeps a b ma mb → heldHash repoID file late a = mb.hash) := by
  refine reach_invariant (fun s => Contest repoID file a b ma mb s ∧
    (¬ Keeps a b ma mb → heldHash repoID file s a = mb.hash)) ?_ ?_ reached
  · rintro s rfl
    exact start
  · rintro s move t ⟨contest, taken⟩ ⟨moved, listed⟩
    have step := advance_next exact equal differ heard apart rt contest moved listed
    exact ⟨step.contest, fun loses => step.own (taken loses)⟩

theorem answered_run {late : Net} (contest : Contest repoID file a b ma mb net)
    (sent : ∃ k ∈ net.flight, About repoID file k ∧ k.src = a) (reached : Reach (net = ·)
      (Guarded (Runs (Net.next rt repoID [a, b]))
        (fun net move => settleMove repoID file a b ma mb net move = true)) late) :
    Contest repoID file a b ma mb late ∧
      ((∃ k ∈ late.flight, About repoID file k ∧ k.src = a) ∨
        (Keeps a b ma mb → Yielded a b ma mb → heldHash repoID file late b = ma.hash)) := by
  refine reach_invariant (fun s => Contest repoID file a b ma mb s ∧
    ((∃ k ∈ s.flight, About repoID file k ∧ k.src = a) ∨
      (Keeps a b ma mb → Yielded a b ma mb → heldHash repoID file s b = ma.hash))) ?_ ?_ reached
  · rintro s rfl
    exact ⟨contest, Or.inl sent⟩
  · rintro s move t ⟨before, ahead⟩ ⟨moved, listed⟩
    have step := advance_next exact equal differ heard apart rt before moved listed
    refine ⟨step.contest, ?_⟩
    rcases ahead with ⟨k, member, about, src⟩ | done
    · rcases step.heard k member about src with waits | done
      · exact Or.inl ⟨k, waits, about, src⟩
      · exact Or.inr done
    · exact Or.inr (fun keeps yielded => step.other keeps (done keeps yielded))

omit heard in
/-- The peer reports a conflict, its user keeps the own side, and every message about
the file is delivered: both peers then have that content exactly if the automatic
rule had favoured it at both of them. -/
theorem local_choice_prevails_iff (start : Contest repoID file a b ma mb net) {i : Nat}
    {k : Packet} {now : Int} {missing : Bool} {first mid late : Net}
    (at_ : net.flight[i]? = some k) (about : About repoID file k) (src : k.src = b)
    (delivered : net.next rt repoID [a, b] (.deliver i now missing) = some first)
    (reported : ∃ versions, .sendIpc (.conflictDetected file versions) ∈
      (handlePeerMetadataUpdate rt (net.node a) now missing b repoID k.update).2)
    (before : Reach (first = ·)
      (Guarded (Runs (Net.next rt repoID [a, b]))
        (fun net move => settleMove repoID file a b ma mb net move = true)) mid)
    (chosen : mid.next rt repoID [a, b] (.resolve a file "local" b) = some after)
    (settled : Reach (after = ·)
      (Guarded (Runs (Net.next rt repoID [a, b]))
        (fun net move => settleMove repoID file a b ma mb net move = true)) late)
    (quiet : ∀ k ∈ late.flight, ¬ About repoID file k) :
    heldHash repoID file late a = ma.hash ∧ heldHash repoID file late b = ma.hash ↔
      Keeps a b ma mb ∧ Yielded a b ma mb := by
  have heard : ignoredPath file = false := by
    obtain ⟨versions, sent⟩ := reported
    refine Bool.eq_false_iff.mpr (fun ignored => ?_)
    rw [peer_ignored rt now missing (by rw [about.2]; exact ignored)] at sent
    cases sent
  obtain ⟨k', there, rfl⟩ := next_deliver delivered
  cases Option.some.inj (at_.symm.trans there)
  obtain ⟨-, dst, tells⟩ := (start.flights k (List.mem_of_getElem? at_) about).resolve_right
    (fun own => apart (own.1.symm.trans src))
  obtain ⟨step, taken⟩ := advance_report exact equal differ heard apart start rt at_ now missing
    about src dst tells
  obtain ⟨contest, taken⟩ := reported_run exact equal differ heard apart rt ⟨step.contest, taken⟩
    before
  obtain ⟨contest', kept, sent⟩ := contest_resolve apart rt contest chosen
  rw [← kept] at taken
  obtain ⟨-, lost⟩ := reported_run exact equal differ heard apart rt ⟨contest', taken⟩ settled
  obtain ⟨last, ahead⟩ := answered_run exact equal differ heard apart rt contest' sent settled
  obtain ⟨x, rowx, -, originx⟩ := last.own
  obtain ⟨y, rowy, -, originy⟩ := last.other
  rw [heldHash_row rowx] at lost ⊢
  rw [heldHash_row rowy] at ahead ⊢
  constructor
  · rintro ⟨own, other⟩
    have keeps : Keeps a b ma mb := not_not.mp (fun loses => differ (own ▸ lost loses))
    refine ⟨keeps, ?_⟩
    rcases originy keeps with rfl | ⟨yielded, -⟩
    · exact absurd other.symm differ
    · exact yielded
  · rintro ⟨keeps, yielded⟩
    refine ⟨?_, ?_⟩
    · rcases originx with rfl | ⟨loses, -⟩
      · rfl
      · exact absurd keeps loses
    · rcases ahead with ⟨k, member, about, -⟩ | done
      · exact absurd about (quiet k member)
      · exact done keeps yielded

end Run

end LocalChoice

def addedRecord (p hash : String) (time : Int) : FileMetadata :=
  recordedMeta ((Net.tracking "r" "/r").node p) "r" ⟨.add, "f", hash, 1, time, 420⟩

def addedTogether (time : Int) : Net :=
  change "r" ["a", "b"] (change "r" ["a", "b"] (Net.tracking "r" "/r") "a" 0
    ⟨.add, "f", "ha", 1, time, 420⟩) "b" 0 ⟨.add, "f", "hb", 1, 5, 420⟩

theorem addedTogether_contest {time : Int} (either : time = 5 ∨ time = 6) :
    Contest "r" "f" "a" "b" (addedRecord "a" "ha" time) (addedRecord "b" "hb" 5)
      (addedTogether time) := by
  have flights : ∀ x y k : Packet, k ∈ [x, y] → k = x ∨ k = y := by simp
  rcases either with rfl | rfl
  all_goals
    refine ⟨by decide, by decide, ⟨_, rfl, rfl, Or.inl rfl⟩, ⟨_, rfl, rfl, fun _ => Or.inl rfl⟩, ?_⟩
    intro k member _
    rcases flights _ _ k member with rfl | rfl
    · exact Or.inr ⟨rfl, rfl, rfl, fun _ => ⟨rfl, rfl, rfl, rfl⟩⟩
    · exact Or.inl ⟨rfl, rfl, ⟨rfl, rfl, rfl, rfl⟩⟩

def reportedTogether (time : Int) : Net :=
  ((addedTogether time).next .plain "r" ["a", "b"] (.deliver 1 0 false)).getD (addedTogether time)

def keptTogether (time : Int) : Net :=
  resolveAt "r" ["a", "b"] (reportedTogether time) "a" "f" "local" "b"

theorem local_choice_prevails_iff_addedTogether : ∃ late : Net,
    heldHash "r" "f" late "a" = "ha" ∧ heldHash "r" "f" late "b" = "ha" := by
  obtain ⟨late, reached, quiet⟩ := reach_of_replay (Net.next .plain "r" ["a", "b"])
    (fun net move => settleMove "r" "f" "a" "b" (addedRecord "a" "ha" 6) (addedRecord "b" "hb" 5)
      net move = true) (.start (rfl : keptTogether 6 = _))
    [.deliver 0 0 false, .deliver 0 0 false] (fun late => late.flight = []) (by decide +kernel)
  have prevails := local_choice_prevails_iff ⟨by decide, by decide, by decide⟩ (by decide) (by decide)
    (by decide) .plain (addedTogether_contest (Or.inr rfl)) (i := 1) rfl ⟨rfl, rfl⟩ rfl
    (rfl : _ = some (reportedTogether 6)) ⟨_, List.mem_cons_self⟩ (.start rfl) rfl reached
    (by rw [quiet]; simp)
  exact ⟨late, prevails.mpr (by decide)⟩

theorem local_choice_sends_other :
    Contest "r" "f" "a" "b" (addedRecord "a" "ha" 5) (addedRecord "b" "hb" 5) (addedTogether 5) ∧
    (addedTogether 5).next .plain "r" ["a", "b"] (.deliver 1 0 false) =
      some (reportedTogether 5) ∧
    (∃ k versions, (addedTogether 5).flight[1]? = some k ∧
      .sendIpc (.conflictDetected "f" versions) ∈
        (handlePeerMetadataUpdate .plain ((addedTogether 5).node "a") 0 false "b" "r" k.update).2) ∧
    (reportedTogether 5).next .plain "r" ["a", "b"] (.resolve "a" "f" "local" "b") =
      some (keptTogether 5) ∧
    ∃ late, Reach (keptTogether 5 = ·)
      (Guarded (Runs (Net.next .plain "r" ["a", "b"]))
        (fun net move => settleMove "r" "f" "a" "b" (addedRecord "a" "ha" 5)
          (addedRecord "b" "hb" 5) net move = true)) late ∧
      late.flight = [] ∧ heldHash "r" "f" late "a" = "hb" ∧ heldHash "r" "f" late "b" = "hb" := by
  refine ⟨addedTogether_contest (Or.inl rfl), rfl, ⟨_, _, rfl, List.mem_cons_self⟩, rfl, ?_⟩
  exact reach_of_replay (Net.next .plain "r" ["a", "b"])
    (fun net move => settleMove "r" "f" "a" "b" (addedRecord "a" "ha" 5) (addedRecord "b" "hb" 5)
      net move = true) (.start rfl) [.deliver 0 0 false, .deliver 0 0 false] _ (by decide +kernel)

end P2PSync
