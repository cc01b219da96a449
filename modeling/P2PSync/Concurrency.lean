import P2PSync.Network

/-! What a reported conflict says about the changes behind it. The resolver sees
a conflict where two numbers are equal. That is concurrency only while each of
two peers waits with its next change until the other has processed the last. -/
namespace P2PSync

open Transition

/-- Neither author had processed the other change. -/
def Concurrent (h : History) (e f : Edit) : Prop :=
  e ≠ f ∧ e ∉ h.before f ∧ f ∉ h.before e

instance (h : History) (e f : Edit) : Decidable (Concurrent h e f) :=
  inferInstanceAs (Decidable (_ ∧ _ ∧ _))

/-! The numbers of changes. A change that is only just made is in no history. -/

structure Counted (net : Net) : Prop where
  past : ∀ p f, ∀ e ∈ net.hist.past p f, e.number < net.hist.count e.peer
  before : ∀ e, ∀ f ∈ net.hist.before e, f.number < net.hist.count f.peer
  sent : ∀ k ∈ net.flight, ∀ e ∈ k.past, e.number < net.hist.count e.peer

section Count

variable {net after : Net} {repoID : String} {peers : List String}

theorem recorded_count (h : History) (p path hash : String) (e : Edit) :
    e.number < (h.recorded p path hash).count e.peer ↔
      e.number < h.count e.peer ∨ e = ⟨p, h.count p⟩ := by
  obtain ⟨q, n⟩ := e
  by_cases same : q = p
  · subst same
    simp only [History.recorded, setAt_self, Edit.mk.injEq, true_and]
    omega
  · simp [History.recorded, setAt_other _ _ same, same]

theorem counted_change (counted : Counted net) (p : String) (now : Int)
    (payload : FileChangedPayload) : Counted (change repoID peers net p now payload) := by
  by_cases recorded : Recorded (net.node p) repoID payload
  · have grown := recorded_count net.hist p (relativePath (net.node p) repoID payload.path)
      payload.hash
    have hist : (change repoID peers net p now payload).hist =
        net.hist.recorded p (relativePath (net.node p) repoID payload.path) payload.hash :=
      if_pos recorded
    have past : ∀ q f, ∀ e ∈ (change repoID peers net p now payload).hist.past q f,
        e.number < (change repoID peers net p now payload).hist.count e.peer := by
      intro q f e member
      rw [hist, History.recorded_past] at member
      rw [hist, grown]
      split at member
      · rcases List.mem_cons.mp member with new | old
        · exact Or.inr new
        · exact Or.inl (counted.past p _ e old)
      · exact Or.inl (counted.past q f e member)
    refine ⟨past, ?_, ?_⟩
    · intro e f member
      rw [hist] at member ⊢
      rw [grown]
      simp only [History.recorded] at member
      split at member
      · exact Or.inl (counted.past p _ f member)
      · exact Or.inl (counted.before e f member)
    · intro k member e there
      rcases List.mem_append.mp member with old | new
      · rw [hist, grown]
        exact Or.inl (counted.sent k old e there)
      · rw [(packets_spec peers new).2.2.2.2.1] at there
        exact past p _ e there
  · rw [change_dropped now recorded]
    exact counted

theorem counted_deliver (counted : Counted net) (rt : Runtime) {i : Nat} {k : Packet}
    (at_ : net.flight[i]? = some k) (now : Int) (missing : Bool) :
    Counted (deliver rt peers net (net.flight.eraseIdx i) k now missing) := by
  have taken := counted.sent k (List.mem_of_getElem? at_)
  have left : ∀ x ∈ net.flight.eraseIdx i, x ∈ net.flight :=
    fun x h => (mem_eraseIdx_or at_).mpr (Or.inr h)
  cases ignored : ignoredPath k.update.path with
  | true =>
    rw [deliver_ignored now missing ignored]
    exact ⟨counted.past, counted.before, fun x member => counted.sent x (left x member)⟩
  | false =>
    have hist := deliver_hist rt peers net (net.flight.eraseIdx i) now missing ignored
    have past : ∀ q f, ∀ e ∈
        (deliver rt peers net (net.flight.eraseIdx i) k now missing).hist.past q f,
        e.number < net.hist.count e.peer := by
      intro q f e member
      rw [hist, History.processed_past] at member
      split at member
      · rcases List.mem_append.mp member with carried | old
        · exact taken e carried
        · exact counted.past _ _ e old
      · exact counted.past q f e member
    have count : (deliver rt peers net (net.flight.eraseIdx i) k now missing).hist.count =
        net.hist.count := by rw [hist]; rfl
    refine ⟨by rw [count]; exact past, ?_, ?_⟩
    · rw [count, hist]
      exact counted.before
    · intro x member e there
      rw [count]
      rcases List.mem_append.mp member with old | new
      · exact counted.sent x (left x old) e there
      · rw [(packets_spec peers new).2.2.2.2.1] at there
        exact past k.dst k.update.path e there

theorem counted_next (counted : Counted net) (rt : Runtime) {move : Move}
    (moved : net.next rt repoID peers move = some after) : Counted after := by
  cases move with
  | change p now payload =>
    obtain ⟨-, -, rfl⟩ := next_change moved
    exact counted_change counted p now payload
  | deliver i now missing =>
    obtain ⟨k, at_, rfl⟩ := next_deliver moved
    exact counted_deliver counted rt at_ now missing
  | resolve p path resolution peerID =>
    obtain ⟨-, rfl⟩ := next_resolve moved
    refine ⟨counted.past, counted.before, ?_⟩
    intro k member e there
    rcases List.mem_append.mp member with old | new
    · exact counted.sent k old e there
    · rw [(packets_spec peers new).2.2.2.2.1] at there
      exact counted.past p path e there
  | fetch => cases moved; exact ⟨counted.past, counted.before, counted.sent⟩
  | respond => cases moved; exact ⟨counted.past, counted.before, counted.sent⟩
  | retry => cases moved; exact ⟨counted.past, counted.before, counted.sent⟩

theorem counted_initial (start : net.Initial repoID peers) : Counted net := by
  refine ⟨?_, ?_, ?_⟩
  · simp [start.unwritten, History.empty]
  · simp [start.unwritten, History.empty]
  · simp [start.quiet]

end Count

section Steady

variable (repoID file a b : String)

/-- Changes that have content, with hashes that were not there before, and what
follows from them. Conflict decisions of users are no changes. -/
def editMove (net : Net) : Move → Bool
  | .change _ _ payload => 0 < payload.size ∧ payload.hash ∉ net.hist.hashes
  | .resolve .. => false
  | _ => true

/-- A peer changes the file when the other has processed its last change, and what
it has not heard of yet has the number its own change gets. A number is new and
survives the wire; a download brings the content of the row. -/
def steadyMove (net : Net) : Move → Bool
  | .change p _ payload =>
    ¬ Changes repoID file net p payload ∨
      (payload.hash ≠ "" ∧ held repoID file net p + 1 < 2 ^ 53 ∧
        ((net.node p).db.get repoID file).all (fun m => !reusesVersion m payload) ∧
        ∀ k ∈ net.flight, k.update.path = file → k.src ≠ p ∧
          (k.update.decodedVersion : Int) = held repoID file net p + 1)
  | .respond p _ env _ payload =>
    clean payload.path ≠ file ∨
      (((net.node p).db.get repoID file).any (fun m => m.hash = payload.hash) ∧
        ((net.node p).pendingDownloads.lookup (pendingKey file payload.hash)).all
          (fun details => !finalFailure env payload details))
  | _ => true

structure Underway (net : Net) (k : Packet) : Prop where
  exact : WireExact k.update.decodedVersion
  positive : 0 < k.update.decodedVersion
  content : k.update.hash ≠ "" ∧ k.update.hash ∈ net.hist.hashes
  number : (k.update.decodedVersion : Int) = held repoID file net k.src
  bound : held repoID file net k.dst ≤ k.update.decodedVersion
  differ : heldHash repoID file net k.dst ≠ k.update.hash
  own : k.edit ∈ k.past ∧ k.past ⊆ net.hist.past k.src file
  unheard : k.edit ∉ net.hist.past k.dst file
  current : net.hist.origin k.src file ∈ k.past ∨
    net.hist.origin k.src file ∈ net.hist.past k.dst file
  level : held repoID file net k.dst = k.update.decodedVersion →
    Concurrent net.hist k.edit (net.hist.origin k.dst file)
  above : held repoID file net k.dst < k.update.decodedVersion →
    net.hist.origin k.src file = k.edit ∧
      ∀ m, (net.node k.dst).db.get repoID file = some m →
        net.hist.origin k.dst file ∈ net.hist.before k.edit

structure Steady (net : Net) : Prop where
  known : ∀ p ∈ [a, b], repoID ∈ (net.node p).db.repositories
  rows : ∀ p ∈ [a, b], ∀ m, (net.node p).db.get repoID file = some m →
    WireExact m.version ∧ m.hash ∈ net.hist.hashes ∧
      net.hist.origin p file ∈ net.hist.past p file
  flights : ∀ k ∈ net.flight, k.src ∈ [a, b] ∧ k.dst ∈ [a, b] ∧ k.src ≠ k.dst ∧ k.repoID = repoID
  underway : ∀ k ∈ net.flight, k.update.path = file → Underway repoID file net k
  /-- A peer has at most one message about the file on the way. -/
  single : net.flight.Pairwise (fun k l =>
    k.update.path = file → l.update.path = file → k.src ≠ l.src)
  /-- A peer with no message on the way has nothing that the other lacks. -/
  rest : ∀ p ∈ [a, b], ∀ q ∈ [a, b], p ≠ q →
    (∀ k ∈ net.flight, k.update.path = file → k.src ≠ q) →
    held repoID file net q ≤ held repoID file net p ∧
      ∀ m, (net.node q).db.get repoID file = some m →
        net.hist.origin q file ∈ net.hist.past p file

structure LeavesFile (net after : Net) : Prop where
  rows : ∀ p, ((after.node p).db.get repoID file).map (fun m => (m.version, m.hash)) =
    ((net.node p).db.get repoID file).map (fun m => (m.version, m.hash))
  origin : ∀ p, after.hist.origin p file = net.hist.origin p file
  past : ∀ p, after.hist.past p file = net.hist.past p file
  before : ∀ e, e.number < net.hist.count e.peer → after.hist.before e = net.hist.before e
  hashes : net.hist.hashes ⊆ after.hist.hashes

variable {repoID file a b} {net after : Net}

theorem LeavesFile.held (untouched : LeavesFile repoID file net after) (p : String) :
    held repoID file after p = held repoID file net p := by
  have same := untouched.rows p
  unfold P2PSync.held
  cases old : (net.node p).db.get repoID file <;>
    cases new : (after.node p).db.get repoID file <;> simp_all [rowVersion]

theorem LeavesFile.heldHash (untouched : LeavesFile repoID file net after) (p : String) :
    heldHash repoID file after p = heldHash repoID file net p := by
  have same := untouched.rows p
  unfold P2PSync.heldHash
  cases old : (net.node p).db.get repoID file <;>
    cases new : (after.node p).db.get repoID file <;> simp_all [rowHash]

theorem LeavesFile.row (untouched : LeavesFile repoID file net after) {p : String}
    {m : FileMetadata} (row : (after.node p).db.get repoID file = some m) :
    ∃ m', (net.node p).db.get repoID file = some m' ∧ m'.version = m.version ∧ m'.hash = m.hash := by
  have same := untouched.rows p
  rw [row, Option.map_some] at same
  obtain ⟨m', old, eq⟩ := Option.map_eq_some_iff.mp same.symm
  exact ⟨m', old, (Prod.mk.inj eq).1, (Prod.mk.inj eq).2⟩

section

variable (steady : Steady repoID file a b net) (counted : Counted net)

include steady counted

theorem Steady.origin_counted {p : String} (inside : p ∈ [a, b])
    (positive : 0 < held repoID file net p) :
    (net.hist.origin p file).number < net.hist.count (net.hist.origin p file).peer := by
  cases row : (net.node p).db.get repoID file with
  | none => simp [held, row, rowVersion] at positive
  | some m => exact counted.past p file _ (steady.rows p inside m row).2.2

theorem underway_untouched (untouched : LeavesFile repoID file net after) {k : Packet}
    (member : k ∈ net.flight) (here : k.update.path = file) : Underway repoID file after k := by
  have old := steady.underway k member here
  have made := counted.sent k member k.edit old.own.1
  refine ⟨old.exact, old.positive, ⟨old.content.1, untouched.hashes old.content.2⟩, ?_, ?_, ?_, ?_,
    ?_, ?_, ?_, ?_⟩
  · rw [untouched.held]
    exact old.number
  · rw [untouched.held]
    exact old.bound
  · rw [untouched.heldHash]
    exact old.differ
  · rw [untouched.past]
    exact old.own
  · rw [untouched.past]
    exact old.unheard
  · rw [untouched.origin, untouched.past]
    exact old.current
  · intro equal
    rw [untouched.held] at equal
    have positive := old.positive
    have origin := steady.origin_counted counted (steady.flights k member).2.1 (by omega)
    rw [Concurrent, untouched.origin, untouched.before _ made, untouched.before _ origin]
    exact old.level equal
  · intro less
    rw [untouched.held] at less
    obtain ⟨sender, receiver⟩ := old.above less
    rw [untouched.origin, untouched.origin, untouched.before _ made]
    refine ⟨sender, fun m row => ?_⟩
    obtain ⟨m', found, -⟩ := untouched.row row
    exact receiver m' found

theorem steady_untouched (untouched : LeavesFile repoID file net after)
    (known : ∀ p, (after.node p).db.repositories = (net.node p).db.repositories)
    (flights : ∀ k ∈ after.flight, k ∈ net.flight ∨ k.src ∈ [a, b] ∧ k.dst ∈ [a, b] ∧
      k.src ≠ k.dst ∧ k.repoID = repoID ∧ k.update.path ≠ file)
    (kept : ∀ k ∈ net.flight, k.update.path = file → k ∈ after.flight)
    (single : after.flight.Pairwise (fun k l =>
      k.update.path = file → l.update.path = file → k.src ≠ l.src)) :
    Steady repoID file a b after := by
  refine ⟨?_, ?_, ?_, ?_, single, ?_⟩
  · intro p inside
    rw [known]
    exact steady.known p inside
  · intro p inside m row
    obtain ⟨m', found, version, hash⟩ := untouched.row row
    obtain ⟨exact_, listed, origin⟩ := steady.rows p inside m' found
    rw [untouched.origin, untouched.past, ← version, ← hash]
    exact ⟨exact_, untouched.hashes listed, origin⟩
  · intro k member
    rcases flights k member with old | ⟨src, dst, away, repo, -⟩
    · exact steady.flights k old
    · exact ⟨src, dst, away, repo⟩
  · intro k member here
    rcases flights k member with old | ⟨-, -, -, -, elsewhere⟩
    · exact underway_untouched steady counted untouched old here
    · exact absurd here elsewhere
  · intro p inp q inq apart none
    obtain ⟨bound, origin⟩ := steady.rest p inp q inq apart
      (fun k member here => none k (kept k member here) here)
    rw [untouched.held, untouched.held, untouched.origin, untouched.past]
    refine ⟨bound, fun m row => ?_⟩
    obtain ⟨m', found, -⟩ := untouched.row row
    exact origin m' found

end

theorem new_edit {h : History} {p : String} {e : Edit} (made : e.number < h.count e.peer) :
    e ≠ ⟨p, h.count p⟩ := by
  rintro rfl
  exact absurd made (lt_irrefl _)

theorem other_peer {p x y : String} (inp : p ∈ [a, b]) (inx : x ∈ [a, b]) (iny : y ∈ [a, b])
    (left : x ≠ p) (right : y ≠ p) : x = y := by
  simp only [List.mem_cons, List.not_mem_nil, or_false] at inp inx iny
  rcases inp with rfl | rfl <;> rcases inx with rfl | rfl <;> rcases iny with rfl | rfl <;>
    first | rfl | exact absurd rfl left | exact absurd rfl right

section

variable (steady : Steady repoID file a b net) (counted : Counted net) {p : String}
  (inside : p ∈ [a, b]) (now : Int) {payload : FileChangedPayload}
  (recorded : Recorded (net.node p) repoID payload)
  (elsewhere : relativePath (net.node p) repoID payload.path ≠ file)

include steady counted inside recorded elsewhere

omit counted in
theorem leaves_change : LeavesFile repoID file net (change repoID [a, b] net p now payload) := by
  have known := steady.known p inside
  have hist := change_hist [a, b] now recorded known
  refine ⟨?_, ?_, ?_, ?_, ?_⟩
  · intro q
    rw [change_row [a, b] now recorded known, if_neg]
    rintro ⟨-, place⟩
    exact elsewhere (Prod.mk.inj place).2.symm
  · intro q
    rw [hist, History.recorded_origin, if_neg (fun h => elsewhere h.2.symm)]
  · intro q
    rw [hist, History.recorded_past, if_neg (fun h => elsewhere h.2.symm)]
  · intro e made
    rw [hist]
    exact if_neg (new_edit made)
  · rw [hist]
    exact List.subset_cons_self _ _

theorem steady_change_elsewhere :
    Steady repoID file a b (change repoID [a, b] net p now payload) := by
  have flight := change_flight [a, b] now recorded (steady.known p inside)
  have sent : ∀ k ∈ announcements [a, b] net repoID p payload, k.src ∈ [a, b] ∧ k.dst ∈ [a, b] ∧
      k.src ≠ k.dst ∧ k.repoID = repoID ∧ k.update.path ≠ file := by
    intro k member
    obtain ⟨-, q, there, away, rfl⟩ := mem_announcements.mp member
    exact ⟨inside, there, away.symm, rfl, elsewhere⟩
  refine steady_untouched steady counted (leaves_change steady inside now recorded elsewhere) ?_ ?_
    ?_ ?_
  · exact fun q => (change_frame repoID [a, b] net p payload now q).2.2.2
  · intro k member
    rw [flight] at member
    exact (List.mem_append.mp member).imp id (sent k)
  · intro k member _
    rw [flight]
    exact List.mem_append_left _ member
  · rw [flight]
    refine List.pairwise_append.mpr ⟨steady.single, ?_, ?_⟩
    · exact List.pairwise_of_forall_mem_list
        (fun k member l _ here => absurd here (sent k member).2.2.2.2)
    · exact fun k _ l member _ here => absurd here (sent l member).2.2.2.2

end

theorem new_number {sc : SyncCoordinator} {payload : FileChangedPayload} {row : Option FileMetadata}
    (here : sc.db.get repoID (relativePath sc repoID payload.path) = row)
    (exact : ∀ m, row = some m → WireExact m.version) (small : rowVersion row + 1 < 2 ^ 53)
    (fresh : row.all (fun m => !reusesVersion m payload) = true) :
    nextVersion row payload = rowVersion row + 1 ∧
      ((recordedUpdate sc repoID payload).decodedVersion : Int) = rowVersion row + 1 ∧
      WireExact (rowVersion row + 1) := by
  have nonneg : 0 ≤ rowVersion row := by
    cases row with
    | none => exact le_refl _
    | some m => exact (exact m rfl).nonneg
  have next : nextVersion row payload = rowVersion row + 1 := by
    cases row with
    | none => rfl
    | some m =>
      rw [Option.all_some, Bool.not_eq_true'] at fresh
      simp only [nextVersion, fresh, rowVersion, Bool.false_eq_true, if_false] at small nonneg ⊢
      exact Binary64.wrapInt64_of_range (by omega) (by omega)
  have wrap : (Binary64.wrapUint64 (rowVersion row + 1) : Int) = rowVersion row + 1 :=
    Binary64.wrapUint64_of_range (by omega) (by omega)
  have back : (Binary64.toUint64 (Binary64.wrapUint64 (rowVersion row + 1)) : Int) =
      rowVersion row + 1 := by
    rw [Binary64.toUint64_small (by omega)]
    exact wrap
  refine ⟨next, ?_, ⟨by omega, by omega, back⟩⟩
  simp only [recordedUpdate, metadataUpdate, Update.decodedVersion, here, next]
  exact back

structure Made (repoID file : String) (net after : Net) (p hash : String) : Prop where
  own : ∃ m, (after.node p).db.get repoID file = some m ∧
    m.version = held repoID file net p + 1 ∧ WireExact m.version ∧ m.hash = hash
  others : ∀ q, q ≠ p →
    (after.node q).db.get repoID file = (net.node q).db.get repoID file
  hist : after.hist = net.hist.recorded p file hash

theorem change_made (steady : Steady repoID file a b net) {p : String} (inside : p ∈ [a, b])
    (now : Int) {payload : FileChangedPayload} (changes : Changes repoID file net p payload)
    (small : held repoID file net p + 1 < 2 ^ 53)
    (fresh : ((net.node p).db.get repoID file).all (fun m => !reusesVersion m payload) = true) :
    Made repoID file net (change repoID [a, b] net p now payload) p payload.hash := by
  obtain ⟨recorded, here⟩ := changes
  have known := steady.known p inside
  have rows := change_row [a, b] now recorded known
  rw [here] at rows
  obtain ⟨next, -, exact_⟩ := new_number (by rw [here])
    (fun m row => (steady.rows p inside m row).1) small fresh
  refine ⟨⟨_, by rw [rows, if_pos ⟨rfl, rfl⟩], ?_, ?_, rfl⟩, ?_, ?_⟩
  · simp only [recordedMeta, localMeta, here, next, held]
  · simp only [recordedMeta, localMeta, here, next]
    exact exact_
  · intro q other
    rw [rows, if_neg (fun h => other h.1)]
  · rw [change_hist [a, b] now recorded known, here]

namespace Made

variable {p hash : String} (made : Made repoID file net after p hash)

include made

theorem held_self : held repoID file after p = held repoID file net p + 1 := by
  obtain ⟨m, row, version, -⟩ := made.own
  rw [held_row row, version]

theorem heldHash_self : heldHash repoID file after p = hash := by
  obtain ⟨m, row, -, -, same⟩ := made.own
  rw [heldHash, row, rowHash, same]

theorem held_other {q : String} (other : q ≠ p) :
    held repoID file after q = held repoID file net q :=
  held_same (made.others q other)

theorem origin_self : after.hist.origin p file = ⟨p, net.hist.count p⟩ := by
  rw [made.hist, History.recorded_origin, if_pos ⟨rfl, rfl⟩]

theorem origin_other {q : String} (other : q ≠ p) :
    after.hist.origin q file = net.hist.origin q file := by
  rw [made.hist, History.recorded_origin, if_neg (fun h => other h.1)]

theorem past_self : after.hist.past p file = ⟨p, net.hist.count p⟩ :: net.hist.past p file := by
  rw [made.hist, History.recorded_past, if_pos ⟨rfl, rfl⟩]

theorem past_other {q : String} (other : q ≠ p) :
    after.hist.past q file = net.hist.past q file := by
  rw [made.hist, History.recorded_past, if_neg (fun h => other h.1)]

theorem before_new : after.hist.before ⟨p, net.hist.count p⟩ = net.hist.past p file := by
  rw [made.hist]
  exact if_pos rfl

theorem before_old {e : Edit} (old : e.number < net.hist.count e.peer) :
    after.hist.before e = net.hist.before e := by
  rw [made.hist]
  exact if_neg (new_edit old)

theorem hashes : after.hist.hashes = hash :: net.hist.hashes := by
  rw [made.hist]
  rfl

theorem concurrent_new (counted : Counted net) {e : Edit} (old : e.number < net.hist.count e.peer)
    (unheard : e ∉ net.hist.past p file) : Concurrent after.hist e ⟨p, net.hist.count p⟩ := by
  refine ⟨new_edit old, ?_, ?_⟩
  · rw [made.before_new]
    exact unheard
  · rw [made.before_old old]
    exact fun earlier => new_edit (counted.before e _ earlier) rfl

end Made

theorem Concurrent.symm {h : History} {e f : Edit} (apart : Concurrent h e f) : Concurrent h f e :=
  ⟨apart.1.symm, apart.2.2, apart.2.1⟩

theorem announced_once {p : String} (inside : p ∈ [a, b]) {payload : FileChangedPayload}
    {R : Packet → Packet → Prop} : (announcements [a, b] net repoID p payload).Pairwise R := by
  have one : ([a, b].filter (· ≠ p)).Pairwise (fun _ _ => False) := by
    simp only [List.mem_cons, List.not_mem_nil, or_false] at inside
    rcases inside with rfl | rfl
    · by_cases same : b = p <;> simp [same]
    · by_cases same : a = p <;> simp [same]
  unfold announcements
  split
  · exact one.map _ (fun _ _ none => none.elim)
  · exact .nil

section Change

variable (steady : Steady repoID file a b net) (counted : Counted net) {p hash : String}
  (made : Made repoID file net after p hash) (inside : p ∈ [a, b])
  (new : hash ∉ net.hist.hashes)

include steady counted made inside new

theorem underway_crossed {l : Packet} (member : l ∈ net.flight) (here : l.update.path = file)
    (away : l.src ≠ p) (number : (l.update.decodedVersion : Int) = held repoID file net p + 1) :
    Underway repoID file after l := by
  have old := steady.underway l member here
  obtain ⟨ins, ind, differ, -⟩ := steady.flights l member
  have dst : l.dst = p := other_peer ins ind inside differ.symm away.symm
  have old_edit := counted.sent l member l.edit old.own.1
  have unheard := old.unheard
  rw [dst] at unheard
  refine ⟨old.exact, old.positive, ⟨old.content.1, ?_⟩, ?_, ?_, ?_, ⟨old.own.1, ?_⟩, ?_, ?_, ?_, ?_⟩
  · rw [made.hashes]
    exact List.mem_cons_of_mem _ old.content.2
  · rw [made.held_other away]
    exact old.number
  · rw [dst, made.held_self]
    exact number.ge
  · rw [dst, made.heldHash_self]
    rintro rfl
    exact new old.content.2
  · rw [made.past_other away]
    exact old.own.2
  · rw [dst, made.past_self, List.mem_cons]
    rintro (same | heard)
    · exact new_edit old_edit same
    · exact unheard heard
  · rw [dst, made.origin_other away, made.past_self]
    refine old.current.imp id (fun heard => ?_)
    rw [dst] at heard
    exact List.mem_cons_of_mem _ heard
  · intro _
    rw [dst, made.origin_self]
    exact made.concurrent_new counted old_edit unheard
  · intro less
    rw [dst, made.held_self] at less
    omega

omit counted made new in
theorem other_behind {q : String} {number : Int} (next : number = held repoID file net p + 1)
    (quiet : ∀ l ∈ net.flight, l.update.path = file → l.src ≠ p ∧
      (l.update.decodedVersion : Int) = held repoID file net p + 1)
    (there : q ∈ [a, b]) (away : q ≠ p) :
    held repoID file net q < number ∧ (∀ m, (net.node q).db.get repoID file = some m →
        net.hist.origin q file ∈ net.hist.past p file) ∨
      held repoID file net q = number ∧ net.hist.origin q file ∉ net.hist.past p file := by
  by_cases crossed : ∃ l ∈ net.flight, l.update.path = file
  · obtain ⟨l, member, here⟩ := crossed
    obtain ⟨leaves, same⟩ := quiet l member here
    obtain ⟨ins, ind, differ, -⟩ := steady.flights l member
    have dst : l.dst = p := other_peer ins ind inside differ.symm leaves.symm
    have sender : l.src = q := other_peer inside ins there leaves away
    have old := steady.underway l member here
    have level := old.number
    have unheard := old.unheard
    have origin := (old.above (by rw [dst]; omega)).1
    rw [sender] at level origin
    rw [dst] at unheard
    exact Or.inr ⟨by omega, origin ▸ unheard⟩
  · push Not at crossed
    obtain ⟨bound, origin⟩ := steady.rest p inside q there away.symm
      (fun l member here => absurd here (crossed l member))
    exact Or.inl ⟨by omega, origin⟩

theorem underway_announced (quiet : ∀ l ∈ net.flight, l.update.path = file → l.src ≠ p ∧
      (l.update.decodedVersion : Int) = held repoID file net p + 1) {k : Packet} (src : k.src = p)
    (there : k.dst ∈ [a, b]) (away : k.dst ≠ p) (edit : k.edit = ⟨p, net.hist.count p⟩)
    (past : k.past = ⟨p, net.hist.count p⟩ :: net.hist.past p file)
    (number : (k.update.decodedVersion : Int) = held repoID file net p + 1)
    (content : k.update.hash = hash) (filled : hash ≠ "") : Underway repoID file after k := by
  obtain ⟨m, row, version, exact_, -⟩ := made.own
  have nonneg := held_nonneg (fun m row => (steady.rows p inside m row).1)
  have behind := other_behind steady inside number quiet there away
  refine ⟨?_, by omega, ?_, ?_, ?_, ?_, ?_, ?_, ?_, ?_, ?_⟩
  · rw [number, ← version]
    exact exact_
  · rw [content, made.hashes]
    exact ⟨filled, List.mem_cons_self⟩
  · rw [src, made.held_self]
    exact number
  · rw [made.held_other away]
    rcases behind with ⟨less, -⟩ | ⟨equal, -⟩ <;> omega
  · rw [content, heldHash, made.others _ away]
    cases found : (net.node k.dst).db.get repoID file with
    | none => exact filled.symm
    | some r =>
      rintro rfl
      exact new (steady.rows k.dst there r found).2.1
  · rw [src, edit, past, made.past_self]
    exact ⟨List.mem_cons_self, List.Subset.refl _⟩
  · rw [edit, made.past_other away]
    exact fun heard => new_edit (counted.past _ _ _ heard) rfl
  · rw [src, made.origin_self, past]
    exact Or.inl List.mem_cons_self
  · intro equal
    rw [made.held_other away] at equal
    have unheard : net.hist.origin k.dst file ∉ net.hist.past p file := by
      rcases behind with ⟨less, -⟩ | ⟨-, unheard⟩
      · omega
      · exact unheard
    have origin := steady.origin_counted counted there (by omega)
    rw [edit, made.origin_other away]
    exact (made.concurrent_new counted origin unheard).symm
  · intro less
    rw [made.held_other away] at less
    rw [src, edit, made.origin_self, made.origin_other away, made.before_new, made.others _ away]
    rcases behind with ⟨-, origin⟩ | ⟨equal, -⟩
    · exact ⟨rfl, origin⟩
    · omega

omit counted new inside in
theorem Made.rows {q : String} (inq : q ∈ [a, b]) {m : FileMetadata}
    (row : (after.node q).db.get repoID file = some m) :
    WireExact m.version ∧ m.hash ∈ after.hist.hashes ∧
      after.hist.origin q file ∈ after.hist.past q file := by
  by_cases same : q = p
  · subst same
    obtain ⟨m', own, -, exact_, hash⟩ := made.own
    cases Option.some.inj (row.symm.trans own)
    rw [made.hashes, made.origin_self, made.past_self, hash]
    exact ⟨exact_, List.mem_cons_self, List.mem_cons_self⟩
  · rw [made.others q same] at row
    obtain ⟨exact_, listed, origin⟩ := steady.rows q inq m row
    rw [made.hashes, made.origin_other same, made.past_other same]
    exact ⟨exact_, List.mem_cons_of_mem _ listed, origin⟩

omit counted new in
theorem Made.rest {q : String} (inq : q ∈ [a, b]) (other : q ≠ p)
    (none : ∀ k ∈ net.flight, k.update.path = file → k.src ≠ q) :
    held repoID file after q ≤ held repoID file after p ∧
      ∀ m, (after.node q).db.get repoID file = some m →
        after.hist.origin q file ∈ after.hist.past p file := by
  obtain ⟨bound, origin⟩ := steady.rest p inside q inq other.symm none
  rw [made.held_self, made.held_other other, made.origin_other other, made.past_self,
    made.others q other]
  exact ⟨by omega, fun m row => List.mem_cons_of_mem _ (origin m row)⟩

end Change

section

variable (steady : Steady repoID file a b net) (counted : Counted net) {p : String}
  (inside : p ∈ [a, b]) {now : Int} {payload : FileChangedPayload}
  (changes : Changes repoID file net p payload)
  (listed : editMove net (.change p now payload) = true)
  (good : steadyMove repoID file net (.change p now payload) = true)

include steady counted inside changes listed good

theorem steady_change_here : Steady repoID file a b (change repoID [a, b] net p now payload) := by
  obtain ⟨sized, new⟩ := of_decide_eq_true listed
  obtain ⟨filled, small, fresh, quiet⟩ :=
    (of_decide_eq_true good).resolve_left (not_not.mpr changes)
  have made := change_made steady inside now changes small fresh
  obtain ⟨recorded, here⟩ := changes
  have known := steady.known p inside
  have flight := change_flight [a, b] now recorded known
  obtain ⟨-, number, -⟩ := new_number (by rw [here])
    (fun m row => (steady.rows p inside m row).1) small fresh
  have sent : ∀ k ∈ announcements [a, b] net repoID p payload, k.src = p ∧ k.dst ∈ [a, b] ∧
      k.dst ≠ p ∧ k.repoID = repoID ∧
      Underway repoID file (change repoID [a, b] net p now payload) k := by
    intro k member
    obtain ⟨-, q, there, away, rfl⟩ := mem_announcements.mp member
    refine ⟨rfl, there, away, rfl, ?_⟩
    exact underway_announced steady counted made inside new quiet rfl there away rfl
      (by rw [here]) number rfl filled
  refine ⟨?_, ?_, ?_, ?_, ?_, ?_⟩
  · intro q inq
    rw [(change_frame repoID [a, b] net p payload now q).2.2.2]
    exact steady.known q inq
  · intro q inq m row
    exact Made.rows steady made inq row
  · intro k member
    rw [flight] at member
    rcases List.mem_append.mp member with old | fresh
    · exact steady.flights k old
    · obtain ⟨src, there, away, repo, -⟩ := sent k fresh
      exact ⟨src ▸ inside, there, src ▸ away.symm, repo⟩
  · intro k member path
    rw [flight] at member
    rcases List.mem_append.mp member with old | fresh
    · obtain ⟨away, next⟩ := quiet k old path
      exact underway_crossed steady counted made inside new old path away next
    · exact (sent k fresh).2.2.2.2
  · rw [flight]
    refine List.pairwise_append.mpr ⟨steady.single, ?_, ?_⟩
    · exact announced_once inside
    · intro k old l fresh path _
      rw [(sent l fresh).1]
      exact (quiet k old path).1
  · intro r inr q inq apart none
    by_cases same : q = p
    · -- the announcement of the new change is on the way
      subst same
      have told : ∃ k ∈ announcements [a, b] net repoID q payload,
          k.src = q ∧ k.update.path = file :=
        ⟨_, mem_announcements.mpr ⟨decide_eq_true (Or.inl sized), r, inr, apart, rfl⟩, rfl, here⟩
      obtain ⟨k, member, src, path⟩ := told
      exact absurd src (none k (flight ▸ List.mem_append_right _ member) path)
    · obtain rfl : r = p := other_peer inq inr inside apart (Ne.symm same)
      exact Made.rest steady made inside inq same
        (fun k member path => none k (flight ▸ List.mem_append_left _ member) path)

omit changes in
theorem steady_change : Steady repoID file a b (change repoID [a, b] net p now payload) := by
  by_cases changes : Changes repoID file net p payload
  · exact steady_change_here steady counted inside changes listed good
  · by_cases recorded : Recorded (net.node p) repoID payload
    · exact steady_change_elsewhere steady counted inside now recorded
        (fun here => changes ⟨recorded, here⟩)
    · rw [change_dropped now recorded]
      exact steady

end

section Deliver

variable (steady : Steady repoID file a b net) (rt : Runtime) {i : Nat} {k : Packet}
  (at_ : net.flight[i]? = some k) (now : Int) (missing : Bool)

include steady at_

theorem leaves_deliver (elsewhere : k.update.path ≠ file) : LeavesFile repoID file net
    (deliver rt [a, b] net (net.flight.eraseIdx i) k now missing) := by
  obtain ⟨-, ind, -, repo⟩ := steady.flights k (List.mem_of_getElem? at_)
  cases ignored : ignoredPath k.update.path with
  | true =>
    rw [deliver_ignored now missing ignored]
    exact ⟨fun _ => rfl, fun _ => rfl, fun _ => rfl, fun _ _ => rfl, List.Subset.refl _⟩
  | false =>
    have known : k.repoID ∈ (net.node k.dst).db.repositories := repo ▸ steady.known k.dst ind
    have hist := deliver_hist rt [a, b] net (net.flight.eraseIdx i) now missing ignored
    refine ⟨?_, ?_, ?_, ?_, ?_⟩
    · intro q
      rw [deliver_row rt [a, b] _ now missing ignored known, if_neg]
      rintro ⟨-, -, place⟩
      exact elsewhere (Prod.mk.inj place).2.symm
    · intro q
      rw [hist, History.processed_origin, if_neg (fun h => elsewhere h.2.2.symm)]
    · intro q
      rw [hist, History.processed_past, if_neg (fun h => elsewhere h.2.symm)]
    · intro e _
      rw [hist]
      rfl
    · rw [hist]
      exact List.Subset.refl _

theorem steady_deliver_elsewhere (counted : Counted net) (elsewhere : k.update.path ≠ file) :
    Steady repoID file a b (deliver rt [a, b] net (net.flight.eraseIdx i) k now missing) := by
  obtain ⟨ins, ind, away, repo⟩ := steady.flights k (List.mem_of_getElem? at_)
  have leaves := leaves_deliver steady rt at_ now missing elsewhere
  have left : ∀ x ∈ net.flight.eraseIdx i, x ∈ net.flight :=
    fun x h => (mem_eraseIdx_or at_).mpr (Or.inr h)
  have stays : ∀ x ∈ net.flight, x.update.path = file → x ∈ net.flight.eraseIdx i := by
    intro x member here
    refine ((mem_eraseIdx_or at_).mp member).resolve_left ?_
    rintro rfl
    exact elsewhere here
  have single := steady.single.sublist (List.eraseIdx_sublist _ i)
  cases ignored : ignoredPath k.update.path with
  | true =>
    rw [deliver_ignored now missing ignored] at leaves ⊢
    exact steady_untouched steady counted leaves (fun _ => rfl)
      (fun x member => Or.inl (left x member)) stays single
  | false =>
    obtain ⟨replies, flight, sent⟩ :=
      deliver_replies rt [a, b] net (net.flight.eraseIdx i) now missing ignored
    have about : ∀ x ∈ replies, x.src ∈ [a, b] ∧ x.dst ∈ [a, b] ∧ x.src ≠ x.dst ∧
        x.repoID = repoID ∧ x.update.path ≠ file := by
      intro x member
      obtain ⟨-, -, m, -, -, -, rfl⟩ := sent x member
      exact ⟨ind, ins, away.symm, repo, elsewhere⟩
    refine steady_untouched steady counted leaves ?_ ?_ ?_ ?_
    · exact fun q => (deliver_frame rt [a, b] net _ k now missing q).2.2.2
    · intro x member
      rw [flight] at member
      exact (List.mem_append.mp member).imp (left x) (about x)
    · intro x member here
      rw [flight]
      exact List.mem_append_left _ (stays x member here)
    · rw [flight]
      refine List.pairwise_append.mpr ⟨single, ?_, ?_⟩
      · exact List.pairwise_of_forall_mem_list
          (fun x member y _ here => absurd here (about x member).2.2.2.2)
      · exact fun x _ y member _ here => absurd here (about y member).2.2.2.2

/-- What a message about the file does: the receiver ends with its number, and
with its content or the one it had. -/
structure Taken (repoID file : String) (net after : Net) (k : Packet) (rest : List Packet) :
    Prop where
  flight : after.flight = rest
  row : ∃ m, (after.node k.dst).db.get repoID file = some m ∧
    m.version = k.update.decodedVersion ∧ m.hash ∈ net.hist.hashes
  others : ∀ q, q ≠ k.dst → (after.node q).db.get repoID file = (net.node q).db.get repoID file
  origin : after.hist.origin k.dst file = k.edit ∨
    after.hist.origin k.dst file = net.hist.origin k.dst file ∧
      ((net.node k.dst).db.get repoID file).isSome
  elsewhere : ∀ q, q ≠ k.dst → after.hist.origin q file = net.hist.origin q file ∧
    after.hist.past q file = net.hist.past q file
  past : after.hist.past k.dst file = k.past ++ net.hist.past k.dst file
  before : after.hist.before = net.hist.before
  hashes : after.hist.hashes = net.hist.hashes

omit at_ in
theorem underway_outcome (member : k ∈ net.flight) (here : k.update.path = file) :
    (decision (net.node k.dst) k.src repoID k.update).action = .acceptRemote ∨
      (decision (net.node k.dst) k.src repoID k.update).action = .keepLocal ∧
        (decision (net.node k.dst) k.src repoID k.update).isConflict = true ∧
        ∃ m, (net.node k.dst).db.get repoID file = some m ∧
          m.version = k.update.decodedVersion := by
  have old := steady.underway k member here
  have exact_ := fun m row => (steady.rows k.dst (steady.flights k member).2.1 m row).1
  have numbers := decision_numbers k.src here exact_
  have bound := old.bound
  have positive := old.positive
  cases decided : (decision (net.node k.dst) k.src repoID k.update).action with
  | acceptRemote => exact Or.inl rfl
  | skip =>
    rw [decided] at numbers
    exact absurd numbers.symm old.differ
  | keepLocal =>
    rw [decided] at numbers
    refine Or.inr ⟨rfl, (conflict_numbers k.src here exact_).mpr ⟨old.differ, by omega⟩, ?_⟩
    cases row : (net.node k.dst).db.get repoID file with
    | none =>
      simp only [held, row, rowVersion] at numbers
      omega
    | some m =>
      rw [held_row row] at numbers bound
      exact ⟨m, rfl, by omega⟩

theorem deliver_taken (heard : ignoredPath file = false) (here : k.update.path = file) :
    Taken repoID file net (deliver rt [a, b] net (net.flight.eraseIdx i) k now missing) k
      (net.flight.eraseIdx i) := by
  have member := List.mem_of_getElem? at_
  obtain ⟨ins, ind, away, repo⟩ := steady.flights k member
  have old := steady.underway k member here
  have outcome := underway_outcome steady member here
  have open_ : ignoredPath k.update.path = false := here ▸ heard
  have known : k.repoID ∈ (net.node k.dst).db.repositories := repo ▸ steady.known k.dst ind
  have rows := deliver_row rt [a, b] (net.flight.eraseIdx i) now missing open_ known
  have hist := deliver_hist rt [a, b] net (net.flight.eraseIdx i) now missing open_
  obtain ⟨replies, flight, sent⟩ :=
    deliver_replies rt [a, b] net (net.flight.eraseIdx i) now missing open_
  rw [repo, here] at rows
  rw [here] at hist
  rw [repo] at hist
  have past := History.processed_past net.hist k.dst file k
    (decide ((decision (net.node k.dst) k.src repoID k.update).action = .acceptRemote))
  have origin := History.processed_origin net.hist k.dst file k
    (decide ((decision (net.node k.dst) k.src repoID k.update).action = .acceptRemote))
  have silent : replies = [] := by
    refine List.eq_nil_iff_forall_not_mem.mpr (fun x member => ?_)
    obtain ⟨keep, quiet, -⟩ := sent x member
    rw [repo] at keep quiet
    rcases outcome with accept | ⟨-, conflict, -⟩
    · rw [accept] at keep
      cases keep
    · rw [quiet] at conflict
      cases conflict
  refine ⟨by rw [flight, silent, List.append_nil], ?_, ?_, ?_, ?_, ?_, by rw [hist]; rfl,
    by rw [hist]; rfl⟩
  · rw [rows]
    rcases outcome with accept | ⟨keep, -, m, row, version⟩
    · rw [if_pos ⟨accept, rfl, rfl⟩]
      refine ⟨_, rfl, ?_, old.content.2⟩
      simp only [acceptedMeta, old.exact.stored]
    · rw [if_neg (by simp [keep])]
      exact ⟨m, row, version, (steady.rows k.dst ind m row).2.1⟩
  · intro q other
    rw [rows, if_neg (fun h => other h.2.1)]
  · rw [hist, origin]
    rcases outcome with accept | ⟨keep, -, m, row, -⟩
    · exact Or.inl (if_pos ⟨decide_eq_true accept, rfl, rfl⟩)
    · exact Or.inr ⟨if_neg (by simp [keep]), by simp [row]⟩
  · intro q other
    rw [hist, past, origin, if_neg (fun h => other h.2.1), if_neg (fun h => other h.1)]
    exact ⟨rfl, rfl⟩
  · rw [hist, past, if_pos ⟨rfl, rfl⟩]

theorem left_crosses (here : k.update.path = file) {l : Packet} (rest : l ∈ net.flight.eraseIdx i)
    (path : l.update.path = file) : l.src = k.dst ∧ l.dst = k.src := by
  obtain ⟨ins, ind, away, -⟩ := steady.flights k (List.mem_of_getElem? at_)
  obtain ⟨lins, lind, laway, -⟩ := steady.flights l (List.mem_of_mem_eraseIdx rest)
  obtain ⟨bound, rfl⟩ := List.getElem?_eq_some_iff.mp at_
  have whole := (List.Perm.pairwise_iff (fun h x y => (h y x).symm)
    (List.getElem_cons_eraseIdx_perm bound)).mpr steady.single
  have differ := List.rel_of_pairwise_cons whole rest here path
  have src := other_peer ins lins ind differ.symm away.symm
  exact ⟨src, other_peer ind lind ins (src ▸ laway.symm) away⟩

section After

variable (taken : Taken repoID file net after k (net.flight.eraseIdx i))
include taken

omit steady at_ in
theorem Taken.held_self : held repoID file after k.dst = k.update.decodedVersion := by
  obtain ⟨m, row, version, -⟩ := taken.row
  rw [held_row row, version]

omit steady at_ in
theorem Taken.held_other {q : String} (other : q ≠ k.dst) :
    held repoID file after q = held repoID file net q :=
  held_same (taken.others q other)

variable (here : k.update.path = file)
include here

theorem Taken.rows {q : String} (inq : q ∈ [a, b]) {m : FileMetadata}
    (found : (after.node q).db.get repoID file = some m) :
    WireExact m.version ∧ m.hash ∈ after.hist.hashes ∧
      after.hist.origin q file ∈ after.hist.past q file := by
  have old := steady.underway k (List.mem_of_getElem? at_) here
  rw [taken.hashes]
  by_cases same : q = k.dst
  · subst same
    obtain ⟨m', row, version, listed⟩ := taken.row
    cases Option.some.inj (found.symm.trans row)
    refine ⟨version ▸ old.exact, listed, ?_⟩
    rw [taken.past]
    rcases taken.origin with own | ⟨stays, some⟩
    · rw [own]
      exact List.mem_append_left _ old.own.1
    · obtain ⟨r, was⟩ := Option.isSome_iff_exists.mp some
      rw [stays]
      exact List.mem_append_right _ (steady.rows _ inq r was).2.2
  · rw [taken.others q same] at found
    rw [(taken.elsewhere q same).1, (taken.elsewhere q same).2]
    exact steady.rows q inq m found

theorem Taken.underway {l : Packet} (left : l ∈ net.flight.eraseIdx i)
    (path : l.update.path = file) : Underway repoID file after l := by
  have member := List.mem_of_getElem? at_
  have away := (steady.flights k member).2.2.1
  have old := steady.underway k member here
  obtain ⟨src, dst⟩ := left_crosses steady at_ here left path
  have was := steady.underway l (List.mem_of_mem_eraseIdx left) path
  have sender := was.number
  have receiver := was.bound
  have number := old.number
  have bound := old.bound
  rw [src] at sender
  rw [dst] at receiver
  obtain ⟨origin, past⟩ := taken.elsewhere k.src away
  refine ⟨was.exact, was.positive, ?_, ?_, ?_, ?_, ⟨was.own.1, ?_⟩, ?_, ?_, ?_, ?_⟩
  · rw [taken.hashes]
    exact was.content
  · rw [src, taken.held_self]
    omega
  · rw [dst, taken.held_other away]
    exact receiver
  · rw [dst, heldHash, taken.others _ away]
    exact dst ▸ was.differ
  · rw [src, taken.past]
    exact List.Subset.trans (src ▸ was.own.2) (List.subset_append_right _ _)
  · rw [dst, past]
    exact dst ▸ was.unheard
  · rw [src, dst, past]
    rcases taken.origin with own | ⟨stays, -⟩
    · rw [own]
      exact Or.inr (old.own.2 old.own.1)
    · rw [stays]
      exact dst ▸ src ▸ was.current
  · intro equal
    rw [dst, taken.held_other away, ← dst] at equal
    rw [Concurrent, taken.before, dst, origin, ← dst]
    exact was.level equal
  · intro less
    rw [dst, taken.held_other away] at less
    omega

theorem Taken.sender_heard : held repoID file after k.src ≤ held repoID file after k.dst ∧
    after.hist.origin k.src file ∈ after.hist.past k.dst file := by
  have member := List.mem_of_getElem? at_
  have away := (steady.flights k member).2.2.1
  have old := steady.underway k member here
  have number := old.number
  rw [taken.held_self, taken.held_other away, taken.past, (taken.elsewhere _ away).1]
  refine ⟨number.ge, ?_⟩
  rcases old.current with sent | heard
  · exact List.mem_append_left _ sent
  · exact List.mem_append_right _ heard

theorem Taken.receiver_known
    (none : ∀ l ∈ net.flight.eraseIdx i, l.update.path = file → l.src ≠ k.dst) :
    held repoID file after k.dst ≤ held repoID file after k.src ∧
      after.hist.origin k.dst file ∈ after.hist.past k.src file := by
  have member := List.mem_of_getElem? at_
  obtain ⟨ins, ind, away, -⟩ := steady.flights k member
  have old := steady.underway k member here
  rw [taken.held_self, taken.held_other away, (taken.elsewhere k.src away).2]
  refine ⟨old.number.le, ?_⟩
  rcases taken.origin with edit | ⟨stays, some⟩
  · rw [edit]
    exact old.own.2 old.own.1
  · obtain ⟨w, was⟩ := Option.isSome_iff_exists.mp some
    rw [stays]
    refine (steady.rest k.src ins k.dst ind away ?_).2 w was
    intro l there path
    rcases (mem_eraseIdx_or at_).mp there with rfl | rest
    · exact away
    · exact none l rest path

end After

theorem steady_deliver_here (heard : ignoredPath file = false) (here : k.update.path = file) :
    Steady repoID file a b (deliver rt [a, b] net (net.flight.eraseIdx i) k now missing) := by
  obtain ⟨ins, ind, away, -⟩ := steady.flights k (List.mem_of_getElem? at_)
  have taken := deliver_taken steady rt at_ now missing heard here
  have frame := deliver_frame rt [a, b] net (net.flight.eraseIdx i) k now missing
  generalize deliver rt [a, b] net (net.flight.eraseIdx i) k now missing = after at taken frame
  refine ⟨?_, ?_, ?_, ?_, ?_, ?_⟩
  · intro q inq
    rw [(frame q).2.2.2]
    exact steady.known q inq
  · intro q inq m found
    exact Taken.rows steady at_ taken here inq found
  · intro l there
    rw [taken.flight] at there
    exact steady.flights l (List.mem_of_mem_eraseIdx there)
  · intro l there path
    rw [taken.flight] at there
    exact Taken.underway steady at_ taken here there path
  · rw [taken.flight]
    exact steady.single.sublist (List.eraseIdx_sublist _ i)
  · intro r inr q inq differ none
    rw [taken.flight] at none
    by_cases same : q = k.dst
    · subst same
      obtain rfl : r = k.src := other_peer inq inr ins differ away
      obtain ⟨bound, known⟩ := Taken.receiver_known steady at_ taken here none
      exact ⟨bound, fun _ _ => known⟩
    · obtain rfl : q = k.src := other_peer ind inq ins same away
      obtain rfl : r = k.dst := other_peer ins inr ind differ away.symm
      obtain ⟨bound, known⟩ := Taken.sender_heard steady at_ taken here
      exact ⟨bound, fun _ _ => known⟩

end Deliver

theorem leaves_setNode {p : String} {sc : SyncCoordinator}
    (row : (sc.db.get repoID file).map (fun m => (m.version, m.hash)) =
      ((net.node p).db.get repoID file).map (fun m => (m.version, m.hash))) :
    LeavesFile repoID file net (setNode net p sc) := by
  refine ⟨?_, fun _ => rfl, fun _ => rfl, fun _ _ => rfl, List.Subset.refl _⟩
  exact setNode_forall (P := fun q sc => (sc.db.get repoID file).map (fun m => (m.version, m.hash)) =
    ((net.node q).db.get repoID file).map (fun m => (m.version, m.hash))) row (fun _ _ => rfl)

theorem leaves_respond (rt : Runtime) {p : String} {now : Int} {env : Env} {peerID : String}
    {payload : FileResponsePayload}
    (good : steadyMove repoID file net (.respond p now env peerID payload) = true) :
    LeavesFile repoID file net
      (setNode net p (handleFileResponse rt (net.node p) now env peerID payload).sc) := by
  apply leaves_setNode
  rcases response_row rt (net.node p) now env peerID payload repoID file with
    same | ⟨details, consumed, place, written⟩
  · rw [same]
  · obtain ⟨repo, path⟩ := Prod.mk.inj place
    obtain ⟨wanted, lasting⟩ := (of_decide_eq_true good).resolve_left (not_not.mpr path.symm)
    rcases written with ⟨data, digest, row⟩ | ⟨final, -⟩
    · cases old : (net.node p).db.get repoID file with
      | none =>
        rw [old] at wanted
        cases wanted
      | some m =>
        rw [old, Option.any_some, decide_eq_true_eq] at wanted
        rw [row]
        simp only [Option.map_some, inlineMeta, ← repo, old, digest, wanted]
    · have found := consumed.2.2.2
      rw [← path] at found
      rw [found, Option.all_some, final] at lasting
      cases lasting

theorem steady_setNode (steady : Steady repoID file a b net) (counted : Counted net) {p : String}
    {sc : SyncCoordinator} (frame : sc.db.repositories = (net.node p).db.repositories)
    (leaves : LeavesFile repoID file net (setNode net p sc)) :
    Steady repoID file a b (setNode net p sc) := by
  refine steady_untouched steady counted leaves ?_ (fun k member => Or.inl member)
    (fun k member _ => member) steady.single
  exact setNode_forall (P := fun q sc => sc.db.repositories = (net.node q).db.repositories) frame
    (fun _ _ => rfl)

section Run

variable (heard : ignoredPath file = false) (rt : Runtime)

theorem steady_initial (start : net.Initial repoID [a, b]) : Steady repoID file a b net := by
  refine ⟨start.known, ?_, ?_, ?_, ?_, ?_⟩
  · intro p inside m row
    rw [start.blank p inside] at row
    cases row
  · simp [start.quiet]
  · simp [start.quiet]
  · simp [start.quiet]
  · intro p inp q inq _ _
    simp [held, start.blank p inp, start.blank q inq]

include heard

theorem steady_next (steady : Steady repoID file a b net) (counted : Counted net) {move : Move}
    (moved : net.next rt repoID [a, b] move = some after) (listed : editMove net move = true)
    (good : steadyMove repoID file net move = true) : Steady repoID file a b after := by
  cases move with
  | change p now payload =>
    obtain ⟨inside, -, rfl⟩ := next_change moved
    exact steady_change steady counted inside listed good
  | deliver i now missing =>
    obtain ⟨k, at_, rfl⟩ := next_deliver moved
    by_cases here : k.update.path = file
    · exact steady_deliver_here steady rt at_ now missing heard here
    · exact steady_deliver_elsewhere steady rt at_ now missing counted here
  | fetch p sent =>
    cases moved
    exact steady_setNode steady counted (by rw [fetch_db]) (leaves_setNode (by rw [fetch_db]))
  | respond p now env peerID payload =>
    cases moved
    exact steady_setNode steady counted (response_frame rt _ now env peerID payload).2.2.2
      (leaves_respond rt good)
  | retry p now task =>
    cases moved
    exact steady_setNode steady counted rfl (leaves_setNode rfl)
  | resolve => cases listed

theorem steady_reach (reached : Reach (Net.Initial repoID [a, b])
      (Guarded (Runs (Net.next rt repoID [a, b])) (fun net move =>
        editMove net move = true ∧ steadyMove repoID file net move = true)) net) :
    Counted net ∧ Steady repoID file a b net := by
  refine reach_invariant (fun net => Counted net ∧ Steady repoID file a b net)
    (fun _ start => ⟨counted_initial start, steady_initial start⟩) ?_ reached
  rintro s move t ⟨counted, steady⟩ ⟨moved, listed, good⟩
  exact ⟨counted_next counted rt moved, steady_next heard rt steady counted moved listed good⟩

omit heard in
theorem Steady.conflict_iff (steady : Steady repoID file a b net) {k : Packet}
    (member : k ∈ net.flight) (here : k.update.path = file) {m : FileMetadata}
    (row : (net.node k.dst).db.get repoID file = some m) (differ : m.hash ≠ k.update.hash) :
    (decision (net.node k.dst) k.src repoID k.update).isConflict = true ↔
      Concurrent net.hist k.edit (net.hist.origin k.dst file) := by
  have underway := steady.underway k member here
  have inside := (steady.flights k member).2.1
  rw [conflict_numbers k.src here (fun m row => (steady.rows k.dst inside m row).1)]
  constructor
  · rintro ⟨-, equal⟩
    exact underway.level equal
  · intro concurrent
    refine ⟨by rw [heldHash, row]; exact differ, ?_⟩
    refine le_antisymm underway.bound (not_lt.mp (fun less => ?_))
    exact concurrent.2.2 ((underway.above less).2 m row)

end Run

end Steady

end P2PSync
