import P2PSync.Network

/-! When a change that builds on what another peer sent also comes after it for the
resolver. The number of a row tells which of two versions is later only while a peer
takes over the number of what it processed. -/
namespace P2PSync

open Transition

section Pair

variable (repoID file a b : String)

/-- A delivery keeps the number of `a` up with that of `b`: `a` does not skip a
higher number of `b` because the contents are equal, and `b` takes no number
from others that `a` does not have. -/
def levelDelivery (net : Net) (k : Packet) : Bool :=
  k.update.path ≠ file ∨ (k.update.decodedVersion : Int) ≤ held repoID file net a ∨
    ((k.dst = a → k.src = b → k.update.hash ≠ heldHash repoID file net a) ∧
      (k.dst = b → k.src ≠ a →
        (decision (net.node b) k.src repoID k.update).action ≠ .acceptRemote))

/-- The moves that keep the number of `a` up with that of `b`. In addition, every
number survives the wire, `b` announces what it records and gets no row from a
download alone, and `a` does not forget its row. -/
def levelMove (net : Net) : Move → Bool
  | .change p _ payload =>
    ¬ Changes repoID file net p payload ∨
      (((recordedUpdate (net.node p) repoID payload).decodedVersion : Int) =
          nextVersion ((net.node p).db.get repoID file) payload ∧
        (p = b → announced payload))
  | .deliver i _ _ => net.flight[i]?.all (levelDelivery repoID file a b net)
  | .respond p _ env _ payload =>
    clean payload.path ≠ file ∨
      ((p = a → ((net.node a).pendingDownloads.lookup (pendingKey file payload.hash)).all
          (fun details => !finalFailure env payload details)) ∧
        (p = b → ((net.node b).db.get repoID file).isSome))
  | .resolve p path resolution _ => p ≠ a ∨ path ≠ file ∨ resolution ≠ "remote"
  | _ => true

/-- The moves after a change of the other peer, until its message is processed:
`b` changes nothing itself and hears of no number as high as the new one. -/
def awaits (number : Int) (net : Net) : Move → Bool
  | .change p _ payload => p = b → ¬ Changes repoID file net p payload
  | .deliver i _ _ => net.flight[i]?.all (fun k =>
      k.dst ≠ b ∨ k.update.path ≠ file ∨ (k.update.decodedVersion : Int) < number)
  | .respond p _ _ _ payload =>
    p ≠ b ∨ clean payload.path ≠ file ∨ 1 < number ∨ ((net.node b).db.get repoID file).isSome
  | _ => true

def Reports (src dst : String) (k : Packet) : Prop :=
  k.src = src ∧ k.dst = dst ∧ k.update.path = file

instance (src dst : String) (k : Packet) : Decidable (Reports file src dst k) :=
  inferInstanceAs (Decidable (_ ∧ _ ∧ _))

structure Level (peers : List String) (net : Net) : Prop where
  known : ∀ p ∈ peers, repoID ∈ (net.node p).db.repositories
  rows : ∀ p ∈ peers, ∀ m, (net.node p).db.get repoID file = some m → WireExact m.version
  flights : ∀ k ∈ net.flight, k.src ∈ peers ∧ k.dst ∈ peers ∧ k.src ≠ k.dst ∧ k.repoID = repoID ∧
    (k.update.path = file → WireExact k.update.decodedVersion)
  /-- What `a` told `b` is not above what it stores. -/
  told : ∀ k ∈ net.flight, Reports file a b k →
    (k.update.decodedVersion : Int) ≤ held repoID file net a
  /-- What `b` stores is not above what `a` stores or is still to hear of. -/
  lead : held repoID file net b ≤ held repoID file net a ∨
    ∃ k ∈ net.flight, Reports file b a k ∧ held repoID file net b ≤ k.update.decodedVersion

variable {repoID file a b} {net after : Net} {peers : List String}

/-- What a move does to the numbers of the file: they survive the wire, `a` loses
none, and what `b` gains is known to `a` or on its way. -/
structure KeepsLead (repoID file a b : String) (peers : List String) (net after : Net) : Prop where
  rows : ∀ p ∈ peers, ∀ m, (after.node p).db.get repoID file = some m → WireExact m.version
  up : held repoID file net a ≤ held repoID file after a
  gain : held repoID file after b ≤ held repoID file net b ∨
    held repoID file after b ≤ held repoID file after a ∨
    ∃ k ∈ after.flight, Reports file b a k ∧ held repoID file after b ≤ k.update.decodedVersion

/-- A move that keeps the lead keeps the level, if a message that `a` takes leaves
its number behind and what is sent carries a number of the sender. -/
theorem level_of (before : Level repoID file a b peers net)
    (keeps : KeepsLead repoID file a b peers net after)
    (known : ∀ q, (after.node q).db.repositories = (net.node q).db.repositories)
    (sent : ∀ k ∈ after.flight, k ∈ net.flight ∨
      k.src ∈ peers ∧ k.dst ∈ peers ∧ k.src ≠ k.dst ∧ k.repoID = repoID ∧
        (k.update.path = file → WireExact k.update.decodedVersion ∧
          (k.src = a → (k.update.decodedVersion : Int) ≤ held repoID file after a)))
    (stay : ∀ k ∈ net.flight, Reports file b a k → k ∈ after.flight ∨
      (k.update.decodedVersion : Int) ≤ held repoID file after a) :
    Level repoID file a b peers after := by
  have up := keeps.up
  refine ⟨?_, keeps.rows, ?_, ?_, ?_⟩
  · intro q inq
    rw [known]
    exact before.known q inq
  · intro k member
    rcases sent k member with old | ⟨src, dst, away, repo, number⟩
    · exact before.flights k old
    · exact ⟨src, dst, away, repo, fun path => (number path).1⟩
  · intro k member report
    rcases sent k member with old | ⟨-, -, -, -, number⟩
    · exact (before.told k old report).trans up
    · exact (number report.2.2).2 report.1
  · rcases keeps.gain with gain | gain | gain
    · rcases before.lead with lead | ⟨k, member, report, lead⟩
      · exact Or.inl (by omega)
      · rcases stay k member report with there | taken
        · exact Or.inr ⟨k, there, report, by omega⟩
        · exact Or.inl (by omega)
    · exact Or.inl gain
    · exact Or.inr gain

theorem keepsLead_of_same (before : Level repoID file a b peers net)
    (same : ∀ q, (after.node q).db.get repoID file = (net.node q).db.get repoID file) :
    KeepsLead repoID file a b peers net after where
  rows := fun q inq m row => before.rows q inq m (same q ▸ row)
  up := (held_same (same a)).ge
  gain := Or.inl (held_same (same b)).le

section

variable (before : Level repoID file a b peers net) (ina : a ∈ peers) (apart : a ≠ b) {p : String}
  (inside : p ∈ peers) {payload : FileChangedPayload} (now : Int)

include before ina apart inside

theorem keepsLead_change (changes : Changes repoID file net p payload)
    (number : ((recordedUpdate (net.node p) repoID payload).decodedVersion : Int) =
      nextVersion ((net.node p).db.get repoID file) payload)
    (loud : p = b → announced payload = true) :
    KeepsLead repoID file a b peers net (change repoID peers net p now payload) := by
  have known := before.known p inside
  obtain ⟨survives, stored, grown⟩ := held_change peers now known (before.rows p inside) changes number
  have others : ∀ q, q ≠ p → ((change repoID peers net p now payload).node q).db.get repoID file =
      (net.node q).db.get repoID file := by
    intro q other
    rw [change_row peers now changes.1 known, if_neg (fun h => other h.1)]
  refine ⟨?_, ?_, ?_⟩
  · intro q inq m row
    by_cases same : q = p
    · subst same
      rw [← held_row row, stored]
      exact survives
    · exact before.rows q inq m (others q same ▸ row)
  · by_cases same : a = p
    · rw [same, stored]
      exact grown
    · exact (held_same (others a same)).ge
  · by_cases same : p = b
    · subst same
      right
      right
      -- the announcement to the other peer carries the new number
      have flight := change_flight peers now changes.1 known
      refine ⟨_, flight ▸ List.mem_append_right _ (mem_announcements.mpr
        ⟨loud rfl, a, ina, apart, rfl⟩), ⟨rfl, rfl, changes.2⟩, ?_⟩
      rw [stored]
      exact number.ge
    · exact Or.inl (held_same (others b (Ne.symm same))).le

theorem level_change (good : levelMove repoID file a b net (.change p now payload) = true) :
    Level repoID file a b peers (change repoID peers net p now payload) := by
  by_cases recorded : Recorded (net.node p) repoID payload
  · have known := before.known p inside
    have flight := change_flight peers now recorded known
    have frame : ∀ q, ((change repoID peers net p now payload).node q).db.repositories =
        (net.node q).db.repositories :=
      fun q => (change_frame repoID peers net p payload now q).2.2.2
    have stay : ∀ k ∈ net.flight, Reports file b a k →
        k ∈ (change repoID peers net p now payload).flight ∨ (k.update.decodedVersion : Int) ≤
          held repoID file (change repoID peers net p now payload) a :=
      fun k member _ => Or.inl (flight ▸ List.mem_append_left _ member)
    by_cases here : relativePath (net.node p) repoID payload.path = file
    · obtain ⟨number, loud⟩ := (of_decide_eq_true good).resolve_left (not_not.mpr ⟨recorded, here⟩)
      obtain ⟨survives, stored, -⟩ :=
        held_change peers now known (before.rows p inside) ⟨recorded, here⟩ number
      refine level_of before
        (keepsLead_change before ina apart inside now ⟨recorded, here⟩ number loud) frame ?_ stay
      intro k member
      rw [flight] at member
      rcases List.mem_append.mp member with old | new
      · exact Or.inl old
      · obtain ⟨-, q, there, away, rfl⟩ := mem_announcements.mp new
        refine Or.inr ⟨inside, there, away.symm, rfl, fun _ => ⟨number ▸ survives, ?_⟩⟩
        rintro rfl
        rw [stored]
        exact number.le
    · have same : ∀ q, ((change repoID peers net p now payload).node q).db.get repoID file =
          (net.node q).db.get repoID file := by
        intro q
        rw [change_row peers now recorded known, if_neg (fun h => here (Prod.mk.inj h.2).2.symm)]
      refine level_of before (keepsLead_of_same before same) frame ?_ stay
      intro k member
      rw [flight] at member
      rcases List.mem_append.mp member with old | new
      · exact Or.inl old
      · obtain ⟨-, q, there, away, rfl⟩ := mem_announcements.mp new
        exact Or.inr ⟨inside, there, away.symm, rfl, fun path => absurd path here⟩
  · rw [change_dropped now recorded]
    exact before

end

section Deliver

variable (before : Level repoID file a b peers net) (rt : Runtime) (rest : List Packet)
  {k : Packet} (member : k ∈ net.flight) (now : Int) (missing : Bool)
  (heard : ignoredPath k.update.path = false) (good : levelDelivery repoID file a b net k = true)
include before member heard good

theorem keepsLead_accept (apart : a ≠ b) (here : k.update.path = file)
    (accept : (decision (net.node k.dst) k.src repoID k.update).action = .acceptRemote) :
    KeepsLead repoID file a b peers net (deliver rt peers net rest k now missing) ∧
      held repoID file (deliver rt peers net rest k now missing) k.dst =
        k.update.decodedVersion := by
  obtain ⟨-, to_, -, repo, survives⟩ := before.flights k member
  have known : k.repoID ∈ (net.node k.dst).db.repositories := repo ▸ before.known k.dst to_
  have rows := deliver_row rt peers rest now missing heard known
  have number := decision_numbers k.src here (before.rows k.dst to_)
  rw [repo] at rows
  rw [accept] at number
  have row := rows k.dst repoID file
  rw [if_pos ⟨accept, rfl, by rw [here]⟩] at row
  have stored : held repoID file (deliver rt peers net rest k now missing) k.dst =
      k.update.decodedVersion := by
    rw [held_row row]
    simp only [acceptedMeta, (survives here).stored]
  have others : ∀ q, q ≠ k.dst →
      ((deliver rt peers net rest k now missing).node q).db.get repoID file =
        (net.node q).db.get repoID file := by
    intro q other
    rw [rows, if_neg (fun h => other h.2.1)]
  refine ⟨⟨?_, ?_, ?_⟩, stored⟩
  · intro q inq m found
    by_cases same : q = k.dst
    · subst same
      rw [← held_row found, stored]
      exact survives here
    · exact before.rows q inq m (others q same ▸ found)
  · by_cases same : a = k.dst
    · rw [same, stored]
      exact number
    · exact (held_same (others a same)).ge
  · by_cases same : b = k.dst
    · right
      left
      rw [same, stored, held_same (others a (same ▸ apart))]
      by_cases sender : k.src = a
      · exact before.told k member ⟨sender, same.symm, here⟩
      · rcases of_decide_eq_true good with elsewhere | low | ⟨-, refuses⟩
        · exact absurd here elsewhere
        · exact low
        · exact absurd (same ▸ accept) (refuses same.symm sender)
    · exact Or.inl (held_same (others b same)).le

omit heard in
theorem refused_low (report : Reports file b a k)
    (refused : (decision (net.node k.dst) k.src repoID k.update).action ≠ .acceptRemote) :
    (k.update.decodedVersion : Int) ≤ held repoID file net a := by
  have number := decision_numbers k.src report.2.2
    (before.rows k.dst (before.flights k member).2.1)
  cases decided : (decision (net.node k.dst) k.src repoID k.update).action with
  | acceptRemote => exact absurd decided refused
  | keepLocal =>
    rw [decided] at number
    rw [← report.2.1]
    exact number
  | skip =>
    rw [decided] at number
    rcases of_decide_eq_true good with elsewhere | low | ⟨differ, -⟩
    · exact absurd report.2.2 elsewhere
    · exact low
    · exact absurd (report.2.1 ▸ number) (differ report.2.1 report.1)

theorem keepsLead_deliver (apart : a ≠ b) :
    KeepsLead repoID file a b peers net (deliver rt peers net rest k now missing) ∧
      (Reports file b a k → (k.update.decodedVersion : Int) ≤
        held repoID file (deliver rt peers net rest k now missing) a) := by
  by_cases taken : (decision (net.node k.dst) k.src repoID k.update).action = .acceptRemote ∧
      k.update.path = file
  · obtain ⟨keeps, stored⟩ := keepsLead_accept before rt rest member now missing heard good apart
      taken.2 taken.1
    refine ⟨keeps, fun report => ?_⟩
    rw [← report.2.1, stored]
  · obtain ⟨-, to_, -, repo, -⟩ := before.flights k member
    have same : ∀ q, ((deliver rt peers net rest k now missing).node q).db.get repoID file =
        (net.node q).db.get repoID file := by
      intro q
      rw [deliver_row rt peers rest now missing heard (repo ▸ before.known k.dst to_), repo,
        if_neg (fun h => taken ⟨h.1, (Prod.mk.inj h.2.2).2.symm⟩)]
    refine ⟨keepsLead_of_same before same, fun report => ?_⟩
    rw [held_same (same a)]
    exact refused_low before member good report (fun accept => taken ⟨accept, report.2.2⟩)

end Deliver

theorem level_deliver (before : Level repoID file a b peers net) (apart : a ≠ b)
    (heard : ignoredPath file = false) (rt : Runtime) {i : Nat} {k : Packet}
    (at_ : net.flight[i]? = some k) (now : Int) (missing : Bool)
    (good : levelDelivery repoID file a b net k = true) :
    Level repoID file a b peers (deliver rt peers net (net.flight.eraseIdx i) k now missing) := by
  have member := List.mem_of_getElem? at_
  have frame : ∀ q, ((deliver rt peers net (net.flight.eraseIdx i) k now missing).node
      q).db.repositories = (net.node q).db.repositories :=
    fun q => (deliver_frame rt peers net _ k now missing q).2.2.2
  cases ignored : ignoredPath k.update.path with
  | true =>
    have same : ∀ q, ((deliver rt peers net (net.flight.eraseIdx i) k now missing).node q).db.get
        repoID file = (net.node q).db.get repoID file := by
      intro q
      rw [deliver_ignored now missing ignored]
    refine level_of before (keepsLead_of_same before same) frame ?_ ?_
    · intro x there
      rw [deliver_ignored now missing ignored] at there
      exact Or.inl (List.mem_of_mem_eraseIdx there)
    · intro x there report
      refine Or.inl (List.mem_append_left _
        (((mem_eraseIdx_or at_).mp there).resolve_left ?_))
      rintro rfl
      rw [report.2.2, heard] at ignored
      cases ignored
  | false =>
    obtain ⟨from_, to_, away, repo, -⟩ := before.flights k member
    obtain ⟨keeps, taken⟩ := keepsLead_deliver before rt (net.flight.eraseIdx i) member now missing
      ignored good apart
    refine level_of before keeps frame ?_ ?_
    · intro x there
      rcases deliver_flight ignored there with old | ⟨-, -, m, row, -, -, rfl⟩
      · exact Or.inl (List.mem_of_mem_eraseIdx old)
      · -- a reply carries the number of the row that was kept
        refine Or.inr ⟨to_, from_, away.symm, repo, fun path => ?_⟩
        have path : k.update.path = file := path
        rw [repo, path] at row
        have stored := before.rows k.dst to_ m row
        simp only [metadataUpdate, Update.decodedVersion, stored.exact]
        refine ⟨stored, fun own => ?_⟩
        rw [← held_row row, own]
        exact keeps.up
    · intro x there report
      rcases (mem_eraseIdx_or at_).mp there with rfl | rest
      · exact Or.inr (taken report)
      · exact Or.inl (List.mem_append_left _ rest)

theorem level_setNode (before : Level repoID file a b peers net) {p : String}
    {sc : SyncCoordinator} (known : sc.db.repositories = (net.node p).db.repositories)
    (rows : p ∈ peers → ∀ m, sc.db.get repoID file = some m → WireExact m.version)
    (up : p = a → held repoID file net p ≤ rowVersion (sc.db.get repoID file))
    (down : p = b → rowVersion (sc.db.get repoID file) ≤ held repoID file net p) :
    Level repoID file a b peers (setNode net p sc) := by
  have grows : ∀ q, q = a → held repoID file net q ≤ held repoID file (setNode net p sc) q :=
    setNode_forall (P := fun q sc => q = a → held repoID file net q ≤
      rowVersion (sc.db.get repoID file)) up (fun _ _ _ => le_refl _)
  have shrinks : ∀ q, q = b → held repoID file (setNode net p sc) q ≤ held repoID file net q :=
    setNode_forall (P := fun q sc => q = b → rowVersion (sc.db.get repoID file) ≤
      held repoID file net q) down (fun _ _ _ => le_refl _)
  refine level_of before ⟨?_, grows a rfl, Or.inl (shrinks b rfl)⟩ ?_
    (fun k member => Or.inl member) (fun k member _ => Or.inl member)
  · exact setNode_forall (P := fun q sc => q ∈ peers → ∀ m, sc.db.get repoID file = some m →
      WireExact m.version) rows (fun q _ => before.rows q)
  · exact setNode_forall (P := fun q sc => sc.db.repositories = (net.node q).db.repositories)
      known (fun _ _ => rfl)

theorem response_number (rt : Runtime) (sc : SyncCoordinator) (now : Int) (env : Env)
    (peerID : String) (payload : FileResponsePayload) (repoID file : String) :
    let row := (handleFileResponse rt sc now env peerID payload).sc.db.get repoID file
    rowVersion row = rowVersion (sc.db.get repoID file) ∧
        (row.isSome → (sc.db.get repoID file).isSome) ∨
      clean payload.path = file ∧
        (sc.db.get repoID file = none ∧ rowVersion row = 1 ∨
          row = none ∧ ∃ details, sc.pendingDownloads.lookup (pendingKey file payload.hash) =
            some details ∧ finalFailure env payload details = true) := by
  intro row
  rcases response_row rt sc now env peerID payload repoID file with
    same | ⟨details, consumed, place, ⟨data, -, written⟩ | ⟨final, purged⟩⟩
  · exact Or.inl ⟨congrArg rowVersion same, fun h => by rw [← same]; exact h⟩
  · obtain ⟨repo, path⟩ := Prod.mk.inj place
    cases old : sc.db.get repoID file with
    | some m =>
      refine Or.inl ⟨?_, fun _ => rfl⟩
      rw [show row = _ from written]
      simp only [rowVersion, inlineMeta, ← repo, old]
    | none =>
      refine Or.inr ⟨path.symm, Or.inl ⟨rfl, ?_⟩⟩
      rw [show row = _ from written]
      simp only [rowVersion, inlineMeta, ← repo, old]
  · obtain ⟨-, path⟩ := Prod.mk.inj place
    have found := consumed.2.2.2
    rw [← path] at found
    exact Or.inr ⟨path.symm, Or.inr ⟨purged, details, found, final⟩⟩

theorem level_respond (before : Level repoID file a b peers net) (inb : b ∈ peers) (rt : Runtime)
    {p : String} (now : Int) {env : Env} (peerID : String) {payload : FileResponsePayload}
    (good : levelMove repoID file a b net (.respond p now env peerID payload) = true) :
    Level repoID file a b peers
      (setNode net p (handleFileResponse rt (net.node p) now env peerID payload).sc) := by
  have frame := response_frame rt (net.node p) now env peerID payload
  have fine := of_decide_eq_true good
  rcases response_number rt (net.node p) now env peerID payload repoID file with
    ⟨same, found⟩ | ⟨path, ⟨blank, one⟩ | ⟨purged, details, pending, final⟩⟩
  · refine level_setNode before frame.2.2.2 ?_ (fun _ => same.ge) (fun _ => same.le)
    intro inp m row
    obtain ⟨old, there⟩ := Option.isSome_iff_exists.mp (found (by rw [row]; rfl))
    rw [row, there, rowVersion, rowVersion] at same
    rw [same]
    exact before.rows p inp old there
  · refine level_setNode before frame.2.2.2 ?_ ?_ ?_
    · intro _ m row
      rw [row, rowVersion] at one
      rw [one]
      exact ⟨by decide, by decide, by decide⟩
    · intro _
      rw [one, held, blank, rowVersion]
      decide
    · rintro rfl
      rcases fine with elsewhere | ⟨-, here⟩
      · exact absurd path elsewhere
      · rw [blank] at here
        cases here rfl
  · refine level_setNode before frame.2.2.2 (fun _ m row => by rw [purged] at row; cases row) ?_ ?_
    · rintro rfl
      rcases fine with elsewhere | ⟨lasting, -⟩
      · exact absurd path elsewhere
      · have ok := lasting rfl
        rw [pending, Option.all_some, final] at ok
        cases ok
    · rintro rfl
      rw [purged, rowVersion]
      exact held_nonneg (before.rows p inb)

theorem level_resolve (before : Level repoID file a b peers net) (inb : b ∈ peers)
    {p : String} (inside : p ∈ peers) {path resolution : String} (peerID : String)
    (good : levelMove repoID file a b net (.resolve p path resolution peerID) = true) :
    Level repoID file a b peers (resolveAt repoID peers net p path resolution peerID) := by
  have rows := resolveAt_row repoID peers net p path resolution peerID
  have up : held repoID file net a ≤
      held repoID file (resolveAt repoID peers net p path resolution peerID) a := by
    refine (held_same ?_).ge
    rw [rows, if_neg]
    rintro ⟨same, remote, place⟩
    rcases of_decide_eq_true good with other | elsewhere | stays
    · exact other same.symm
    · exact elsewhere (Prod.mk.inj place).2.symm
    · exact stays remote
  have keeps : KeepsLead repoID file a b peers net
      (resolveAt repoID peers net p path resolution peerID) := by
    refine ⟨?_, up, Or.inl ?_⟩
    · intro q inq m row
      rw [rows] at row
      split at row
      · cases row
      · exact before.rows q inq m row
    · rw [held, rows]
      split
      · exact held_nonneg (before.rows b inb)
      · exact le_refl _
  refine level_of before keeps
    (fun q => (resolveAt_frame repoID peers net p path resolution peerID q).2.2.2) ?_
    (fun x member _ => Or.inl (List.mem_append_left _ member))
  intro x member
  rcases resolveAt_flight member with old | ⟨src, there, away, repo, named, content⟩
  · exact Or.inl old
  · refine Or.inr ⟨src ▸ inside, there, src ▸ away.symm, repo, fun here => ?_⟩
    rw [here] at named
    subst named
    -- the row that is kept is sent again, or the number of the deletion is zero
    rcases content with ⟨-, m, row, update⟩ | ⟨-, update⟩
    · have stored := before.rows p inside m row
      simp only [update, metadataUpdate, Update.decodedVersion, stored.exact]
      refine ⟨stored, fun own => ?_⟩
      obtain rfl : p = a := src.symm.trans own
      rw [← held_row row]
      exact up
    · have zero : x.update.decodedVersion = 0 := by
        rw [update]
        exact (by decide : Binary64.toUint64 ((0 : Nat) : Int) = 0)
      rw [zero]
      refine ⟨⟨by decide, by decide, by decide⟩, fun own => ?_⟩
      obtain rfl : p = a := src.symm.trans own
      exact (held_nonneg (before.rows p inside)).trans up

theorem level_initial (start : net.Initial repoID peers) (ina : a ∈ peers) (inb : b ∈ peers) :
    Level repoID file a b peers net where
  known := start.known
  rows := fun p hp m row => absurd row (by simp [start.blank p hp file])
  flights := by simp [start.quiet]
  told := by simp [start.quiet]
  lead := by
    left
    rw [held, held, start.blank a ina, start.blank b inb]

theorem level_next (before : Level repoID file a b peers net) (ina : a ∈ peers) (inb : b ∈ peers)
    (apart : a ≠ b) (heard : ignoredPath file = false) (rt : Runtime) {move : Move}
    (moved : net.next rt repoID peers move = some after)
    (good : levelMove repoID file a b net move = true) : Level repoID file a b peers after := by
  cases move with
  | change p now payload =>
    obtain ⟨inside, -, rfl⟩ := next_change moved
    exact level_change before ina apart inside now good
  | deliver i now missing =>
    obtain ⟨k, at_, rfl⟩ := next_deliver moved
    have fine : levelDelivery repoID file a b net k = true := by simpa [levelMove, at_] using good
    exact level_deliver before apart heard rt at_ now missing fine
  | fetch p sent =>
    cases moved
    have same := fetch_db (net.node p) sent
    refine level_setNode before (by rw [same]) ?_ ?_ ?_ <;> rw [same]
    · exact fun inp => before.rows p inp
    · exact fun _ => le_refl _
    · exact fun _ => le_refl _
  | respond p now env peerID payload =>
    cases moved
    exact level_respond before inb rt now peerID good
  | retry p now task =>
    cases moved
    exact level_setNode before rfl (before.rows p) (fun _ => le_refl _) (fun _ => le_refl _)
  | resolve p path resolution peerID =>
    obtain ⟨inside, rfl⟩ := next_resolve moved
    exact level_resolve before inb inside peerID good

structure Behind (repoID file b : String) (number : Int) (net : Net) : Prop where
  known : repoID ∈ (net.node b).db.repositories
  flights : ∀ k ∈ net.flight, k.repoID = repoID
  rows : ∀ m, (net.node b).db.get repoID file = some m → 0 ≤ m.version ∧ m.version < number

variable {number : Int}

section

variable (before : Behind repoID file b number net) (rt : Runtime) {p : String}

include before

theorem behind_setNode {sc : SyncCoordinator}
    (known : sc.db.repositories = (net.node p).db.repositories)
    (rows : p = b → ∀ m, sc.db.get repoID file = some m → 0 ≤ m.version ∧ m.version < number) :
    Behind repoID file b number (setNode net p sc) := by
  exact {
    known := setNode_forall (P := fun q sc => q = b → repoID ∈ sc.db.repositories)
      (fun same => known ▸ same ▸ before.known) (fun _ _ same => same ▸ before.known) b rfl
    flights := before.flights
    rows := setNode_forall (P := fun q sc => q = b → ∀ m, sc.db.get repoID file = some m →
      0 ≤ m.version ∧ m.version < number) rows (fun _ _ same => same ▸ before.rows) b rfl }

theorem behind_change {payload : FileChangedPayload} (now : Int)
    (quiet : awaits repoID file b number net (.change p now payload) = true) :
    Behind repoID file b number (change repoID peers net p now payload) := by
  refine ⟨?_, ?_, ?_⟩
  · rw [(change_frame repoID peers net p payload now b).2.2.2]
    exact before.known
  · intro k member
    rcases List.mem_append.mp member with old | sent
    · exact before.flights k old
    · obtain ⟨-, -, -, -, -, out | out⟩ := packets_spec peers sent
      · obtain ⟨-, eq⟩ := local_out out
        simp only [Output.broadcast.injEq, P2PMessage.fileMetadataUpdate.injEq] at eq
        exact eq.1
      · obtain ⟨-, eq⟩ := local_out out
        cases eq
  · by_cases same : b = p
    · subst same
      have still : ¬ Changes repoID file net b payload := (of_decide_eq_true quiet) rfl
      by_cases recorded : Recorded (net.node b) repoID payload
      · rw [change_row peers now recorded before.known, if_neg]
        · exact before.rows
        · rintro ⟨-, place⟩
          exact still ⟨recorded, (Prod.mk.inj place).2.symm⟩
      · rw [change_dropped now recorded]
        exact before.rows
    · have other : (change repoID peers net p now payload).node b = net.node b :=
        setAt_other _ _ same
      rw [other]
      exact before.rows

theorem behind_deliver (range : number ≤ 2 ^ 63) (rt : Runtime) {i : Nat} {k : Packet}
    (at_ : net.flight[i]? = some k) (now : Int) (missing : Bool)
    (quiet : k.dst ≠ b ∨ k.update.path ≠ file ∨
      (k.update.decodedVersion : Int) < number) :
    Behind repoID file b number (deliver rt peers net (net.flight.eraseIdx i) k now missing) := by
  have left : ∀ x ∈ net.flight.eraseIdx i, x.repoID = repoID :=
    fun x h => before.flights x ((mem_eraseIdx_or at_).mpr (Or.inr h))
  have repo := before.flights k (List.mem_of_getElem? at_)
  cases ignored : ignoredPath k.update.path with
  | true =>
    rw [deliver_ignored now missing ignored]
    exact ⟨before.known, left, before.rows⟩
  | false =>
    refine ⟨?_, ?_, ?_⟩
    · rw [(deliver_frame rt peers net _ k now missing b).2.2.2]
      exact before.known
    · intro x member
      rcases deliver_flight ignored member with old | ⟨-, -, m, -, -, -, rfl⟩
      · exact left x old
      · exact repo
    · by_cases same : b = k.dst
      · intro m row
        rw [deliver_row rt peers _ now missing ignored (by rw [← same, repo]; exact before.known)]
          at row
        split at row
        · rename_i taken
          have low := (quiet.resolve_left (not_not.mpr same.symm)).resolve_left
            (not_not.mpr (Prod.mk.inj taken.2.2).2.symm)
          have version : m.version = k.update.decodedVersion := by
            rw [← Option.some.inj row]
            simp only [acceptedMeta]
            exact Binary64.wrapInt64_of_range (by omega) (by omega)
          omega
        · exact before.rows m row
      · have other : (deliver rt peers net (net.flight.eraseIdx i) k now missing).node b =
            net.node b := setAt_other _ _ same
        rw [other]
        exact before.rows

theorem behind_respond {now : Int} {env : Env} {peerID : String} {payload : FileResponsePayload}
    (quiet : awaits repoID file b number net (.respond p now env peerID payload) = true) :
    Behind repoID file b number
      (setNode net p (handleFileResponse rt (net.node p) now env peerID payload).sc) := by
  refine behind_setNode before (response_frame rt (net.node p) now env peerID payload).2.2.2 ?_
  rintro rfl m row
  rcases response_number rt (net.node p) now env peerID payload repoID file with
    ⟨same, found⟩ | ⟨path, ⟨blank, one⟩ | ⟨purged, -⟩⟩
  · obtain ⟨old, there⟩ := Option.isSome_iff_exists.mp (found (by rw [row]; rfl))
    rw [row, there, rowVersion, rowVersion] at same
    rw [same]
    exact before.rows old there
  · rw [row, rowVersion] at one
    rcases of_decide_eq_true quiet with other | elsewhere | high | stored
    · exact absurd rfl other
    · exact absurd path elsewhere
    · omega
    · rw [blank] at stored
      cases stored
  · rw [purged] at row
    cases row

theorem behind_resolve (p path resolution : String) (peerID : String) :
    Behind repoID file b number (resolveAt repoID peers net p path resolution peerID) := by
  refine ⟨?_, ?_, ?_⟩
  · rw [(resolveAt_frame repoID peers net p path resolution peerID b).2.2.2]
    exact before.known
  · intro x member
    rcases resolveAt_flight member with old | ⟨-, -, -, repo, -⟩
    · exact before.flights x old
    · exact repo
  · intro m row
    rw [resolveAt_row] at row
    split at row
    · cases row
    · exact before.rows m row

theorem behind_next (range : number ≤ 2 ^ 63) (rt : Runtime) {move : Move}
    (moved : net.next rt repoID peers move = some after)
    (quiet : awaits repoID file b number net move = true) : Behind repoID file b number after := by
  cases move with
  | change p now payload =>
    obtain ⟨-, -, rfl⟩ := next_change moved
    exact behind_change before now quiet
  | deliver i now missing =>
    obtain ⟨k, at_, rfl⟩ := next_deliver moved
    have fine : k.dst ≠ b ∨ k.update.path ≠ file ∨ (k.update.decodedVersion : Int) < number := by
      simpa [awaits, at_] using quiet
    exact behind_deliver before range rt at_ now missing fine
  | fetch p sent =>
    cases moved
    have same := fetch_db (net.node p) sent
    refine behind_setNode before (by rw [same]) ?_
    rintro rfl
    rw [same]
    exact before.rows
  | respond p now env peerID payload =>
    cases moved
    exact behind_respond before rt quiet
  | retry p now task =>
    cases moved
    refine behind_setNode before rfl ?_
    rintro rfl
    exact before.rows
  | resolve p path resolution peerID =>
    obtain ⟨-, rfl⟩ := next_resolve moved
    exact behind_resolve before p path resolution peerID

end

theorem higher_accepted (behind : Behind repoID file b number net) (range : number ≤ 2 ^ 63)
    (positive : 0 < number) (src : String) {u : Update} (here : u.path = file)
    (version : (u.decodedVersion : Int) = number) (differ : heldHash repoID file net b ≠ u.hash) :
    (decision (net.node b) src repoID u).action = .acceptRemote ∧
      (decision (net.node b) src repoID u).isConflict = false := by
  have below : (ownVersion (net.node b) ((net.node b).db.get repoID u.path)).lamportVersion <
      (remoteVersion src u).lamportVersion := by
    have remote : (remoteVersion src u).lamportVersion = u.decodedVersion := rfl
    rw [here, remote]
    cases row : (net.node b).db.get repoID file with
    | none =>
      have zero : (ownVersion (net.node b) none).lamportVersion = 0 := rfl
      omega
    | some m =>
      obtain ⟨nonneg, low⟩ := behind.rows m row
      have wrap := Binary64.wrapUint64_of_range nonneg (by omega)
      have own : (ownVersion (net.node b) (some m)).lamportVersion =
        Binary64.wrapUint64 m.version := rfl
      omega
  have other : (ownVersion (net.node b) ((net.node b).db.get repoID u.path)).hash ≠
      (remoteVersion src u).hash := by
    rw [here]
    cases row : (net.node b).db.get repoID file <;>
    · rw [heldHash, row] at differ
      exact differ
  constructor
  · exact (resolve_accept_iff _ _).mpr ⟨other, (rank_lt_iff _ _).mpr (Or.inl below)⟩
  · refine Bool.eq_false_iff.mpr (fun conflict => ?_)
    have same := ((resolve_conflict_iff _ _).mp conflict).2
    omega

theorem level_reach (ina : a ∈ peers) (inb : b ∈ peers) (apart : a ≠ b)
    (heard : ignoredPath file = false) (rt : Runtime) (reached : Reach (Net.Initial repoID peers)
      (Guarded (Runs (Net.next rt repoID peers))
        (fun net move => levelMove repoID file a b net move = true)) net) :
    Level repoID file a b peers net := by
  refine reach_invariant (Level repoID file a b peers)
    (fun _ start => level_initial start ina inb) ?_ reached
  rintro s move t before ⟨moved, fine⟩
  exact level_next before ina inb apart heard rt moved fine

theorem recorded_above (level : Level repoID file a b peers net) (ina : a ∈ peers)
    {payload : FileChangedPayload} (changes : Changes repoID file net a payload)
    (fresh : ((net.node a).db.get repoID file).all (fun m => !reusesVersion m payload) = true)
    (number : ((recordedUpdate (net.node a) repoID payload).decodedVersion : Int) =
      nextVersion ((net.node a).db.get repoID file) payload) :
    held repoID file net a + 1 = (recordedUpdate (net.node a) repoID payload).decodedVersion := by
  obtain ⟨-, step⟩ := recorded_exact (by rw [changes.2]) (level.rows a ina) number
  rw [number]
  cases row : (net.node a).db.get repoID file with
  | none => simp [held, row, rowVersion, nextVersion]
  | some m =>
    have grown := step m row
    rw [row, Option.all_some, Bool.not_eq_true'] at fresh
    rw [fresh, row] at grown
    rw [held_row row, grown]
    rfl

theorem behind_later_change (level : Level repoID file a b peers net) (ina : a ∈ peers)
    (inb : b ∈ peers) (apart : a ≠ b) (heard : ignoredPath file = false) {rt : Runtime} {now : Int}
    {payload : FileChangedPayload}
    (good : levelMove repoID file a b net (.change a now payload) = true)
    (changed : net.next rt repoID peers (.change a now payload) = some after)
    (low : held repoID file net b < number) : Behind repoID file b number after := by
  have next := level_next level ina inb apart heard rt changed good
  refine ⟨next.known b inb, fun k member => (next.flights k member).2.2.2.1, ?_⟩
  obtain ⟨-, -, rfl⟩ := next_change changed
  intro m row
  have still : (change repoID peers net a now payload).node b = net.node b :=
    setAt_other _ _ apart.symm
  rw [still] at row
  rw [held_row row] at low
  exact ⟨(level.rows b inb m row).nonneg, low⟩

end Pair

/-- A change of `a` that follows everything `b` has sent is taken over by `b`
without a conflict, in runs that kept the number of `a` up with that of `b`. -/
theorem later_change_wins (rt : Runtime) {repoID file a b : String} {peers : List String}
    (ina : a ∈ peers) (inb : b ∈ peers) (apart : a ≠ b) (heard : ignoredPath file = false)
    {net after late : Net} {now : Int} {payload : FileChangedPayload}
    (reached : Reach (Net.Initial repoID peers)
      (Guarded (Runs (Net.next rt repoID peers))
        (fun net move => levelMove repoID file a b net move = true)) net)
    (processed : ∀ k ∈ net.flight, ¬ Reports file b a k)
    (changes : Changes repoID file net a payload)
    (good : levelMove repoID file a b net (.change a now payload) = true)
    (fresh : ((net.node a).db.get repoID file).all (fun m => !reusesVersion m payload) = true)
    (changed : net.next rt repoID peers (.change a now payload) = some after)
    (waited : Reach (after = ·)
      (Guarded (Runs (Net.next rt repoID peers))
        (fun net' move => awaits repoID file b
          (recordedUpdate (net.node a) repoID payload).decodedVersion net' move = true)) late)
    (differ : heldHash repoID file late b ≠ payload.hash) :
    let update := recordedUpdate (net.node a) repoID payload
    (decision (late.node b) a repoID update).action = .acceptRemote ∧
      (decision (late.node b) a repoID update).isConflict = false := by
  intro update
  have level := level_reach ina inb apart heard rt reached
  have lead : held repoID file net b ≤ held repoID file net a := by
    rcases level.lead with lead | ⟨k, member, report, -⟩
    · exact lead
    · exact absurd report (processed k member)
  have number : (update.decodedVersion : Int) =
      nextVersion ((net.node a).db.get repoID file) payload := by
    have fine := of_decide_eq_true good
    exact (fine.resolve_left (not_not.mpr changes)).1
  obtain ⟨survives, -⟩ := recorded_exact (by rw [changes.2]) (level.rows a ina) number
  have above : held repoID file net a + 1 = update.decodedVersion :=
    recorded_above level ina changes fresh number
  have nonneg := held_nonneg (level.rows a ina)
  have range : (update.decodedVersion : Int) ≤ 2 ^ 63 := number ▸ survives.range.le
  have behind : Behind repoID file b update.decodedVersion after :=
    behind_later_change level ina inb apart heard good changed (by omega)
  have waiting : Behind repoID file b update.decodedVersion late := by
    refine reach_invariant (Behind repoID file b update.decodedVersion)
      (fun s (start : after = s) => start ▸ behind) ?_ waited
    rintro s move t before ⟨moved, quiet⟩
    exact behind_next before range rt moved quiet
  exact higher_accepted waiting range (by omega) a changes.2 rfl differ

def followedRun : List Move :=
  [.change "b" 0 ⟨.add, "f", "g", 1, 4, 420⟩, .deliver 0 0 false,
    .change "a" 0 ⟨.modify, "f", "h", 1, 5, 420⟩]

def followUp : FileChangedPayload := ⟨.modify, "f", "k", 1, 6, 420⟩

theorem later_change_wins_followedRun : ∃ net late : Net, heldHash "r" "f" late "b" = "h" ∧
    (decision (late.node "b") "a" "r" (recordedUpdate (net.node "a") "r" followUp)).action =
        .acceptRemote ∧
      (decision (late.node "b") "a" "r" (recordedUpdate (net.node "a") "r" followUp)).isConflict =
        false := by
  obtain ⟨net, reached, processed, changes, good, fresh, waits⟩ := reach_of_replay
    (Net.next .plain "r" ["a", "b"]) (fun net move => levelMove "r" "f" "a" "b" net move = true)
    (.start (Net.tracking_initial "r" "/r" ["a", "b"])) followedRun
    (fun net => (∀ k ∈ net.flight, ¬ Reports "f" "b" "a" k) ∧
      Changes "r" "f" net "a" followUp ∧
      levelMove "r" "f" "a" "b" net (.change "a" 0 followUp) = true ∧
      ((net.node "a").db.get "r" "f").all (fun m => !reusesVersion m followUp) = true ∧
      (replay (Net.next .plain "r" ["a", "b"])
        (fun net' move => awaits "r" "f" "b"
          (recordedUpdate (net.node "a") "r" followUp).decodedVersion net' move = true)
        (change "r" ["a", "b"] net "a" 0 followUp) [.deliver 0 0 false]).any
          (fun late => decide (heldHash "r" "f" late "b" = "h")) = true) (by decide)
  have changed : net.next .plain "r" ["a", "b"] (.change "a" 0 followUp) =
      some (change "r" ["a", "b"] net "a" 0 followUp) := by
    simp only [Net.next]
    exact if_pos ⟨by decide, by decide⟩
  obtain ⟨late, waited, first⟩ := reach_of_replay _ _
    (.start (rfl : change "r" ["a", "b"] net "a" 0 followUp = _)) _ _ waits
  refine ⟨net, late, first, ?_⟩
  exact later_change_wins .plain (by decide) (by decide) (by decide) (by decide) reached processed
    changes good fresh changed waited (by rw [first]; decide)

def skippedRun : List Move :=
  [.change "a" 0 ⟨.add, "f", "h", 1, 5, 420⟩, .change "b" 0 ⟨.add, "f", "g", 1, 4, 420⟩,
    .change "b" 0 ⟨.modify, "f", "h", 1, 6, 420⟩, .deliver 1 0 false, .deliver 1 0 false]

theorem skipped_number_conflicts : ∃ net,
    Reach (Net.Initial "r" ["a", "b"])
      (Guarded (Runs (Net.next .plain "r" ["a", "b"])) (fun _ _ => True)) net ∧
    (∀ k ∈ net.flight, ¬ Reports "f" "b" "a" k) ∧ Changes "r" "f" net "a" followUp ∧
    announced followUp = true ∧ heldHash "r" "f" net "b" ≠ followUp.hash ∧
    (decision ((change "r" ["a", "b"] net "a" 0 followUp).node "b") "a" "r"
      (recordedUpdate (net.node "a") "r" followUp)).isConflict = true := by
  exact reach_of_replay (Net.next .plain "r" ["a", "b"]) (fun _ _ => True)
    (.start (Net.tracking_initial "r" "/r" ["a", "b"])) skippedRun _ (by decide +kernel)

end P2PSync
