import P2PSync.Coordinator
import P2PSync.Library.Overwrites

/-! The order in which updates about a file arrive at one peer. An update is taken
over if its content differs from the row's and its version ranks above the row's;
the row then counts as the peer's own. -/
namespace P2PSync

structure Arrival where
  peerID : String
  update : Update
  now : Int
  missing : Bool

def receive (rt : Runtime) (repoID : String) (sc : SyncCoordinator) (x : Arrival) :
    SyncCoordinator :=
  (handlePeerMetadataUpdate rt sc x.now x.missing x.peerID repoID x.update).1

def receiveAll (rt : Runtime) (repoID : String) (sc : SyncCoordinator) (xs : List Arrival) :
    SyncCoordinator :=
  xs.foldl (receive rt repoID) sc

def recordedState (sc : SyncCoordinator) (repoID file : String) : Option (Bool × String) :=
  (sc.db.get repoID file).map (fun m => (!m.isDeleted, m.hash))

def Arrival.taken (p : String) (x : Arrival) : FileVersion :=
  ⟨x.update.hash, x.update.decodedVersion, x.update.decodedTime, p⟩

def Arrival.announced (x : Arrival) : FileVersion := remoteVersion x.peerID x.update

theorem rank_lt_trans {p : String} {held : FileVersion} {a b : Arrival} (own : held.peerID = p)
    (first : held.rank < a.announced.rank) (second : (a.taken p).rank < b.announced.rank) :
    held.rank < b.announced.rank := by
  rw [rank_lt_iff] at first second ⊢
  simp only [Arrival.taken, Arrival.announced, remoteVersion, own] at first second ⊢
  rcases first with low | ⟨same, low | ⟨time, peer⟩⟩ <;>
    rcases second with low' | ⟨same', low' | ⟨time', peer'⟩⟩
  all_goals first
    | exact Or.inl (by omega)
    | exact Or.inr ⟨by omega, Or.inl (by omega)⟩
    | exact Or.inr ⟨by omega, Or.inr ⟨by omega, peer'⟩⟩

/-- The row as a register: an update is taken if its content differs and it ranks
above the version in the row, which counts as the peer's own. -/
def arrivals (own : FileVersion) : Overwrites.Register Arrival String where
  start := own.hash
  content x := x.update.hash
  above held x := (held.elim own (Arrival.taken own.peerID)).rank < x.announced.rank
  trans := by
    intro held a b first second
    apply rank_lt_trans _ first second
    cases held <;> rfl

instance (own : FileVersion) (held : Option Arrival) (x : Arrival) :
    Decidable ((arrivals own).above held x) :=
  inferInstanceAs (Decidable (_ < _))

section Order

variable (sc : SyncCoordinator) (repoID file : String) (xs : List Arrival)

def Standing : Prop :=
  ∀ x ∈ xs, (decision sc x.peerID repoID x.update).action ≠ .acceptRemote

/-- One content prevails over the row and the other updates, and those updates with
it that would be accepted at the start say the same about deletion. -/
structure Prevailing (hash : String) (deleted : Bool) : Prop where
  prevails : (arrivals (ownVersion sc (sc.db.get repoID file))).Prevails xs hash
  flag : ∀ x ∈ xs, x.update.hash = hash →
    (decision sc x.peerID repoID x.update).action = .acceptRemote → x.update.isDeleted = deleted

def Settled : Prop :=
  ignoredPath file = true ∨ repoID ∉ sc.db.repositories ∨ Standing sc repoID xs ∨
    ∃ hash deleted, Prevailing sc repoID file xs hash deleted

end Order

section Receive

variable (rt : Runtime) {repoID file : String} {sc : SyncCoordinator}

theorem receive_keeps (repoID : String) (sc : SyncCoordinator) (x : Arrival) :
    (receive rt repoID sc x).localPeerID = sc.localPeerID ∧
    (receive rt repoID sc x).db.repositories = sc.db.repositories := by
  obtain ⟨named, -, -, known⟩ := peer_frame rt sc x.now x.missing x.peerID repoID x.update
  exact ⟨named, known⟩

theorem receive_deaf {x : Arrival}
    (deaf : ignoredPath x.update.path = true ∨ repoID ∉ sc.db.repositories) :
    (receive rt repoID sc x).db = sc.db := by
  rw [receive, handlePeerMetadataUpdate_db]
  split
  · rename_i taken
    rcases deaf with ignored | unknown
    · rw [taken.1] at ignored
      cases ignored
    · rw [DB.save_unknown unknown]
      rfl
  · rfl

theorem receive_row {x : Arrival} (here : x.update.path = file) (heard : ignoredPath file = false)
    (known : repoID ∈ sc.db.repositories) : (receive rt repoID sc x).db.get repoID file =
      if (decision sc x.peerID repoID x.update).action = .acceptRemote
      then some { acceptedMeta repoID x.update with updatedAt := x.now }
      else sc.db.get repoID file := by
  subst here
  rw [receive, peer_row rt x.now x.missing x.peerID x.update known]
  simp only [heard, true_and, and_true]

def HoldsArrival (repoID file : String) (sc : SyncCoordinator) (x : Arrival) : Prop :=
  ownVersion sc (sc.db.get repoID file) = x.taken sc.localPeerID ∧
    recordedState sc repoID file = some (!x.update.isDeleted, x.update.hash)

section

variable {x : Arrival} (here : x.update.path = file) (heard : ignoredPath file = false)
  (known : repoID ∈ sc.db.repositories)

include here heard known

theorem receive_taken (accept : (decision sc x.peerID repoID x.update).action = .acceptRemote) :
    HoldsArrival repoID file (receive rt repoID sc x) x := by
  have row := receive_row rt here heard known
  rw [if_pos accept] at row
  rw [HoldsArrival, recordedState, row]
  have number : Binary64.wrapUint64 (Binary64.wrapInt64 x.update.decodedVersion) =
    x.update.decodedVersion := by
    rw [Binary64.wrapUint64_wrapInt64]
    exact Binary64.wrapUint64_natCast (Binary64.toUint64_lt _)
  simp only [ownVersion, acceptedMeta, Arrival.taken, number, Option.map_some, and_self]

theorem receive_left (stays : (decision sc x.peerID repoID x.update).action ≠ .acceptRemote) :
    (receive rt repoID sc x).db.get repoID file = sc.db.get repoID file := by
  rw [receive_row rt here heard known, if_neg stays]

end

theorem holds_left {s : SyncCoordinator} {rt : Runtime} {x y : Arrival}
    (holds : HoldsArrival repoID file s x)
    (row : (receive rt repoID s y).db.get repoID file = s.db.get repoID file) :
    HoldsArrival repoID file (receive rt repoID s y) x := by
  have named := (receive_keeps rt repoID s y).1
  have same : ownVersion (receive rt repoID s y) (s.db.get repoID file) =
      ownVersion s (s.db.get repoID file) := by
    unfold ownVersion
    rw [named]
  rw [HoldsArrival, recordedState, row, same, named]
  exact holds

end Receive

section Run

variable (rt : Runtime) {repoID file : String} {sc s : SyncCoordinator} {xs ys : List Arrival}

theorem deaf_run (deaf : ignoredPath file = true ∨ repoID ∉ sc.db.repositories)
    (about : ∀ x ∈ xs, x.update.path = file) : (receiveAll rt repoID sc xs).db = sc.db := by
  induction xs generalizing sc with
  | nil => rfl
  | cons x rest ih =>
    have same : (receive rt repoID sc x).db = sc.db := by
      apply receive_deaf
      rw [about x List.mem_cons_self]
      exact deaf
    rw [← same]
    apply ih
    · rw [same]
      exact deaf
    · exact fun y member => about y (List.mem_cons_of_mem _ member)

structure Follows (repoID file : String) (sc s : SyncCoordinator) (held : Option Arrival) :
    Prop where
  named : s.localPeerID = sc.localPeerID
  known : repoID ∈ s.db.repositories
  start : held = none → s.db.get repoID file = sc.db.get repoID file
  taken : ∀ x, held = some x → HoldsArrival repoID file s x

theorem ownVersion_peerID (sc : SyncCoordinator) (row : Option FileMetadata) :
    (ownVersion sc row).peerID = sc.localPeerID := by
  cases row <;> rfl

theorem accepts_iff {held : Option Arrival} {x : Arrival} (follows : Follows repoID file sc s held)
    (here : x.update.path = file) : (decision s x.peerID repoID x.update).action = .acceptRemote ↔
      (arrivals (ownVersion sc (sc.db.get repoID file))).Takes held x := by
  have row : ownVersion s (s.db.get repoID file) =
      held.elim (ownVersion sc (sc.db.get repoID file))
        (Arrival.taken (ownVersion sc (sc.db.get repoID file)).peerID) := by
    cases held with
    | none =>
      rw [follows.start rfl, Option.elim_none]
      unfold ownVersion
      rw [follows.named]
    | some y =>
      rw [(follows.taken y rfl).1, Option.elim_some, ownVersion_peerID, follows.named]
  rw [decision, here, resolve_accept_iff, row]
  cases held <;> rfl

theorem fresh_iff (known : repoID ∈ sc.db.repositories) {x : Arrival}
    (here : x.update.path = file) : (decision sc x.peerID repoID x.update).action = .acceptRemote ↔
      (arrivals (ownVersion sc (sc.db.get repoID file))).Fresh x :=
  accepts_iff ⟨rfl, known, fun _ => rfl, fun _ none => by cases none⟩ here

variable (heard : ignoredPath file = false)

include heard

theorem Follows.receive {held : Option Arrival} {x : Arrival}
    (follows : Follows repoID file sc s held) (here : x.update.path = file) :
    Follows repoID file sc (P2PSync.receive rt repoID s x)
      ((arrivals (ownVersion sc (sc.db.get repoID file))).step held x) := by
  obtain ⟨named, known⟩ := receive_keeps rt repoID s x
  have accepts := accepts_iff follows here
  refine ⟨named.trans follows.named, known ▸ follows.known, ?_, ?_⟩ <;>
    by_cases takes : (arrivals (ownVersion sc (sc.db.get repoID file))).Takes held x
  · simp [Overwrites.Register.step_taken takes]
  · rw [Overwrites.Register.step_kept takes, receive_left rt here heard follows.known
      (mt accepts.mp takes)]
    exact follows.start
  · rw [Overwrites.Register.step_taken takes]
    rintro y ⟨⟩
    exact receive_taken rt here heard follows.known (accepts.mpr takes)
  · rw [Overwrites.Register.step_kept takes]
    intro y same
    exact holds_left (follows.taken y same)
      (receive_left rt here heard follows.known (mt accepts.mp takes))

theorem Follows.receiveAll {held : Option Arrival} (follows : Follows repoID file sc s held)
    (about : ∀ x ∈ ys, x.update.path = file) :
    Follows repoID file sc (P2PSync.receiveAll rt repoID s ys)
      ((arrivals (ownVersion sc (sc.db.get repoID file))).run held ys) := by
  induction ys generalizing s held with
  | nil => exact follows
  | cons y rest ih =>
    obtain ⟨first, later⟩ := List.forall_mem_cons.mp about
    exact ih (follows.receive rt heard first) later

theorem recordedState_run (known : repoID ∈ sc.db.repositories)
    (about : ∀ x ∈ ys, x.update.path = file) :
    recordedState (P2PSync.receiveAll rt repoID sc ys) repoID file =
      ((arrivals (ownVersion sc (sc.db.get repoID file))).run none ys).elim
        (recordedState sc repoID file) (fun x => some (!x.update.isDeleted, x.update.hash)) := by
  have start : Follows repoID file sc sc none :=
    ⟨rfl, known, fun _ => rfl, fun _ none => by cases none⟩
  have done := start.receiveAll rt heard about
  generalize (arrivals (ownVersion sc (sc.db.get repoID file))).run none ys = held at done
  cases held with
  | none => rw [recordedState, done.start rfl, Option.elim_none, recordedState]
  | some x => exact (done.taken x rfl).2

theorem prevailing_of_same (known : repoID ∈ sc.db.repositories)
    (about : ∀ x ∈ xs, x.update.path = file)
    (same : ∀ ys, ys.Perm xs → recordedState (P2PSync.receiveAll rt repoID sc ys) repoID file =
      recordedState (P2PSync.receiveAll rt repoID sc xs) repoID file)
    (moves : ¬ Standing sc repoID xs) :
    ∃ hash deleted, Prevailing sc repoID file xs hash deleted := by
  have elsewhere : ∀ ys : List Arrival, ys.Perm xs → ∀ x ∈ ys, x.update.path = file :=
    fun ys perm x member => about x (perm.subset member)
  simp only [Standing, not_forall, not_not] at moves
  obtain ⟨w, member, accepted⟩ := moves
  have fresh := (fresh_iff known (about w member)).mp accepted
  obtain ⟨zs, permZ, moved⟩ := Overwrites.Register.exists_moved fresh member
  have states := fun ys perm => (recordedState_run rt heard known (elsewhere ys perm))
  cases last : (arrivals (ownVersion sc (sc.db.get repoID file))).run none zs with
  | none => exact absurd (by rw [last]; rfl) moved
  | some z =>
    rw [last] at moved
    have stateZ := states zs permZ
    rw [last, same zs permZ] at stateZ
    -- the content of the start is not the one that some order ends with
    have held : ∀ ys, ys.Perm xs → ∃ x,
        (arrivals (ownVersion sc (sc.db.get repoID file))).run none ys = some x ∧
          x.update.hash = z.update.hash ∧ x.update.isDeleted = z.update.isDeleted := by
      intro ys perm
      have state := states ys perm
      rw [same ys perm, stateZ] at state
      cases end_ : (arrivals (ownVersion sc (sc.db.get repoID file))).run none ys with
      | none =>
        rw [end_, Option.elim_none, Option.elim_some, recordedState] at state
        obtain ⟨m, row, shown⟩ := Option.map_eq_some_iff.mp state.symm
        refine absurd ?_ moved
        rw [row]
        exact (Prod.mk.inj shown).2.symm
      | some x =>
        rw [end_, Option.elim_some, Option.elim_some] at state
        obtain ⟨live, content⟩ := Prod.mk.inj (Option.some.inj state)
        exact ⟨x, rfl, content.symm, by simpa using live.symm⟩
    have prevails : (arrivals (ownVersion sc (sc.db.get repoID file))).Prevails xs z.update.hash := by
      apply (Overwrites.Register.always_iff (Ne.symm moved)).mp
      intro ys perm
      obtain ⟨x, end_, content, -⟩ := held ys perm
      rw [end_]
      exact content
    refine ⟨z.update.hash, z.update.isDeleted, prevails, ?_⟩
    intro x mem content accept
    obtain ⟨ys, perm, end_⟩ := prevails.exists_held mem content
      ((fresh_iff known (about x mem)).mp accept)
    obtain ⟨x', end', -, flag⟩ := held ys perm
    cases Option.some.inj (end_.symm.trans end')
    exact flag

end Run

/-- The row ends up the same in whatever order the updates arrive exactly if they are
not looked at, none of them ranks above the row, or one content prevails. -/
theorem arrivals_any_order_iff (rt : Runtime) {sc : SyncCoordinator} {repoID file : String}
    {xs : List Arrival} (about : ∀ x ∈ xs, x.update.path = file) :
    (∀ ys, ys.Perm xs → recordedState (receiveAll rt repoID sc ys) repoID file =
      recordedState (receiveAll rt repoID sc xs) repoID file) ↔ Settled sc repoID file xs := by
  have elsewhere : ∀ ys : List Arrival, ys.Perm xs → ∀ x ∈ ys, x.update.path = file :=
    fun ys perm x member => about x (perm.subset member)
  by_cases deaf : ignoredPath file = true ∨ repoID ∉ sc.db.repositories
  · refine iff_of_true (fun ys perm => ?_) (deaf.imp_right Or.inl)
    rw [recordedState, recordedState, deaf_run rt deaf about, deaf_run rt deaf (elsewhere ys perm)]
  obtain ⟨heard, known⟩ := not_or.mp deaf
  rw [Bool.not_eq_true] at heard
  rw [not_not] at known
  constructor
  · intro same
    by_cases standing : Standing sc repoID xs
    · exact Or.inr (Or.inr (Or.inl standing))
    · exact Or.inr (Or.inr (Or.inr (prevailing_of_same rt heard known about same standing)))
  · have states := fun ys perm => (recordedState_run rt heard known (elsewhere ys perm))
    rintro (ignored | unknown | standing | ⟨hash, deleted, prevails, flag⟩) ys perm
    · rw [ignored] at heard
      cases heard
    · exact absurd known unknown
    · have still : ∀ zs, zs.Perm xs →
          (arrivals (ownVersion sc (sc.db.get repoID file))).run none zs = none := by
        intro zs permZ
        apply Overwrites.Register.run_kept
        intro x member fresh
        have there := permZ.subset member
        exact standing x there ((fresh_iff known (about x there)).mpr fresh)
      rw [states ys perm, states xs (List.Perm.refl xs), still ys perm, still xs (List.Perm.refl xs)]
    · have final : ∀ zs, zs.Perm xs →
          recordedState (receiveAll rt repoID sc zs) repoID file = some (!deleted, hash) := by
        intro zs permZ
        obtain ⟨x, member, end_, content, fresh⟩ := prevails.run permZ
        rw [states zs permZ, end_, Option.elim_some,
          flag x member content ((fresh_iff known (about x member)).mpr fresh)]
        exact congrArg (fun h => some (!deleted, h)) content
      rw [final ys perm, final xs (List.Perm.refl xs)]

def news (number : Int) (hash : String) : Arrival :=
  ⟨"b", ⟨"f", hash, 1, number, 5, false, 420, none⟩, 0, false⟩

def trackingPeer : SyncCoordinator := addRepository (.new "a") 0 "r" "/r"

theorem arrivals_any_order_news :
    recordedState (receiveAll .plain "r" (receive .plain "r" trackingPeer (news 2 "s"))
        [news 3 "x", news 1 "x"]) "r" "f" =
      recordedState (receiveAll .plain "r" (receive .plain "r" trackingPeer (news 2 "s"))
        [news 1 "x", news 3 "x"]) "r" "f" := by
  refine (arrivals_any_order_iff .plain (by decide)).mpr
    (Or.inr (Or.inr (Or.inr ⟨"x", false, ?_⟩))) _ (List.Perm.swap _ _ _)
  exact ⟨⟨by decide, by decide, by decide⟩, by decide⟩

theorem order_matters_again : [news 1 "x", news 2 "y", news 3 "x"].Perm
      [news 1 "x", news 3 "x", news 2 "y"] ∧
    recordedState (receiveAll .plain "r" trackingPeer
      [news 1 "x", news 2 "y", news 3 "x"]) "r" "f" = some (true, "x") ∧
    recordedState (receiveAll .plain "r" trackingPeer
      [news 1 "x", news 3 "x", news 2 "y"]) "r" "f" = some (true, "y") := by
  refine ⟨.cons _ (.swap _ _ _), by decide +kernel, by decide +kernel⟩

end P2PSync
