import P2PSync.Network

/-! The exchange of metadata comes to rest. An update provokes at most one reply,
and a reply has a higher number than the update it answers. -/
namespace P2PSync

open Transition

def metadataSent (out : List Output) : List Update :=
  out.filterMap fun
    | .sendToPeer _ (.fileMetadataUpdate _ u) | .broadcast (.fileMetadataUpdate _ u) => some u
    | _ => none

def SmallRows (sc : SyncCoordinator) : Prop :=
  ∀ r f m, sc.db.get r f = some m → Binary64.wrapUint64 m.version < 2 ^ 53

theorem metadataSent_ipc {out : List Output} (ipc : ∀ o ∈ out, ∃ msg, o = .sendIpc msg) :
    metadataSent out = [] := by
  refine List.filterMap_eq_nil_iff.mpr (fun o member => ?_)
  obtain ⟨msg, rfl⟩ := ipc o member
  rfl

section

variable {sc : SyncCoordinator} (small : SmallRows sc) {peerID repoID : String} {u : Update}
  {m : FileMetadata} (row : sc.db.get repoID u.path = some m)
  (keep : (decision sc peerID repoID u).action = .keepLocal)
  (quiet : (decision sc peerID repoID u).isConflict = false)

include small row keep quiet

omit small in
theorem kept_above : u.decodedVersion < Binary64.wrapUint64 m.version := by
  rw [decision, row] at keep quiet
  obtain ⟨differ, above⟩ := (resolve_keep_iff _ _).mp keep
  have apart : Binary64.wrapUint64 m.version ≠ u.decodedVersion := by
    intro same
    rw [(resolve_conflict_iff _ _).mpr ⟨differ, same⟩] at quiet
    cases quiet
  rw [rank_lt_iff] at above
  simp only [ownVersion, remoteVersion] at above
  omega

theorem kept_number {v : Update} (reply : v.version = Binary64.wrapUint64 m.version) :
    u.decodedVersion < v.decodedVersion ∧ v.version = v.decodedVersion ∧
      v.decodedVersion < 2 ^ 53 := by
  have low := small _ _ _ row
  have arrives : v.decodedVersion = Binary64.wrapUint64 m.version := by
    rw [Update.decodedVersion, reply]
    exact Binary64.toUint64_small low
  rw [arrives]
  exact ⟨kept_above row keep quiet, reply, low⟩

end

theorem reply_above (rt : Runtime) {sc : SyncCoordinator} (small : SmallRows sc) (now : Int)
    (missing : Bool) (peerID repoID : String) (u : Update) :
    let replies := metadataSent (handlePeerMetadataUpdate rt sc now missing peerID repoID u).2
    replies.length ≤ 1 ∧
      ∀ v ∈ replies, u.decodedVersion < v.decodedVersion ∧ v.version = v.decodedVersion := by
  rcases peer_answer rt sc now missing peerID repoID u with ipc | ⟨keep, quiet, m, row, out⟩
  · rw [metadataSent_ipc ipc]
    exact ⟨Nat.zero_le 1, fun v member => absurd member List.not_mem_nil⟩
  · rw [out]
    refine ⟨le_rfl, fun v member => ?_⟩
    have number : v.version = Binary64.wrapUint64 m.version := by
      rw [List.mem_singleton.mp member]
      rfl
    obtain ⟨above, arrives, -⟩ := kept_number small row keep quiet number
    exact ⟨above, arrives⟩

def Update.room (u : Update) : Nat := 2 ^ 53 - u.decodedVersion

theorem room_pos {u : Update} (low : u.decodedVersion < 2 ^ 53) : 0 < u.room := by
  unfold Update.room
  omega

theorem room_lt {u v : Update} (above : u.decodedVersion < v.decodedVersion)
    (low : v.decodedVersion < 2 ^ 53) : v.room < u.room := by
  unfold Update.room
  omega

def Net.room (net : Net) : Nat := (net.flight.map (·.update.room)).sum

structure Net.Small (net : Net) : Prop where
  rows : ∀ p, SmallRows (net.node p)
  flights : ∀ k ∈ net.flight, k.update.decodedVersion < 2 ^ 53

def Move.passive : Move → Bool
  | .change .. | .resolve .. => false
  | _ => true

theorem smallRows_peer (rt : Runtime) {sc : SyncCoordinator} (small : SmallRows sc) (now : Int)
    (missing : Bool) (peerID repoID : String) {u : Update} (low : u.decodedVersion < 2 ^ 53) :
    SmallRows (handlePeerMetadataUpdate rt sc now missing peerID repoID u).1 := by
  intro r f m row
  rw [handlePeerMetadataUpdate_db] at row
  split at row
  · cases saved : sc.db.save now (acceptedMeta repoID u) with
    | none =>
      rw [saved] at row
      exact small r f m row
    | some db =>
      rw [saved, Option.getD_some] at row
      by_cases here : (r, f) = (repoID, u.path)
      · cases here
        have written : db.get repoID u.path = some { acceptedMeta repoID u with updatedAt := now } :=
          DB.get_save_self saved
        cases Option.some.inj (written.symm.trans row)
        have stored : Binary64.wrapInt64 u.decodedVersion = u.decodedVersion :=
          Binary64.wrapInt64_of_range (by omega) (by omega)
        have same := Binary64.wrapUint64_of_range (x := u.decodedVersion) (by omega) (by omega)
        simp only [acceptedMeta, stored]
        omega
      · rw [DB.get_save_other saved here] at row
        exact small r f m row
  · exact small r f m row

theorem smallRows_response (rt : Runtime) {sc : SyncCoordinator} (small : SmallRows sc) (now : Int)
    (env : Env) (peerID : String) (payload : FileResponsePayload) :
    SmallRows (handleFileResponse rt sc now env peerID payload).sc := by
  intro r f m row
  rcases response_row rt sc now env peerID payload r f with
    same | ⟨details, -, here, ⟨data, -, written⟩ | ⟨-, purged⟩⟩
  · exact small r f m (same ▸ row)
  · cases Option.some.inj (written.symm.trans row)
    simp only [inlineMeta]
    split
    · rename_i old found
      exact small _ _ old found
    · decide
  · rw [purged] at row
    cases row

theorem room_erase {l : List Packet} {i : Nat} {k : Packet} (at_ : l[i]? = some k) :
    (l.map (·.update.room)).sum =
      k.update.room + ((l.eraseIdx i).map (·.update.room)).sum := by
  obtain ⟨bound, rfl⟩ := List.getElem?_eq_some_iff.mp at_
  have whole := ((List.getElem_cons_eraseIdx_perm bound).map (·.update.room)).sum_nat
  rw [← whole, List.map_cons, List.sum_cons]

theorem deliver_room (rt : Runtime) (peers : List String) {net : Net} (small : net.Small)
    (rest : List Packet) {k : Packet} (low : k.update.decodedVersion < 2 ^ 53) (now : Int)
    (missing : Bool) :
    ∃ replies, (deliver rt peers net rest k now missing).flight = rest ++ replies ∧
      (∀ x ∈ replies, x.update.decodedVersion < 2 ^ 53) ∧
      (replies.map (·.update.room)).sum < k.update.room := by
  have silent := room_pos low
  refine ⟨_, rfl, ?_⟩
  rcases peer_answer rt (net.node k.dst) now missing k.src k.repoID k.update with
    ipc | ⟨keep, quiet, m, row, out⟩
  · have none : ∀ edit past, packets peers k.dst edit past
        (handlePeerMetadataUpdate rt (net.node k.dst) now missing k.src k.repoID k.update).2 = [] := by
      intro edit past
      refine List.flatMap_eq_nil_iff.mpr (fun o member => ?_)
      obtain ⟨msg, rfl⟩ := ipc o member
      rfl
    rw [none]
    exact ⟨fun x member => absurd member List.not_mem_nil, by simpa using silent⟩
  · rw [out]
    simp only [packets, sendMetadataUpdateToPeer, List.flatMap_cons, List.flatMap_nil,
      List.append_nil]
    split
    · generalize reply : metadataUpdate (mergeRemoteClock (net.node k.dst) k.update) k.update.path
        m.size (Binary64.wrapUint64 m.version) m.hash m.localLastModified m.isDeleted m.mode = v
      have number : v.version = Binary64.wrapUint64 m.version := by
        rw [← reply]
        rfl
      obtain ⟨higher, -, bounded⟩ := kept_number (small.rows k.dst) row keep quiet number
      refine ⟨fun x member => ?_, ?_⟩
      · cases List.mem_singleton.mp member
        exact bounded
      · rw [List.map_singleton, List.sum_singleton]
        exact room_lt higher bounded
    · exact ⟨fun x member => absurd member List.not_mem_nil, by simpa using silent⟩

theorem passive_step {rt : Runtime} {repoID : String} {peers : List String} {net after : Net}
    {move : Move} (small : net.Small) (passive : move.passive = true)
    (moved : net.next rt repoID peers move = some after) :
    after.Small ∧ (if move.delivers then 1 else 0) + after.room ≤ net.room := by
  cases move with
  | change | resolve => cases passive
  | deliver i now missing =>
    obtain ⟨k, at_, rfl⟩ := next_deliver moved
    have low := small.flights k (List.mem_of_getElem? at_)
    obtain ⟨replies, flight, bounded, less⟩ :=
      deliver_room rt peers small (net.flight.eraseIdx i) low now missing
    refine ⟨⟨?_, ?_⟩, ?_⟩
    · have rows : ∀ q, q ≠ k.dst → SmallRows (net.node q) := fun q _ => small.rows q
      exact setNode_forall (P := fun _ => SmallRows)
        (smallRows_peer rt (small.rows k.dst) now missing k.src k.repoID low) rows
    · intro x member
      rw [flight] at member
      rcases List.mem_append.mp member with old | new
      · exact small.flights x (List.mem_of_mem_eraseIdx old)
      · exact bounded x new
    · simp only [Net.room, flight, List.map_append, List.sum_append, room_erase at_,
        Move.delivers, if_true]
      omega
  | fetch p sent =>
    cases moved
    refine ⟨⟨setNode_forall (P := fun _ => SmallRows) ?_ (fun q _ => small.rows q),
      small.flights⟩, by simp [Move.delivers, Net.room, setNode]⟩
    unfold SmallRows
    rw [fetch_db]
    exact small.rows p
  | respond p now env peerID payload =>
    cases moved
    exact ⟨⟨setNode_forall (P := fun _ => SmallRows)
      (smallRows_response rt (small.rows p) now env peerID payload) (fun q _ => small.rows q),
      small.flights⟩, by simp [Move.delivers, Net.room, setNode]⟩
  | retry p now task =>
    cases moved
    exact ⟨⟨setNode_forall (P := fun _ => SmallRows) (small.rows p) (fun q _ => small.rows q),
      small.flights⟩, by simp [Move.delivers, Net.room, setNode]⟩

theorem passive_run {rt : Runtime} {repoID : String} {peers : List String} {net late : Net}
    {moves : List Move} (small : net.Small)
    (run : replay (Net.next rt repoID peers) (fun _ move => move.passive = true) net
      moves = some late) : late.Small ∧ moves.countP Move.delivers + late.room ≤ net.room := by
  induction moves generalizing net with
  | nil =>
    cases run
    exact ⟨small, by simp⟩
  | cons move rest ih =>
    unfold replay at run
    split at run
    · rename_i passive
      obtain ⟨after, moved, later⟩ := Option.bind_eq_some_iff.mp run
      obtain ⟨kept, spent⟩ := passive_step small passive moved
      obtain ⟨last, total⟩ := ih kept later
      refine ⟨last, ?_⟩
      rw [List.countP_cons]
      omega
    · cases run

/-- Whatever is stored and under way, the messages that are delivered before the
next change or decision are bounded in number; downloads may run and rows may be
purged meanwhile. -/
theorem exchange_terminates (rt : Runtime) (repoID : String) (peers : List String) {net late : Net}
    {moves : List Move} (small : net.Small)
    (run : replay (Net.next rt repoID peers) (fun _ move => move.passive = true) net
      moves = some late) : moves.countP Move.delivers + late.room ≤ net.room ∧
      ∀ k ∈ late.flight, ∀ now missing,
        let replies := metadataSent
          (handlePeerMetadataUpdate rt (late.node k.dst) now missing k.src k.repoID k.update).2
        replies.length ≤ 1 ∧
          ∀ v ∈ replies, k.update.decodedVersion < v.decodedVersion ∧
            v.version = v.decodedVersion := by
  obtain ⟨kept, total⟩ := passive_run small run
  refine ⟨total, fun k _ now missing => ?_⟩
  exact reply_above rt (kept.rows k.dst) now missing k.src k.repoID k.update

def askedFor : Net :=
  { change "r" [] (Net.tracking "r" "/r") "a" 0 ⟨.add, "f", "h", 1, 5, 420⟩ with
    flight := [⟨"b", "a", "r", ⟨"f", "", 0, 0, 0, false, 0, none⟩, ⟨"b", 0⟩, []⟩] }

theorem askedFor_small : askedFor.Small where
  rows := by
    intro p r f m row
    have recorded : Recorded ((Net.tracking "r" "/r").node "a") "r" ⟨.add, "f", "h", 1, 5, 420⟩ := by
      decide
    have stored := (change_row [] 0 recorded (by decide) p r f).symm.trans row
    split at stored
    · cases stored
      decide
    · cases stored
  flights := by decide

theorem exchange_terminates_askedFor : ∃ late : Net,
    replay (Net.next .plain "r" ["a", "b"]) (fun _ move => move.passive = true) askedFor
      [.deliver 0 0 false, .deliver 0 0 false] = some late ∧ 2 + late.room ≤ askedFor.room := by
  have runs : (replay (Net.next .plain "r" ["a", "b"])
      (fun _ move => move.passive = true) askedFor
      [.deliver 0 0 false, .deliver 0 0 false]).isSome = true := by decide +kernel
  obtain ⟨late, run⟩ := Option.isSome_iff_exists.mp runs
  exact ⟨late, run, (exchange_terminates .plain "r" ["a", "b"] askedFor_small run).1⟩

end P2PSync
