import Mathlib.Data.List.Perm.Basic
import P2PSync.Library.Transition
import P2PSync.Transfer

/-! Peers that exchange metadata updates. A message in flight is delivered once, in any
order. History variables record which change a row or message stands for and what its
sender had processed; the handlers never read them. -/
namespace P2PSync

structure Edit where
  peer : String
  number : Nat
  deriving DecidableEq, Repr

structure Packet where
  src : String
  dst : String
  repoID : String
  update : Update
  /-- History: the change that made the announced version. -/
  edit : Edit
  /-- History: the changes of the file that the sender had processed. -/
  past : List Edit
  deriving DecidableEq

structure History where
  count : String → Nat
  /-- The change that made the row of a peer for a path. -/
  origin : String → String → Edit
  /-- The changes of a path that a peer has made or processed. -/
  past : String → String → List Edit
  /-- What the author of a change had processed when making it. -/
  before : Edit → List Edit
  /-- The content hashes of all changes so far. -/
  hashes : List String

def History.empty : History := ⟨fun _ => 0, fun p _ => ⟨p, 0⟩, fun _ _ => [], fun _ => [], []⟩

structure Net where
  node : String → SyncCoordinator
  flight : List Packet
  hist : History

/-- What can happen next: a local change at a peer, the delivery of the i-th
metadata message in flight, or a step of a download or a conflict decision at a
peer. Requests for contents are not tracked: any response may come at any time. -/
inductive Move where
  | change (p : String) (now : Int) (payload : FileChangedPayload)
  | deliver (i : Nat) (now : Int) (missing : Bool)
  | fetch (p : String) (sent : Bool)
  | respond (p : String) (now : Int) (env : Env) (peerID : String) (payload : FileResponsePayload)
  | retry (p : String) (now : Int) (task : SyncTask)
  | resolve (p path resolution peerID : String)

def Move.delivers : Move → Bool
  | .deliver .. => true
  | _ => false

def setAt {α : Type} (f : String → α) (p : String) (a : α) (q : String) : α :=
  if q = p then a else f q

@[simp] theorem setAt_self {α : Type} (f : String → α) (p : String) (a : α) : setAt f p a p = a :=
  if_pos rfl

theorem setAt_other {α : Type} (f : String → α) {p q : String} (a : α) (ne : q ≠ p) :
    setAt f p a q = f q :=
  if_neg ne

section Network

variable (rt : Runtime) (repoID : String) (peers : List String)

def packets (p : String) (edit : Edit) (past : List Edit) (out : List Output) : List Packet :=
  out.flatMap fun
    | .broadcast (.fileMetadataUpdate r u) =>
      (peers.filter (· ≠ p)).map (fun q => ⟨p, q, r, u, edit, past⟩)
    | .sendToPeer q (.fileMetadataUpdate r u) =>
      if q ∈ peers ∧ q ≠ p then [⟨p, q, r, u, edit, past⟩] else []
    | _ => []

def History.recorded (h : History) (p path hash : String) : History where
  count := setAt h.count p (h.count p + 1)
  origin := setAt h.origin p (setAt (h.origin p) path ⟨p, h.count p⟩)
  past := setAt h.past p (setAt (h.past p) path (⟨p, h.count p⟩ :: h.past p path))
  before := fun e => if e = ⟨p, h.count p⟩ then h.past p path else h.before e
  hashes := hash :: h.hashes

def History.processed (h : History) (p path : String) (k : Packet) (accepted : Bool) : History where
  count := h.count
  origin := if accepted then setAt h.origin p (setAt (h.origin p) path k.edit) else h.origin
  past := setAt h.past p (setAt (h.past p) path (k.past ++ h.past p path))
  before := h.before
  hashes := h.hashes

def change (net : Net) (p : String) (now : Int) (payload : FileChangedPayload) : Net :=
  let sc := net.node p
  let path := relativePath sc repoID payload.path
  let result := handleLocalFileChanged sc now repoID payload
  let hist := if Recorded sc repoID payload then net.hist.recorded p path payload.hash else net.hist
  ⟨setAt net.node p result.sc,
    net.flight ++ packets peers p (hist.origin p path) (hist.past p path) result.out, hist⟩

def deliver (net : Net) (rest : List Packet) (k : Packet) (now : Int) (missing : Bool) : Net :=
  let sc := net.node k.dst
  let path := k.update.path
  let result := handlePeerMetadataUpdate rt sc now missing k.src k.repoID k.update
  let hist :=
    if ignoredPath path then net.hist
    else net.hist.processed k.dst path k
      ((decision sc k.src k.repoID k.update).action = .acceptRemote)
  ⟨setAt net.node k.dst result.1,
    rest ++ packets peers k.dst (hist.origin k.dst path) (hist.past k.dst path)
      result.2, hist⟩

def setNode (net : Net) (p : String) (sc : SyncCoordinator) : Net :=
  { net with node := setAt net.node p sc }

def fetch (sc : SyncCoordinator) (sent : Bool) : SyncCoordinator :=
  match queueRound sc with
  | (sc, none) => sc
  | (sc, some task) => (executeSyncTask sc sent task).1

def resolveAt (net : Net) (p path resolution peerID : String) : Net :=
  let result := handleConflictResolution (net.node p) repoID path resolution peerID
  ⟨setAt net.node p result.sc,
    net.flight ++ packets peers p (net.hist.origin p path) (net.hist.past p path) result.out,
    net.hist⟩

def Net.next (net : Net) : Move → Option Net
  | .change p now payload =>
    if p ∈ peers ∧ payload.Valid then some (change repoID peers net p now payload) else none
  | .deliver i now missing =>
    net.flight[i]?.map (deliver rt peers net (net.flight.eraseIdx i) · now missing)
  | .fetch p sent => some (setNode net p (fetch (net.node p) sent))
  | .respond p now env peerID payload =>
    some (setNode net p (handleFileResponse rt (net.node p) now env peerID payload).sc)
  | .retry p now task => some (setNode net p (retryDownload rt (net.node p) now task))
  | .resolve p path resolution peerID =>
    if p ∈ peers then some (resolveAt repoID peers net p path resolution peerID) else none

structure Net.Initial (net : Net) : Prop where
  named : ∀ p ∈ peers, (net.node p).localPeerID = p
  active : ∀ p ∈ peers, repoID ∈ (net.node p).workers
  known : ∀ p ∈ peers, repoID ∈ (net.node p).db.repositories
  blank : ∀ p ∈ peers, ∀ path, (net.node p).db.get repoID path = none
  quiet : net.flight = []
  unwritten : net.hist = .empty

theorem packets_spec {p : String} {edit : Edit} {past : List Edit} {out : List Output}
    {k : Packet} (sent : k ∈ packets peers p edit past out) :
    k.src = p ∧ k.dst ∈ peers ∧ k.dst ≠ p ∧ k.edit = edit ∧ k.past = past ∧
      (.broadcast (.fileMetadataUpdate k.repoID k.update) ∈ out ∨
        .sendToPeer k.dst (.fileMetadataUpdate k.repoID k.update) ∈ out) := by
  obtain ⟨o, member, h⟩ := List.mem_flatMap.mp sent
  split at h
  · obtain ⟨q, hq, rfl⟩ := List.mem_map.mp h
    obtain ⟨inside, other⟩ := List.mem_filter.mp hq
    exact ⟨rfl, inside, of_decide_eq_true other, rfl, rfl, Or.inl member⟩
  · split at h
    · rename_i target
      cases List.mem_singleton.mp h
      exact ⟨rfl, target.1, target.2, rfl, rfl, Or.inr member⟩
    · cases h
  · cases h

theorem packets_send {p q : String} {edit : Edit} {past : List Edit} {out : List Output}
    {r : String} {u : Update} (sent : .sendToPeer q (.fileMetadataUpdate r u) ∈ out)
    (inside : q ∈ peers) (other : q ≠ p) :
    ⟨p, q, r, u, edit, past⟩ ∈ packets peers p edit past out :=
  List.mem_flatMap.mpr ⟨_, sent, by simp [inside, other]⟩

end Network

theorem setAt_same {α : Type} (f : String → α) (p : String) : setAt f p (f p) = f := by
  funext q
  by_cases same : q = p
  · rw [same, setAt_self]
  · rw [setAt_other f _ same]

theorem setAt_setAt {α : Type} (g : String → String → α) (p path : String) (a : α)
    (q f : String) :
    setAt g p (setAt (g p) path a) q f = if q = p ∧ f = path then a else g q f := by
  by_cases same : q = p
  · by_cases here : f = path <;> simp [setAt, same, here]
  · simp [setAt, same]

section

variable (h : History) (p path : String) (k : Packet) (accepted : Bool) (q f : String)

theorem History.recorded_origin (hash q f : String) : (h.recorded p path hash).origin q f =
    if q = p ∧ f = path then ⟨p, h.count p⟩ else h.origin q f :=
  setAt_setAt ..

theorem History.recorded_past (hash q f : String) : (h.recorded p path hash).past q f =
    if q = p ∧ f = path then ⟨p, h.count p⟩ :: h.past p path else h.past q f :=
  setAt_setAt ..

theorem History.processed_origin : (h.processed p path k accepted).origin q f =
    if accepted ∧ q = p ∧ f = path then k.edit else h.origin q f := by
  cases accepted <;> simp [processed, setAt_setAt]

theorem History.processed_past : (h.processed p path k accepted).past q f =
    if q = p ∧ f = path then k.past ++ h.past p path else h.past q f :=
  setAt_setAt ..

end

section Moves

variable {rt : Runtime} {repoID : String} {peers : List String} {net : Net}

section

variable {after : Net} {p : String} {now : Int} {payload : FileChangedPayload}

theorem next_change (moved : net.next rt repoID peers (.change p now payload) = some after) :
    p ∈ peers ∧ payload.Valid ∧ after = change repoID peers net p now payload := by
  simp only [Net.next, Option.ite_none_right_eq_some, Option.some.injEq] at moved
  exact ⟨moved.1.1, moved.1.2, moved.2.symm⟩

theorem next_deliver {i : Nat} {now : Int} {missing : Bool}
    (moved : net.next rt repoID peers (.deliver i now missing) = some after) :
    ∃ k, net.flight[i]? = some k ∧
      after = deliver rt peers net (net.flight.eraseIdx i) k now missing := by
  simp only [Net.next, Option.map_eq_some_iff] at moved
  obtain ⟨k, at_, eq⟩ := moved
  exact ⟨k, at_, eq.symm⟩

theorem next_resolve {path resolution peerID : String}
    (moved : net.next rt repoID peers (.resolve p path resolution peerID) = some after) :
    p ∈ peers ∧ after = resolveAt repoID peers net p path resolution peerID := by
  simp only [Net.next, Option.ite_none_right_eq_some, Option.some.injEq] at moved
  exact ⟨moved.1, moved.2.symm⟩

theorem setNode_forall {P : String → SyncCoordinator → Prop} {p : String} {sc : SyncCoordinator}
    (own : P p sc) (rest : ∀ q, q ≠ p → P q (net.node q)) (q : String) :
    P q ((setNode net p sc).node q) := by
  change P q (setAt net.node p sc q)
  by_cases same : q = p
  · rw [same, setAt_self]
    exact own
  · rw [setAt_other net.node sc same]
    exact rest q same

theorem change_dropped (now : Int) (dropped : ¬ Recorded (net.node p) repoID payload) :
    change repoID peers net p now payload = net := by
  obtain ⟨same, silent⟩ := local_dropped dropped now
  simp only [change, same, silent, if_neg dropped, setAt_same]
  simp [packets]

def announcements (peers : List String) (net : Net) (repoID p : String)
    (payload : FileChangedPayload) : List Packet :=
  let path := relativePath (net.node p) repoID payload.path
  let edit : Edit := ⟨p, net.hist.count p⟩
  if announced payload then
    (peers.filter (· ≠ p)).map (fun q =>
      ⟨p, q, repoID, recordedUpdate (net.node p) repoID payload, edit,
        edit :: net.hist.past p path⟩)
  else []

theorem mem_announcements {k : Packet} :
    k ∈ announcements peers net repoID p payload ↔ announced payload = true ∧
      ∃ q ∈ peers, q ≠ p ∧ k = ⟨p, q, repoID, recordedUpdate (net.node p) repoID payload,
        ⟨p, net.hist.count p⟩, ⟨p, net.hist.count p⟩ ::
          net.hist.past p (relativePath (net.node p) repoID payload.path)⟩ := by
  unfold announcements
  split
  · rename_i loud
    simp only [List.mem_map, List.mem_filter, decide_eq_true_eq, loud, true_and, and_assoc,
      eq_comm (b := k)]
  · rename_i silent
    simp [silent]

theorem change_recorded {now : Int} {db : DB} (recorded : Recorded (net.node p) repoID payload)
    (saved : (net.node p).db.save now (recordedMeta (net.node p) repoID payload) = some db) :
    change repoID peers net p now payload =
      ⟨setAt net.node p { tickClocks (net.node p) with db := db },
        net.flight ++ announcements peers net repoID p payload,
        net.hist.recorded p (relativePath (net.node p) repoID payload.path) payload.hash⟩ := by
  simp only [change, local_recorded recorded saved, if_pos recorded, announcements,
    History.recorded_origin, History.recorded_past, and_self, if_true]
  cases announced payload <;> simp [packets]

end

section Change

variable (peers) {p : String} {payload : FileChangedPayload} (now : Int)
  (recorded : Recorded (net.node p) repoID payload)
  (known : repoID ∈ (net.node p).db.repositories)

include recorded known

theorem change_hist : (change repoID peers net p now payload).hist =
    net.hist.recorded p (relativePath (net.node p) repoID payload.path) payload.hash := by
  obtain ⟨db, saved⟩ := DB.save_known (m := recordedMeta (net.node p) repoID payload) known now
  rw [change_recorded recorded saved]

theorem change_flight : (change repoID peers net p now payload).flight =
    net.flight ++ announcements peers net repoID p payload := by
  obtain ⟨db, saved⟩ := DB.save_known (m := recordedMeta (net.node p) repoID payload) known now
  rw [change_recorded recorded saved]

theorem change_row (q r path : String) :
    ((change repoID peers net p now payload).node q).db.get r path =
      if q = p ∧ (r, path) = (repoID, relativePath (net.node p) repoID payload.path)
      then some { recordedMeta (net.node p) repoID payload with updatedAt := now }
      else (net.node q).db.get r path := by
  obtain ⟨db, saved⟩ := DB.save_known (m := recordedMeta (net.node p) repoID payload) known now
  rw [change_recorded recorded saved]
  by_cases same : q = p
  · subst same
    simp only [setAt_self, true_and]
    split
    · rename_i here
      cases here
      exact DB.get_save_self saved
    · rename_i elsewhere
      exact DB.get_save_other saved elsewhere
  · simp only [setAt_other _ _ same, same, false_and, if_false]

end Change

theorem change_frame (repoID : String) (peers : List String) (net : Net) (p : String)
    (payload : FileChangedPayload) (now : Int) (q : String) :
    let after := (change repoID peers net p now payload).node q
    after.localPeerID = (net.node q).localPeerID ∧ after.workers = (net.node q).workers ∧
      after.connections = (net.node q).connections ∧
      after.db.repositories = (net.node q).db.repositories := by
  by_cases same : q = p
  · subst same
    simp only [change, setAt_self]
    exact local_frame ..
  · simp only [change, setAt_other _ _ same, and_self]

theorem deliver_frame (rt : Runtime) (peers : List String) (net : Net) (rest : List Packet)
    (k : Packet) (now : Int) (missing : Bool) (q : String) :
    let after := (deliver rt peers net rest k now missing).node q
    after.localPeerID = (net.node q).localPeerID ∧ after.workers = (net.node q).workers ∧
      after.connections = (net.node q).connections ∧
      after.db.repositories = (net.node q).db.repositories := by
  by_cases same : q = k.dst
  · subst same
    simp only [deliver, setAt_self]
    exact peer_frame ..
  · simp only [deliver, setAt_other _ _ same, and_self]

variable (rt peers net) in
theorem deliver_hist (rest : List Packet) {k : Packet} (now : Int) (missing : Bool)
    (heard : ignoredPath k.update.path = false) :
    (deliver rt peers net rest k now missing).hist = net.hist.processed k.dst k.update.path k
      ((decision (net.node k.dst) k.src k.repoID k.update).action = .acceptRemote) := by
  simp [deliver, heard]

variable (rt peers) in
theorem deliver_row (rest : List Packet) {k : Packet} (now : Int) (missing : Bool)
    (heard : ignoredPath k.update.path = false)
    (known : k.repoID ∈ (net.node k.dst).db.repositories) (p r path : String) :
    ((deliver rt peers net rest k now missing).node p).db.get r path =
      if (decision (net.node k.dst) k.src k.repoID k.update).action = .acceptRemote ∧
        p = k.dst ∧ (r, path) = (k.repoID, k.update.path)
      then some { acceptedMeta k.repoID k.update with updatedAt := now }
      else (net.node p).db.get r path := by
  by_cases here : p = k.dst
  · subst here
    simp only [deliver, setAt_self, peer_row rt now missing k.src k.update known, heard, true_and]
  · simp only [deliver, setAt_other _ _ here, here, false_and, and_false, if_false]

theorem deliver_row_declined (rt : Runtime) (peers : List String) (rest : List Packet) {k : Packet}
    (now : Int) (missing : Bool)
    (declined : (decision (net.node k.dst) k.src k.repoID k.update).action ≠ .acceptRemote)
    (p r path : String) : ((deliver rt peers net rest k now missing).node p).db.get r path =
      (net.node p).db.get r path := by
  by_cases here : p = k.dst
  · subst here
    simp only [deliver, setAt_self, handlePeerMetadataUpdate_db, declined, and_false, if_false]
  · simp only [deliver, setAt_other _ _ here]

/-- The reply to a message that the receiver's own row outranks. -/
def Replied (peers : List String) (net : Net) (k x : Packet) : Prop :=
  (decision (net.node k.dst) k.src k.repoID k.update).action = .keepLocal ∧
    (decision (net.node k.dst) k.src k.repoID k.update).isConflict = false ∧
    ∃ m, (net.node k.dst).db.get k.repoID k.update.path = some m ∧ k.src ∈ peers ∧
      k.src ≠ k.dst ∧
      x = ⟨k.dst, k.src, k.repoID,
        metadataUpdate (mergeRemoteClock (net.node k.dst) k.update) k.update.path m.size
          (Binary64.wrapUint64 m.version) m.hash m.localLastModified m.isDeleted m.mode,
        net.hist.origin k.dst k.update.path, k.past ++ net.hist.past k.dst k.update.path⟩

variable (rt peers net) in
theorem deliver_replies (rest : List Packet) {k : Packet} (now : Int) (missing : Bool)
    (heard : ignoredPath k.update.path = false) :
    ∃ replies, (deliver rt peers net rest k now missing).flight = rest ++ replies ∧
      ∀ x ∈ replies, Replied peers net k x := by
  refine ⟨_, rfl, fun x sent => ?_⟩
  obtain ⟨src, inside, other, edit, past, out⟩ := packets_spec peers sent
  rcases out with out | out
  · rcases peer_sends rt now missing out with ⟨msg, eq⟩ | ⟨-, -, m, -, eq⟩ <;> cases eq
  · rcases peer_sends rt now missing out with ⟨msg, eq⟩ | ⟨keep, silent, m, row, eq⟩
    · cases eq
    · obtain ⟨xs, xd, xr, xu, xe, xp⟩ := x
      simp only [sendMetadataUpdateToPeer, Output.sendToPeer.injEq,
        P2PMessage.fileMetadataUpdate.injEq] at eq
      obtain ⟨rfl, rfl, rfl⟩ := eq
      refine ⟨keep, silent, m, row, inside, other, ?_⟩
      simp only [heard, keep, Bool.false_eq_true, if_false, History.processed_origin,
        History.processed_past, reduceCtorEq, decide_false, false_and, and_self, if_true] at edit past
      simp only at src
      rw [src, edit, past]

theorem deliver_flight {rest : List Packet} {k x : Packet} {now : Int} {missing : Bool}
    (heard : ignoredPath k.update.path = false)
    (member : x ∈ (deliver rt peers net rest k now missing).flight) :
    x ∈ rest ∨ Replied peers net k x := by
  obtain ⟨replies, flight, sent⟩ := deliver_replies rt peers net rest now missing heard
  rw [flight] at member
  exact (List.mem_append.mp member).imp_right (sent x)

variable (rt) in
theorem deliver_reply (rest : List Packet) {k : Packet} (now : Int) (missing : Bool)
    {m : FileMetadata} (heard : ignoredPath k.update.path = false)
    (keep : (decision (net.node k.dst) k.src k.repoID k.update).action = .keepLocal)
    (silent : (decision (net.node k.dst) k.src k.repoID k.update).isConflict = false)
    (row : (net.node k.dst).db.get k.repoID k.update.path = some m) (inside : k.src ∈ peers)
    (other : k.src ≠ k.dst) :
    ∃ x ∈ (deliver rt peers net rest k now missing).flight, x.src = k.dst ∧ x.dst = k.src ∧
      x.repoID = k.repoID ∧ x.update =
        metadataUpdate (mergeRemoteClock (net.node k.dst) k.update) k.update.path m.size
          (Binary64.wrapUint64 m.version) m.hash m.localLastModified m.isDeleted m.mode := by
  refine ⟨_, List.mem_append_right _ (packets_send peers ?_ inside other), rfl, rfl, rfl, rfl⟩
  rw [peer_keep rt now missing heard keep, silent, row]
  exact List.mem_cons_self

theorem deliver_ignored {rest : List Packet} {k : Packet} (now : Int) (missing : Bool)
    (ignored : ignoredPath k.update.path = true) :
    deliver rt peers net rest k now missing = { net with flight := rest } := by
  simp only [deliver, peer_ignored rt now missing ignored, ignored, if_true, setAt_same, packets,
    List.flatMap_nil, List.append_nil]

theorem fetch_touches (sc : SyncCoordinator) (sent : Bool) :
    ∃ queue pending, fetch sc sent = { sc with queue := queue, pendingDownloads := pending } := by
  obtain ⟨queue, popped⟩ := queueRound_touches sc
  unfold fetch
  split
  · rename_i sc' round
    rw [round] at popped
    exact ⟨queue, _, popped⟩
  · rename_i sc' task round
    rw [round] at popped
    obtain ⟨queue', pending, executed⟩ := executeSyncTask_touches sc' sent task
    rw [executed, show sc' = _ from popped]
    exact ⟨queue', pending, rfl⟩

theorem fetch_db (sc : SyncCoordinator) (sent : Bool) : (fetch sc sent).db = sc.db := by
  obtain ⟨_, _, eq⟩ := fetch_touches sc sent
  rw [eq]

theorem fetch_frame (sc : SyncCoordinator) (sent : Bool) : SameFrame (fetch sc sent) sc := by
  obtain ⟨_, _, eq⟩ := fetch_touches sc sent
  rw [eq]
  exact ⟨rfl, rfl, rfl, rfl⟩

variable (repoID peers net) in
theorem resolveAt_row (p path resolution peerID q r f : String) :
    ((resolveAt repoID peers net p path resolution peerID).node q).db.get r f =
      if q = p ∧ resolution = "remote" ∧ (r, f) = (repoID, path) then none
      else (net.node q).db.get r f := by
  by_cases same : q = p
  · subst same
    simp only [resolveAt, setAt_self, resolution_row, true_and]
  · simp only [resolveAt, setAt_other _ _ same, same, false_and, if_false]

variable (repoID peers net) in
theorem resolveAt_frame (p path resolution peerID q : String) :
    SameFrame ((resolveAt repoID peers net p path resolution peerID).node q) (net.node q) := by
  by_cases same : q = p
  · subst same
    simp only [resolveAt, setAt_self]
    exact resolution_frame (net.node q) repoID path resolution peerID
  · simp only [resolveAt, setAt_other _ _ same]
    exact ⟨rfl, rfl, rfl, rfl⟩

theorem resolveAt_flight {p path resolution peerID : String} {x : Packet}
    (member : x ∈ (resolveAt repoID peers net p path resolution peerID).flight) :
    x ∈ net.flight ∨ (x.src = p ∧ x.dst ∈ peers ∧ x.dst ≠ p ∧ x.repoID = repoID ∧
      x.update.path = path ∧
      ((resolution = "local" ∧ ∃ m, (net.node p).db.get repoID path = some m ∧
          x.update = metadataUpdate (net.node p) path m.size (Binary64.wrapUint64 m.version) m.hash
            m.localLastModified m.isDeleted m.mode) ∨
        (resolution = "remote" ∧ x.update = metadataUpdate (net.node p) path 0 0 "" 0 false 0))) := by
  rcases List.mem_append.mp member with old | sent
  · exact Or.inl old
  · right
    obtain ⟨src, inside, other, -, -, out⟩ := packets_spec peers sent
    rcases out with out | out
    · rcases resolution_sends out with ⟨file, eq⟩ | ⟨-, m, -, eq⟩ | ⟨-, eq⟩ <;> cases eq
    · rcases resolution_sends out with ⟨file, eq⟩ | ⟨own, m, row, eq⟩ | ⟨remote, eq⟩
      · cases eq
      all_goals
        simp only [sendMetadataUpdateToPeer, Output.sendToPeer.injEq,
          P2PMessage.fileMetadataUpdate.injEq] at eq
        obtain ⟨-, repo, update⟩ := eq
        refine ⟨src, inside, other, repo, by rw [update]; rfl, ?_⟩
      · exact Or.inl ⟨own, m, row, update⟩
      · exact Or.inr ⟨remote, update⟩

variable (repoID net) in
theorem resolveAt_blank {p peerID : String} (path : String) (inside : peerID ∈ peers)
    (other : peerID ≠ p) :
    ∃ x ∈ (resolveAt repoID peers net p path "remote" peerID).flight, x.src = p ∧ x.dst = peerID ∧
      x.repoID = repoID ∧ x.update = metadataUpdate (net.node p) path 0 0 "" 0 false 0 := by
  refine ⟨_, List.mem_append_right _ (packets_send peers ?_ inside other), rfl, rfl, rfl, rfl⟩
  simp only [handleConflictResolution]
  exact List.mem_append_right _ List.mem_cons_self

end Moves

structure WireExact (version : Int) : Prop where
  nonneg : 0 ≤ version
  range : version < 2 ^ 63
  exact : (Binary64.toUint64 (Binary64.wrapUint64 version) : Int) = version

theorem WireExact.wrap {version : Int} (h : WireExact version) :
    (Binary64.wrapUint64 version : Int) = version :=
  Binary64.wrapUint64_of_range h.nonneg (by have := h.range; omega)

theorem WireExact.stored {version : Nat} (h : WireExact version) :
    Binary64.wrapInt64 version = version :=
  Binary64.wrapInt64_of_range (by omega) h.range

theorem recorded_exact {sc : SyncCoordinator} {repoID : String} {payload : FileChangedPayload}
    {row : Option FileMetadata}
    (here : sc.db.get repoID (relativePath sc repoID payload.path) = row)
    (exact : ∀ m, row = some m → WireExact m.version)
    (number : ((recordedUpdate sc repoID payload).decodedVersion : Int) = nextVersion row payload) :
    WireExact (nextVersion row payload) ∧ ∀ m, row = some m →
      nextVersion row payload = if reusesVersion m payload then m.version else m.version + 1 := by
  have nonneg : 0 ≤ nextVersion row payload := (Int.natCast_nonneg _).trans_eq number
  have range : nextVersion row payload < 2 ^ 63 := by
    unfold nextVersion
    split
    · decide
    · split
      · exact (exact _ rfl).range
      · exact Int.bmod_lt (by decide)
  have back := number
  simp only [recordedUpdate, metadataUpdate, Update.decodedVersion, here] at back
  refine ⟨⟨nonneg, range, back⟩, ?_⟩
  intro m eq
  subst eq
  exact nextVersion_some (exact m rfl).nonneg (exact m rfl).range nonneg

section Held

variable (repoID file : String)

def held (net : Net) (p : String) : Int := rowVersion ((net.node p).db.get repoID file)

def heldHash (net : Net) (p : String) : String := rowHash ((net.node p).db.get repoID file)

def Changes (net : Net) (p : String) (payload : FileChangedPayload) : Prop :=
  Recorded (net.node p) repoID payload ∧ relativePath (net.node p) repoID payload.path = file

instance (net : Net) (p : String) (payload : FileChangedPayload) :
    Decidable (Changes repoID file net p payload) :=
  inferInstanceAs (Decidable (_ ∧ _))

variable {repoID file} {net after : Net}

theorem held_row {p : String} {m : FileMetadata} (row : (net.node p).db.get repoID file = some m) :
    held repoID file net p = m.version := by
  rw [held, row, rowVersion]

theorem held_same {p : String}
    (same : (after.node p).db.get repoID file = (net.node p).db.get repoID file) :
    held repoID file after p = held repoID file net p := by
  simp only [held, same]

theorem held_nonneg {p : String}
    (rows : ∀ m, (net.node p).db.get repoID file = some m → WireExact m.version) :
    0 ≤ held repoID file net p := by
  cases row : (net.node p).db.get repoID file with
  | none => rw [held, row, rowVersion]
  | some m => rw [held_row row]; exact (rows m row).nonneg

theorem held_change (peers : List String) {p : String} {payload : FileChangedPayload} (now : Int)
    (known : repoID ∈ (net.node p).db.repositories)
    (rows : ∀ m, (net.node p).db.get repoID file = some m → WireExact m.version)
    (changes : Changes repoID file net p payload)
    (number : ((recordedUpdate (net.node p) repoID payload).decodedVersion : Int) =
      nextVersion ((net.node p).db.get repoID file) payload) :
    let next := nextVersion ((net.node p).db.get repoID file) payload
    WireExact next ∧ held repoID file (change repoID peers net p now payload) p = next ∧
      held repoID file net p ≤ next := by
  obtain ⟨recorded, here⟩ := changes
  obtain ⟨survives, step⟩ := recorded_exact (by rw [here]) rows number
  refine ⟨survives, ?_, ?_⟩
  · have row := change_row peers now recorded known p repoID file
    rw [here, if_pos ⟨rfl, rfl⟩] at row
    rw [held_row row]
    simp only [recordedMeta, localMeta, here]
  · cases row : (net.node p).db.get repoID file with
    | none => simp [held, row, rowVersion, nextVersion]
    | some m =>
      have grown := step m row
      rw [row] at grown
      rw [held_row row, grown]
      split <;> omega

theorem ownVersion_number {p : String}
    (rows : ∀ m, (net.node p).db.get repoID file = some m → WireExact m.version) :
    ((ownVersion (net.node p) ((net.node p).db.get repoID file)).lamportVersion : Int) =
      held repoID file net p := by
  cases row : (net.node p).db.get repoID file with
  | none => simp [held, row, rowVersion, ownVersion]
  | some m => rw [held_row row]; exact (rows m row).wrap

theorem ownVersion_hash (p : String) :
    (ownVersion (net.node p) ((net.node p).db.get repoID file)).hash =
      heldHash repoID file net p := by
  cases row : (net.node p).db.get repoID file <;> simp [heldHash, row, rowHash, ownVersion]

section

variable {p : String} (src : String) {u : Update} (here : u.path = file)
  (rows : ∀ m, (net.node p).db.get repoID file = some m → WireExact m.version)

include here rows

theorem decision_numbers : match (decision (net.node p) src repoID u).action with
    | .acceptRemote => held repoID file net p ≤ u.decodedVersion
    | .keepLocal => (u.decodedVersion : Int) ≤ held repoID file net p
    | .skip => u.hash = heldHash repoID file net p := by
  have number := ownVersion_number rows
  have remote : (remoteVersion src u).lamportVersion = u.decodedVersion := rfl
  rw [decision, here]
  split
  · rename_i accept
    have below := ((resolve_accept_iff _ _).mp accept).2
    rw [rank_lt_iff] at below
    omega
  · rename_i keep
    have above := ((resolve_keep_iff _ _).mp keep).2
    rw [rank_lt_iff] at above
    omega
  · rename_i skip
    rw [← ownVersion_hash]
    exact ((resolve_skip_iff _ _).mp skip).symm

theorem conflict_numbers : (decision (net.node p) src repoID u).isConflict = true ↔
      heldHash repoID file net p ≠ u.hash ∧ held repoID file net p = u.decodedVersion := by
  have remote : (remoteVersion src u).lamportVersion = u.decodedVersion := rfl
  rw [decision, here, resolve_conflict_iff, ownVersion_hash, remote, ← ownVersion_number rows]
  exact and_congr_right (fun _ => Int.natCast_inj.symm)

end

end Held

def Net.tracking (repoID root : String) : Net :=
  ⟨fun p => addRepository (.new p) 0 repoID root, [], .empty⟩

theorem Net.tracking_initial (repoID root : String) (peers : List String) :
    (Net.tracking repoID root).Initial repoID peers where
  named := fun _ _ => rfl
  active := by simp [tracking, addRepository]
  known := by simp [tracking, addRepository, DB.saveRepository]
  blank := fun _ _ _ => rfl
  quiet := rfl
  unwritten := rfl

/-- The hash of the live file, as the peer records it. A missing row and a
tombstone count the same. -/
def liveHash (sc : SyncCoordinator) (repoID path : String) : Option String :=
  (sc.db.get repoID path).bind (fun m => if m.isDeleted then none else some m.hash)

end P2PSync
