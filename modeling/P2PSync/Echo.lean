import P2PSync.Agreement

/-! After a remote version is stored, the watcher sees the file change. The event
is an echo of the update unless it repeats what the row records. -/
namespace P2PSync

inductive Way where
  | inline (text : String)
  | stream (port : Int)

namespace Way

def payload (path hash : String) : Way → FileResponsePayload
  | .inline text => inlineResponse path hash text
  | .stream port => ⟨path, hash, "", "", port, ""⟩

def target (root path : String) : Way → String
  | .inline _ => join root path
  | .stream _ => fsAppend root (normalizePath path)

def disk (rt : Runtime) (k : Process) (t : Disk) (root path : String) (u : Update) (c : Content)
    (out : List Output) : Way → Disk
  | .inline _ => out.foldl (Disk.output k) t
  | .stream _ => Disk.download rt k t root (normalizePath path) c u.decodedSize u.hash u.decodedMode

def Applies (rt : Runtime) (k : Process) (t : Disk) (root path : String) (u : Update) (c : Content)
    (env : Env) : Way → Prop
  | .inline text => rt.decodeString text = some c ∧ text ≠ "" ∧ rt.sha256 c = u.hash ∧
      t.Writable k.access (placeOf (join root path)) ∧ env.write = .whole
  | .stream port => 0 < port ∧ port ≤ 65535 ∧ rt.sha256 c = u.hash ∧ u.decodedSize = c.length ∧
      Disk.Receivable k t (fsAppend root (normalizePath path)) ∧ env.dialed = true

/-- The bits of the stored file are those of the update: for an inline write the
file has them already or is new and the mode is unmasked, for a stream the mode
is not zero and fits, or the temporary file had none. -/
def Keeps (k : Process) (t : Disk) (root path : String) (mode : Nat) : Way → Prop
  | .inline _ => (∃ m, t.mode (placeOf (join root path)) = some m ∧ k.rewritten m = mode) ∨
      t.mode (placeOf (join root path)) = none ∧ mode < 0o1000 ∧ mode &&& k.umask = 0
  | .stream _ => 0 < mode ∧ mode < 0o10000 ∨ mode = 0 ∧
      ((∃ m, t.mode (placeOf (fsAppend root (normalizePath path) ++ ".tmp")) = some m ∧
        k.rewritten m = 0) ∨
      t.mode (placeOf (fsAppend root (normalizePath path) ++ ".tmp")) = none ∧
        Nat.ldiff 0o666 k.umask = 0)

end Way

/-! Permission bits. -/

theorem ldiff_le (a b : Nat) : a.ldiff b ≤ a := by
  apply Nat.le_of_testBit
  intro i set
  rw [Nat.testBit_ldiff, Bool.and_eq_true] at set
  exact set.1

theorem ldiff_eq_self_iff (a b : Nat) : a.ldiff b = a ↔ a &&& b = 0 := by
  constructor
  · intro same
    apply Nat.eq_of_testBit_eq
    intro i
    have bit := congrArg (Nat.testBit · i) same
    simp only [Nat.testBit_ldiff] at bit
    rw [Nat.testBit_and, Nat.zero_testBit]
    cases ha : a.testBit i <;> cases hb : b.testBit i <;> simp_all
  · intro disjoint
    apply Nat.eq_of_testBit_eq
    intro i
    have bit := congrArg (Nat.testBit · i) disjoint
    simp only [Nat.testBit_and, Nat.zero_testBit] at bit
    rw [Nat.testBit_ldiff]
    cases ha : a.testBit i <;> cases hb : b.testBit i <;> simp_all

theorem and_high {a : Nat} (small : a < 2 ^ 9) (q : Nat) : a &&& 2 ^ 9 * q = 0 := by
  apply Nat.eq_of_testBit_eq
  intro i
  rw [Nat.testBit_and, Nat.testBit_two_pow_mul, Nat.zero_testBit]
  by_cases high : 9 ≤ i
  · rw [Nat.testBit_lt_two_pow (lt_of_lt_of_le small (Nat.pow_le_pow_right (by decide) high)),
      Bool.false_and]
  · simp [high]

theorem rewritten_le (k : Process) (mode : Nat) : k.rewritten mode ≤ mode := by
  unfold Process.rewritten
  split_ifs
  · exact le_refl _
  · exact ldiff_le _ _
  · exact ldiff_le _ _

theorem rewritten_small (k : Process) {mode : Nat} (small : mode < 0o1000) :
    k.rewritten mode = mode := by
  unfold Process.rewritten
  split_ifs
  · rfl
  · exact (ldiff_eq_self_iff mode (2 ^ 9 * 6)).mpr (and_high small 6)
  · exact (ldiff_eq_self_iff mode (2 ^ 9 * 4)).mpr (and_high small 4)

theorem syscallMode_low {mode : Nat} (low : mode < 2 ^ 20) : syscallMode mode = mode &&& 0o777 := by
  have clear : ∀ i, 20 ≤ i → mode.testBit i = false := fun i high =>
    Nat.testBit_lt_two_pow (lt_of_lt_of_le low (Nat.pow_le_pow_right (by decide) high))
  simp [syscallMode, clear]

theorem written_mode_iff (k : Process) (mode : Nat) :
    k.rewritten (k.created (syscallMode mode)) = mode ↔ mode < 0o1000 ∧ mode &&& k.umask = 0 := by
  have small : mode < 0o1000 → k.rewritten (k.created (syscallMode mode)) = mode.ldiff k.umask := by
    intro below
    have plain : mode &&& 0o777 = mode := Nat.and_two_pow_sub_one_of_lt_two_pow (n := 9) below
    have whole : mode &&& 0o7777 = mode :=
      Nat.and_two_pow_sub_one_of_lt_two_pow (n := 12) (by omega)
    rw [syscallMode_low (by omega), plain, Process.created, whole,
      rewritten_small k (lt_of_le_of_lt (ldiff_le _ _) below)]
  constructor
  · intro same
    have created : mode ≤ syscallMode mode &&& 0o7777 := by
      calc mode = k.rewritten (k.created (syscallMode mode)) := same.symm
        _ ≤ k.created (syscallMode mode) := rewritten_le _ _
        _ ≤ syscallMode mode &&& 0o7777 := ldiff_le _ _
    have low : mode ≤ 0o7777 := created.trans Nat.and_le_right
    rw [syscallMode_low (by omega)] at created
    have below : mode ≤ 0o777 := created.trans (Nat.and_le_left.trans Nat.and_le_right)
    rw [small (by omega)] at same
    exact ⟨by omega, (ldiff_eq_self_iff _ _).mp same⟩
  · rintro ⟨below, unmasked⟩
    rw [small below]
    exact (ldiff_eq_self_iff _ _).mpr unmasked

theorem and_mode_iff (mode : Nat) : mode &&& 0o7777 = mode ↔ mode < 0o10000 := by
  constructor
  · intro same
    have bound : mode &&& 0o7777 ≤ 0o7777 := Nat.and_le_right
    omega
  · intro below
    exact Nat.and_two_pow_sub_one_of_lt_two_pow (n := 12) below

def Way.bits (k : Process) (t : Disk) (root path : String) (mode : Nat) : Way → Nat
  | .inline _ => inlineMode k t (placeOf (join root path)) mode
  | .stream _ => Disk.receivedMode k t (fsAppend root (normalizePath path)) mode

theorem Way.bits_eq_iff (k : Process) (t : Disk) (root path : String) (mode : Nat) (way : Way) :
    way.bits k t root path mode = mode ↔ way.Keeps k t root path mode := by
  cases way with
  | inline text =>
    simp only [bits, Keeps, inlineMode]
    cases t.mode (placeOf (join root path)) with
    | none => simp [written_mode_iff]
    | some m => simp
  | stream port =>
    simp only [bits, Keeps, Disk.receivedMode]
    by_cases zero : mode = 0
    · subst zero
      cases t.mode (placeOf (fsAppend root (normalizePath path) ++ ".tmp")) with
      | none => simp [Process.created]
      | some m => simp
    · have positive : 0 < mode := Nat.pos_of_ne_zero zero
      simp [zero, positive, and_mode_iff]

/-! The state when the content is there. -/

structure Fetching (rt : Runtime) (sc : SyncCoordinator) (now : Int) (missing : Bool)
    (peerID repoID : String) (u : Update) (repo : Repository) (sc' : SyncCoordinator)
    (details : PendingDownload) : Prop where
  active : repoID ∈ sc.workers
  stored : sc.db.getRepository repoID = some repo
  heard : ignoredPath u.path = false
  taken : (decision sc peerID repoID u).action = .acceptRemote
  alive : u.isDeleted = false
  named : u.path ≠ "" ∧ clean u.path = u.path
  hashed : u.hash ≠ ""
  workers : sc'.workers = sc.workers
  rows : sc'.db = (handlePeerMetadataUpdate rt sc now missing peerID repoID u).1.db
  connected : peerID ∈ sc'.connections
  pending : sc'.pendingDownloads.lookup (pendingKey u.path u.hash) = some details
  asked : details.repoID = repoID ∧ details.size = u.decodedSize ∧ details.mode = u.decodedMode

section Fetching

variable {rt : Runtime} {sc : SyncCoordinator} {now : Int} {missing : Bool} {peerID repoID : String}
  {u : Update} {repo : Repository} {sc' : SyncCoordinator} {details : PendingDownload}
  (fetching : Fetching rt sc now missing peerID repoID u repo sc' details)
include fetching

theorem Fetching.known : repoID ∈ sc.db.repositories :=
  AList.lookup_isSome.mp (by rw [← DB.getRepository, fetching.stored]; rfl)

theorem Fetching.repositories : sc'.db.repositories = sc.db.repositories := by
  rw [fetching.rows]
  exact (peer_frame rt sc now missing peerID repoID u).2.2.2

theorem Fetching.row (path : String) : sc'.db.get repoID path =
    if path = u.path then some { acceptedMeta repoID u with updatedAt := now }
    else sc.db.get repoID path := by
  rw [fetching.rows, peer_row rt now missing peerID u fetching.known]
  simp [fetching.heard, fetching.taken]

theorem Fetching.checked : traversal u.path = false :=
  ((Bool.or_eq_false_iff).mp fetching.heard).2

variable {k : Process} {t : Disk} {c : Content} {env : Env}

theorem Fetching.consumes {way : Way} (applies : way.Applies rt k t repo.localPath u.path u c env) :
    Consumes sc' peerID (way.payload u.path u.hash) details := by
  have pending := fetching.pending
  rw [← fetching.named.2] at pending
  cases way with
  | inline text =>
    obtain ⟨-, full, -⟩ := applies
    refine ⟨?_, rfl, fetching.connected, by simpa [Way.payload, inlineResponse] using pending⟩
    simp [FileResponsePayload.validate, Way.payload, inlineResponse, fetching.named.1,
      fetching.hashed, full]
  | stream port =>
    obtain ⟨positive, bounded, -⟩ := applies
    refine ⟨?_, rfl, fetching.connected, by simpa [Way.payload] using pending⟩
    simp [FileResponsePayload.validate, Way.payload, fetching.named.1, fetching.hashed,
      not_le.mpr positive, not_lt.mpr bounded]

theorem Fetching.inline_data {text : String}
    (applies : (Way.inline text).Applies rt k t repo.localPath u.path u c env) :
    inlineData rt (sc'.taken u.path u.hash) u.path (inlineResponse u.path u.hash text) details =
      some (c, repo) := by
  obtain ⟨decoded, -, digest, -⟩ := applies
  have stored : (sc'.taken u.path u.hash).db.getRepository details.repoID = some repo := by
    have same : sc'.db.getRepository repoID = some repo := by
      rw [DB.getRepository, fetching.repositories]
      exact fetching.stored
    rw [fetching.asked.1]
    exact same
  simp [inlineData, inlineResponse, decoded, stored, fetching.checked, digest]

theorem Fetching.inline_result {text : String}
    (applies : (Way.inline text).Applies rt k t repo.localPath u.path u c env) (now' : Int) :
    handleFileResponse rt sc' now' env peerID ((Way.inline text).payload u.path u.hash) =
      ⟨{ sc'.taken u.path u.hash with
          db := (sc'.db.save now' (inlineMeta sc'.db now' u.path details c (rt.sha256 c))).getD
            sc'.db },
        [.writeFile repoID (join repo.localPath u.path) c u.decodedMode .whole], none⟩ := by
  have consumed := fetching.consumes applies
  have data := fetching.inline_data applies
  obtain ⟨-, full, -, -, whole⟩ := applies
  have wrote : env.wrote = true := decide_eq_true whole
  have text : ((Way.inline text).payload u.path u.hash).contentBase64 ≠ "" := full
  rw [response_consumed consumed, if_pos text, writeInline_eq]
  simp only [Way.payload] at data ⊢
  rw [show (inlineResponse u.path u.hash _).path = u.path from rfl, fetching.named.2,
    show (inlineResponse u.path u.hash _).hash = u.hash from rfl, data]
  simp only [wrote, whole, if_true, fetching.asked.1, fetching.asked.2.2]
  rfl

theorem Fetching.stream_result {port : Int}
    (applies : (Way.stream port).Applies rt k t repo.localPath u.path u c env) (now' : Int) :
    (handleFileResponse rt sc' now' env peerID ((Way.stream port).payload u.path u.hash)).sc =
      sc'.taken u.path u.hash := by
  have consumed := fetching.consumes applies
  obtain ⟨-, -, -, -, -, dialed⟩ := applies
  rw [response_consumed consumed, if_neg (by simp [Way.payload]), (beginStream_eq _ _ _ _ _ _).1,
    if_neg (by simp [dialed])]
  simp only [Way.payload, fetching.named.2]

theorem Fetching.recorded {way : Way} (applies : way.Applies rt k t repo.localPath u.path u c env)
    (now' : Int) : ∃ m : FileMetadata, m.hash = rt.sha256 c ∧ m.size = c.length ∧
      m.mode = u.decodedMode ∧ m.isDeleted = false ∧
      ∀ path, (handleFileResponse rt sc' now' env peerID
        (way.payload u.path u.hash)).sc.db.get repoID path =
          if path = u.path then some m else sc.db.get repoID path := by
  cases way with
  | inline text =>
    rw [fetching.inline_result applies]
    have known : (inlineMeta sc'.db now' u.path details c (rt.sha256 c)).repositoryID ∈
        sc'.db.repositories := by
      rw [fetching.repositories]
      simp only [inlineMeta, fetching.asked.1]
      exact fetching.known
    obtain ⟨db, saved⟩ := DB.save_known known now'
    refine ⟨{ inlineMeta sc'.db now' u.path details c (rt.sha256 c) with updatedAt := now' },
      rfl, rfl, fetching.asked.2.2, rfl, fun path => ?_⟩
    simp only [saved, Option.getD_some]
    by_cases here : path = u.path
    · subst here
      rw [if_pos rfl, ← DB.get_save_self saved]
      simp [inlineMeta, fetching.asked.1]
    · rw [if_neg here, DB.get_save_other saved, fetching.row, if_neg here]
      simp [inlineMeta, here]
  | stream port =>
    rw [fetching.stream_result applies]
    obtain ⟨-, -, digest, size, -⟩ := applies
    refine ⟨{ acceptedMeta repoID u with updatedAt := now }, digest.symm, size, rfl,
      fetching.alive, fun path => ?_⟩
    exact fetching.row path

theorem Fetching.file {way : Way} (applies : way.Applies rt k t repo.localPath u.path u c env)
    (now' : Int) :
    (way.disk rt k t repo.localPath u.path u c (handleFileResponse rt sc' now' env peerID
      (way.payload u.path u.hash)).out).node (placeOf (way.target repo.localPath u.path)) =
      some (.file c (way.bits k t repo.localPath u.path u.decodedMode)) := by
  cases way with
  | inline text =>
    rw [fetching.inline_result applies]
    obtain ⟨-, -, -, may, -⟩ := applies
    simp only [Way.disk, Way.target, Way.bits, List.foldl_cons, List.foldl_nil, Disk.output,
      Written.content, Option.bind_some]
    obtain ⟨t', written⟩ := Option.isSome_iff_exists.mp
      ((FileTree.write_isSome k.access t _ c k.rewritten
        (k.rewritten (k.created (syscallMode u.decodedMode)))).mpr may)
    rw [Disk.writeFile, written, Option.getD_some, FileTree.write_node written, if_pos rfl]
    rfl
  | stream port =>
    obtain ⟨-, -, digest, size, ready, -⟩ := applies
    simp only [Way.disk, Way.target, Way.bits, size]
    rw [Disk.download_eq]
    exact Disk.received_node _ (lastPiece_target fetching.checked _) (fun _ => digest) ready

end Fetching

structure Describes (rt : Runtime) (t : Disk) (place : Place) (path : String)
    (event : FileChangedPayload) : Prop where
  present : event.action ≠ .delete
  path : event.path = normalizePath path
  file : ∃ c, t.node place = some (.file c event.mode) ∧ event.hash = rt.sha256 c ∧
    event.size = c.length

def newcomer : SyncCoordinator :=
  { addRepository (.new "b") 0 "r" "/r" with connections := ["a"] }

def arrival : Update := ⟨"f", "#A", 1, 1, 5, false, 0o664, none⟩

def arriving : SyncCoordinator :=
  (executeSyncTask (handlePeerMetadataUpdate .plain newcomer 0 true "a" "r" arrival).1 true
    (downloadTask "a" "r" arrival)).1

theorem arriving_fetching :
    Fetching .plain newcomer 0 true "a" "r" arrival ⟨"r", "/r", .active, 0, 0⟩ arriving
      ⟨1, "r", 0o664, "a", 0⟩ where
  active := by decide
  stored := by decide
  heard := by decide
  taken := by decide
  alive := rfl
  named := by decide
  hashed := by decide
  workers := by decide
  rows := rfl
  connected := by decide
  pending := by decide
  asked := by decide

def stored : Env := ⟨false, none, .ok 0, .whole, true⟩

theorem arriving_inline (umask : Nat) : (Way.inline "A").Applies .plain ⟨umask, false⟩ bareDisk "/r"
    arrival.path arrival [65] stored := by
  have may : bareDisk.Writable user.access (placeOf (join "/r" "f")) := by decide
  exact ⟨by decide, by decide, by decide, may, rfl⟩

end P2PSync
