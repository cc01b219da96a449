import P2PSync.Disk

/-! The two ways in which a downloaded content reaches the disk: written by the
coordinator from an inline response, or received by the daemon over a port. -/
namespace P2PSync

def inlineResponse (path hash text : String) : FileResponsePayload := ⟨path, hash, text, "", 0, ""⟩

structure Answers (rt : Runtime) (sc : SyncCoordinator) (peerID path text : String)
    (details : PendingDownload) (repo : Repository) (c : Content) : Prop where
  connected : peerID ∈ sc.connections
  pending : sc.pendingDownloads.lookup (pendingKey (clean path) (rt.sha256 c)) = some details
  stored : sc.db.getRepository details.repoID = some repo
  accepted : traversal (clean path) = false
  named : path ≠ ""
  digest : rt.sha256 c ≠ ""
  decoded : rt.decodeString text = some c
  blank : text = "" ↔ c = []

section Inline

variable {rt : Runtime} {sc : SyncCoordinator} {peerID path text : String}
  {details : PendingDownload} {repo : Repository} {c : Content}
  (answers : Answers rt sc peerID path text details repo c)
include answers

theorem inline_consumes (some_ : c ≠ []) :
    Consumes sc peerID (inlineResponse path (rt.sha256 c) text) details := by
  have full : text ≠ "" := fun h => some_ (answers.blank.mp h)
  refine ⟨?_, rfl, answers.connected, answers.pending⟩
  simp [FileResponsePayload.validate, inlineResponse, answers.named, answers.digest, full]

theorem inline_empty (none_ : c = []) (details' : PendingDownload) :
    ¬ Consumes sc peerID (inlineResponse path (rt.sha256 c) text) details' := by
  have empty := answers.blank.mpr none_
  rintro ⟨valid, -⟩
  simp [FileResponsePayload.validate, inlineResponse, answers.named, answers.digest, empty] at valid

theorem inline_data : inlineData rt (sc.taken (clean path) (rt.sha256 c)) (clean path)
    (inlineResponse path (rt.sha256 c) text) details = some (c, repo) := by
  have stored : (sc.taken (clean path) (rt.sha256 c)).db.getRepository details.repoID = some repo :=
    answers.stored
  simp [inlineData, inlineResponse, answers.decoded, stored, answers.accepted]

theorem inline_out (some_ : c ≠ []) (now : Int) (env : Env) :
    (handleFileResponse rt sc now env peerID (inlineResponse path (rt.sha256 c) text)).out =
      [.writeFile details.repoID (join repo.localPath (clean path)) c details.mode env.write] := by
  have full : (inlineResponse path (rt.sha256 c) text).contentBase64 ≠ "" :=
    fun h => some_ (answers.blank.mp h)
  rw [response_consumed (inline_consumes answers some_), if_pos full, writeInline_eq,
    show clean (inlineResponse path (rt.sha256 c) text).path = clean path from rfl,
    show (inlineResponse path (rt.sha256 c) text).hash = rt.sha256 c from rfl,
    inline_data answers]

end Inline

def inlineMode (k : Process) (t : Disk) (p : Place) (mode : Nat) : Nat :=
  ((t.mode p).map k.rewritten).getD (k.rewritten (k.created (syscallMode mode)))

def writeAnswer (k : Process) (t : Disk) (p : Place) : Written :=
  if t.Writable k.access p then .whole else .refused

def respond (rt : Runtime) (k : Process) (t : Disk) (sc : SyncCoordinator) (now : Int) (env : Env)
    (peerID path text : String) (c : Content) : Disk :=
  (handleFileResponse rt sc now env peerID (inlineResponse path (rt.sha256 c) text)).out.foldl
    (Disk.output k) t

section Respond

variable {rt : Runtime} {sc : SyncCoordinator} {peerID path text : String}
  {details : PendingDownload} {repo : Repository} {c : Content}
  (answers : Answers rt sc peerID path text details repo c) (k : Process) {t : Disk} (now : Int)
  {env : Env} (wrote : env.write =
    writeAnswer k t (placeOf (join repo.localPath (clean path))))
include answers wrote

theorem respond_node (some_ : c ≠ [])
    (may : t.Writable k.access (placeOf (join repo.localPath (clean path)))) :
    (respond rt k t sc now env peerID path text c).node (placeOf (join repo.localPath (clean path))) =
      some (.file c (inlineMode k t (placeOf (join repo.localPath (clean path))) details.mode)) := by
  rw [writeAnswer, if_pos may] at wrote
  rw [respond, inline_out answers some_]
  simp only [List.foldl_cons, List.foldl_nil, Disk.output, wrote, Written.content, Option.bind_some]
  obtain ⟨t', written⟩ := Option.isSome_iff_exists.mp
    ((FileTree.write_isSome k.access t _ c k.rewritten
      (k.rewritten (k.created (syscallMode details.mode)))).mpr may)
  rw [Disk.writeFile, written, Option.getD_some, FileTree.write_node written, if_pos rfl]
  rfl

theorem respond_refused
    (refused : ¬ (c ≠ [] ∧ t.Writable k.access (placeOf (join repo.localPath (clean path))))) :
    respond rt k t sc now env peerID path text c = t := by
  rw [respond]
  by_cases some_ : c ≠ []
  · rw [writeAnswer, if_neg (fun may => refused ⟨some_, may⟩)] at wrote
    rw [inline_out answers some_]
    simp only [List.foldl_cons, List.foldl_nil, Disk.output, wrote, Written.content,
      Option.bind_none, Option.getD_none]
  · rw [(response_ignored (inline_empty answers (not_not.mp some_)) rt now env).2]
    rfl

theorem respond_content : (respond rt k t sc now env peerID path text c).content
      (placeOf (join repo.localPath (clean path))) =
      if c ≠ [] ∧ t.Writable k.access (placeOf (join repo.localPath (clean path))) then some c
      else t.content (placeOf (join repo.localPath (clean path))) := by
  split
  · rename_i written
    rw [FileTree.Tree.content, respond_node answers k now wrote written.1 written.2]
    rfl
  · rename_i refused
    rw [respond_refused answers k now wrote refused]

end Respond

/-! The place the daemon takes for the same path. -/

theorem backslash_name {path : String} (foreign : normalizePath path ≠ path) :
    ∃ part ∈ Posix.names path.toList, '\\' ∈ part := by
  have mem : '\\' ∈ path.toList := by
    by_contra clear
    apply foreign
    have same : path.toList.map (fun ch => if ch = '\\' then '/' else ch) = path.toList := by
      conv_rhs => rw [← List.map_id path.toList]
      apply List.map_congr_left
      intro ch here
      rw [if_neg]
      · rfl
      · rintro rfl
        exact clear here
    rw [normalizePath, same, String.ofList_toList]
  exact Posix.exists_name mem (by decide) (by decide)

theorem normalized_clear (path : String) : '\\' ∉ (normalizePath path).toList := by
  rw [normalizePath_toList]
  intro h
  obtain ⟨ch, -, eq⟩ := List.mem_map.mp h
  split at eq
  · cases eq
  · rename_i other
    exact other eq

section Place

variable {path : String} (accepted : traversal path = false) (root : String)
include accepted

theorem relative_of_accepted : isAbs path = false :=
  ((Bool.or_eq_false_iff).mp accepted).1

theorem down_of_accepted : Posix.dotdot ∉ Posix.parts path.toList := by
  intro h
  have text := (contains_iff path "..").mpr (Posix.piece_of_mem_parts h).1
  rw [((Bool.or_eq_false_iff).mp accepted).2] at text
  cases text

theorem down_normalized : Posix.dotdot ∉ Posix.parts (normalizePath path).toList := by
  intro h
  have text := contains_of_dotdot h
  rw [((Bool.or_eq_false_iff).mp accepted).2] at text
  cases text

theorem lastPiece_target :
    Posix.lastPiece (fsAppend root (normalizePath path)).toList ≠ Posix.dotdot := by
  rw [fsAppend, String.toList_ofList, Posix.lastPiece_append]
  intro last
  exact down_normalized accepted (last ▸ List.getLast_mem (Posix.parts_ne_nil _))

theorem target_same (plain : normalizePath path = path) :
    placeOf (fsAppend root (normalizePath path)) = placeOf (join root path) := by
  have relative := relative_of_accepted accepted
  rw [plain, placeOf, placeOf, fsAppend, join, String.toList_ofList, String.toList_ofList]
  exact Posix.normal_append_join relative root.toList

theorem target_elsewhere (foreign : normalizePath path ≠ path) :
    placeOf (join root path) ≠ placeOf (fsAppend root (normalizePath path)) ∧
      placeOf (join root path) ≠ placeOf (fsAppend root (normalizePath path) ++ ".tmp") := by
  obtain ⟨part, named, backslash⟩ := backslash_name foreign
  have down := down_normalized accepted
  have target : placeOf (join root path) = placeOf root ++ Posix.names path.toList := by
    rw [placeOf, join, String.toList_ofList,
      ← Posix.normal_append_join (relative_of_accepted accepted),
      Posix.normal_append_names (relative_of_accepted accepted) (down_of_accepted accepted)]
    rfl
  have downTmp : Posix.dotdot ∉ Posix.parts ((normalizePath path).toList ++ ".tmp".toList) := by
    intro h
    rcases Posix.mem_parts_append_flat (by decide) h with h | h
    · exact down h
    · exact absurd h (by decide)
  have clear : '\\' ∉ (normalizePath path).toList ++ ".tmp".toList := by
    rw [List.mem_append, not_or]
    exact ⟨normalized_clear path, by decide⟩
  have names : part ∉ Posix.names (normalizePath path).toList ∧
      part ∉ Posix.names ((normalizePath path).toList ++ ".tmp".toList) := by
    constructor
    · intro h
      exact normalized_clear path ((Posix.mem_names h).subset backslash)
    · intro h
      exact clear ((Posix.mem_names h).subset backslash)
  constructor
  · rw [target, placeOf, placeOf, fsAppend, String.toList_ofList]
    exact Posix.normal_append_ne down named names.1 root.toList
  · rw [target, placeOf, placeOf, fsAppend, String.toList_append, String.toList_ofList,
      Posix.append_suffix (by decide)]
    exact Posix.normal_append_ne downTmp named names.2 root.toList

end Place

/-! Agreement. -/

theorem overwritten_eq_iff {α : Type} (a b : Prop) [Decidable a] [Decidable b] (old new : α) :
    (if a then new else old) = (if b then new else old) ↔ old = new ∨ (a ↔ b) := by
  by_cases ha : a <;> by_cases hb : b <;> simp [ha, hb, eq_comm]

def awaiting (path : String) : SyncCoordinator :=
  { addRepository (.new "b") 0 "r" "/r" with
    connections := ["a"]
    pendingDownloads := (∅ : AList fun _ : String => PendingDownload).insert (pendingKey path "#A")
      ⟨1, "r", 0o644, "a", 0⟩ }

def user : Process := ⟨0o022, false⟩

def bareDisk : Disk :=
  ((FileTree.Tree.empty 0o755).makeDirs user.access (placeOf "/r") 0o755).getD (.empty 0o755)

theorem awaiting_answers {path : String} (accepted : traversal (clean path) = false)
    (named : path ≠ "") (cleaned : clean path = path) :
    Answers .plain (awaiting path) "a" path "A" ⟨1, "r", 0o644, "a", 0⟩
      ⟨"r", "/r", .active, 0, 0⟩ [65] where
  connected := List.mem_singleton_self "a"
  pending := by
    rw [cleaned]
    exact AList.lookup_insert _
  stored := rfl
  accepted := accepted
  named := named
  digest := by decide
  decoded := by decide
  blank := by decide

end P2PSync
