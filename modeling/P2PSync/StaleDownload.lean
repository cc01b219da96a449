import P2PSync.Host

/-! What becomes of a download whose file has meanwhile moved on. A response finds
its request only through the key of path and hash; neither the inline write nor
the purge after the last failed attempt looks at the row again. -/
namespace P2PSync

open Transition

def recordsLive (row : Option FileMetadata) (hash : String) : Bool :=
  row.any (fun m => m.isDeleted = false ∧ m.hash = hash)

/-- One of the checks in front of the effects of a response stops it, or the file
cannot be opened. A write that fails later has emptied the file already. -/
def refusedResponse (rt : Runtime) (sc : SyncCoordinator) (env : Env) (peerID : String)
    (payload : FileResponsePayload) (details : PendingDownload) : Bool :=
  payload.validate ≠ none ∨ payload.error ≠ "" ∨ peerID ∉ sc.connections ∨
    if payload.contentBase64 ≠ "" then
      (inlineData rt sc (clean payload.path) payload details).isNone ∨ env.write = .refused
    else streamRefused (clean payload.path)

def tornAlike (rt : Runtime) (h : Host) (env : Env) (payload : FileResponsePayload)
    (details : PendingDownload) : Bool :=
  (inlineData rt h.sc (clean payload.path) payload details).any fun x =>
    match env.write with
    | .torn n =>
      h.disk (placeOf (join x.2.localPath (clean payload.path))) = some (x.1.take n)
    | _ => false

def Untouched (h after : Host) (repoID path : String) : Prop :=
  after.sc.db.get repoID path = h.sc.db.get repoID path ∧
    ∀ file, h.filePath repoID path = some file →
      after.disk (placeOf file) = h.disk (placeOf file)

section Response

variable {rt : Runtime} {h after : Host} {now : Int} {env : Env} {peerID : String}
  {payload : FileResponsePayload} {details : PendingDownload}

variable (now) in
theorem next_refused
    (pending : h.sc.pendingDownloads.lookup (pendingKey (clean payload.path) payload.hash) =
      some details) (refused : refusedResponse rt h.sc env peerID payload details = true) :
    h.next rt (.message now peerID (.fileResponse payload) env) =
        some (h.answered peerID (.fileResponse payload)) ∨
      h.next rt (.message now peerID (.fileResponse payload) env) =
        some (h.matched peerID payload) := by
  by_cases consumed : Consumes h.sc peerID payload details
  · right
    have reason := of_decide_eq_true refused
    simp only [consumed.1, consumed.2.1, consumed.2.2.1, ne_eq, not_true_eq_false, false_or] at reason
    by_cases inline : payload.contentBase64 = ""
    · simp only [inline, not_true_eq_false, if_false] at reason
      rw [Host.next_stream now env consumed inline, if_pos reason]
    · simp only [inline, not_false_eq_true, if_true] at reason
      rw [Host.next_inline now env consumed inline]
      split
      · rfl
      · rename_i data repo checked
        rw [checked] at reason
        simp only [Option.isNone_some, Bool.false_eq_true, false_or] at reason
        rw [if_neg (by simp [Env.wrote, reason]), reason]
        rfl
  · left
    refine Host.next_ignored now env ?_
    rintro d ⟨valid, noError, connected, found⟩
    cases Option.some.inj (pending.symm.trans found)
    exact consumed ⟨valid, noError, connected, found⟩

section

variable (handled : h.next rt (.message now peerID (.fileResponse payload) env) = some after)
  (pending : h.sc.pendingDownloads.lookup (pendingKey (clean payload.path) payload.hash) =
    some details)
  (inline : payload.contentBase64 ≠ "")

include handled pending inline

omit handled inline in
theorem consumes_of_not_refused
    (looked : refusedResponse rt h.sc env peerID payload details = false) :
    Consumes h.sc peerID payload details := by
  have checks := of_decide_eq_false looked
  simp only [ne_eq, not_or, not_not] at checks
  exact ⟨checks.1, checks.2.1, checks.2.2.1, pending⟩

theorem row_of_inline (whole : env.write = .whole)
    (looked : refusedResponse rt h.sc env peerID payload details = false) :
    recordsLive (after.sc.db.get details.repoID (clean payload.path)) payload.hash = true := by
  have consumed := consumes_of_not_refused pending looked
  have checks := of_decide_eq_false looked
  simp only [consumed.1, consumed.2.1, consumed.2.2.1, inline, ne_eq, not_true_eq_false,
    not_false_eq_true, if_true, false_or, not_or] at checks
  rw [Host.next_inline now env consumed inline] at handled
  split at handled
  · rename_i stopped
    exact absurd (by rw [stopped]; rfl) checks.1
  · rename_i data repo checked
    obtain ⟨found, -, digest⟩ := inlineData_some checked
    rw [if_pos (show env.wrote = true from decide_eq_true whole)] at handled
    cases handled
    have known : details.repoID ∈ h.sc.db.repositories :=
      AList.lookup_isSome.mp (by rw [← DB.getRepository, found]; rfl)
    obtain ⟨db, saved⟩ := DB.save_known
      (m := inlineMeta h.sc.db now (clean payload.path) details data (rt.sha256 data)) known now
    have row : db.get details.repoID (clean payload.path) = _ := DB.get_save_self saved
    simp only [Host.setFile, saved, Option.getD_some, row]
    simp [recordsLive, inlineMeta, digest (validate_hash consumed.1 consumed.2.1)]

theorem untouched_of_torn {n : Nat} (torn : env.write = .torn n)
    (looked : refusedResponse rt h.sc env peerID payload details = false) :
    Untouched h after details.repoID (clean payload.path) ↔
      tornAlike rt h env payload details = true := by
  have consumed := consumes_of_not_refused pending looked
  have checks := of_decide_eq_false looked
  simp only [consumed.1, consumed.2.1, consumed.2.2.1, inline, ne_eq, not_true_eq_false,
    not_false_eq_true, if_true, false_or, not_or] at checks
  obtain ⟨⟨data, repo⟩, checked⟩ := Option.ne_none_iff_exists'.mp
    (fun stopped => checks.1 (Option.isNone_iff_eq_none.mpr stopped))
  obtain ⟨found, -, -⟩ := inlineData_some checked
  have file : h.filePath details.repoID (clean payload.path) =
      some (join repo.localPath (clean payload.path)) := by
    rw [Host.filePath, found, Option.map_some]
  rw [Host.next_inline now env consumed inline, checked] at handled
  simp only [Env.wrote, torn, reduceCtorEq, decide_false, Bool.false_eq_true, if_false,
    Option.some.injEq] at handled
  have row : after.sc.db = h.sc.db := by
    rw [← handled, Host.perform_sc]
    rfl
  have disk : after.disk (placeOf (join repo.localPath (clean payload.path))) =
      some (data.take n) := by
    rw [← handled]
    exact if_pos rfl
  simp only [Untouched, row, true_and, file, Option.some.injEq, forall_eq', disk, tornAlike, checked,
    Option.any_some, torn, decide_eq_true_eq]
  exact eq_comm

omit handled inline in
theorem next_purged (final : finalFailure env payload details = true)
    (looked : refusedResponse rt h.sc env peerID payload details = false) :
    h.next rt (.message now peerID (.fileResponse payload) env) = some
      { h.matched peerID payload with
        sc := { h.sc.taken (clean payload.path) payload.hash with
          db := h.sc.db.hardDelete details.repoID (clean payload.path) } } := by
  have consumed := consumes_of_not_refused pending looked
  have checks := of_decide_eq_false looked
  obtain ⟨stream, failed, last⟩ := of_decide_eq_true final
  simp only [consumed.1, consumed.2.1, consumed.2.2.1, stream, ne_eq, not_true_eq_false,
    if_false, false_or] at checks
  rw [Host.next_stream now env consumed stream, if_neg checks, failed, if_neg Bool.false_ne_true,
    if_neg (not_lt.mpr last)]

end

/-- Where a download was requested and the row no longer says what was asked for,
the content or the last failure leaves row and file as they are exactly if the
response is refused by one of its checks, there is no row left to purge, or the
write breaks off after just what the file has. -/
theorem stale_outcome_iff
    (handled : h.next rt (.message now peerID (.fileResponse payload) env) = some after)
    (pending : h.sc.pendingDownloads.lookup (pendingKey (clean payload.path) payload.hash) =
      some details)
    (stale : recordsLive (h.sc.db.get details.repoID (clean payload.path)) payload.hash = false)
    (outcome : payload.contentBase64 ≠ "" ∨ finalFailure env payload details = true) :
    Untouched h after details.repoID (clean payload.path) ↔
      refusedResponse rt h.sc env peerID payload details = true ∨
        (payload.contentBase64 = "" ∧
          h.sc.db.get details.repoID (clean payload.path) = none) ∨
        (payload.contentBase64 ≠ "" ∧ tornAlike rt h env payload details = true) := by
  cases refused : refusedResponse rt h.sc env peerID payload details with
  | true =>
    refine iff_of_true ?_ (Or.inl rfl)
    rcases next_refused now pending refused with eq | eq <;>
    · rw [eq] at handled
      cases handled
      exact ⟨rfl, fun _ _ => rfl⟩
  | false =>
    by_cases stream : payload.contentBase64 = ""
    · have final := outcome.resolve_left (not_not.mpr stream)
      rw [next_purged pending final refused] at handled
      cases handled
      have gone : (h.sc.db.hardDelete details.repoID (clean payload.path)).get details.repoID
          (clean payload.path) = none := DB.get_hardDelete_self ..
      constructor
      · rintro ⟨row, -⟩
        exact Or.inr (Or.inl ⟨stream, row.symm.trans gone⟩)
      · rintro (no | ⟨-, none⟩ | ⟨full, -⟩)
        · cases no
        · exact ⟨gone.trans none.symm, fun _ _ => rfl⟩
        · exact absurd stream full
    · have opened : env.write ≠ .refused := by
        have checks := of_decide_eq_false refused
        simp only [ne_eq, stream, not_false_eq_true, if_true, not_or] at checks
        exact checks.2.2.2.2
      cases write : env.write with
      | refused => exact absurd write opened
      | torn n =>
        rw [untouched_of_torn handled pending stream write refused]
        simp [stream]
      | whole =>
        have none : tornAlike rt h env payload details = false := by simp [tornAlike, write]
        refine iff_of_false ?_ (by simp [stream, none])
        rintro ⟨row, -⟩
        have live := row_of_inline handled pending stream write refused
        rw [row, stale] at live
        cases live

end Response

def overtaken : List HostEvent :=
  [.message 0 "b" (.fileMetadataUpdate "r" ⟨"f", "#x", 1, 1, 1, false, 420, none⟩) .fine,
    .queueRound, .execute 0 true,
    .fileChanged 0 "r" ⟨.modify, "f", "#y", 1, 2, 420⟩ (some [121])]

def answer (text : String) : FileResponsePayload := ⟨"f", "#x", text, "", 0, ""⟩

def requested : PendingDownload := ⟨1, "r", 420, "b", 0⟩

theorem stale_outcome_iff_wrong_text : ∃ h after : Host,
      h.next .plain (.message 0 "b" (.fileResponse (answer "z")) .fine) = some after ∧
      Untouched h after requested.repoID (clean (answer "z").path) := by
  obtain ⟨h, -, pending, stale, refused⟩ := reach_of_replay (Host.next .plain)
    (fun _ _ => True) (.start (Host.started_initial "a" "r" "/r" ["b"])) overtaken
    (fun h => h.sc.pendingDownloads.lookup
        (pendingKey (clean (answer "z").path) (answer "z").hash) = some requested ∧
      recordsLive (h.sc.db.get requested.repoID (clean (answer "z").path)) (answer "z").hash =
        false ∧
      refusedResponse .plain h.sc .fine "b" (answer "z") requested = true) (by decide)
  obtain ⟨after, handled⟩ := h.next_message .plain 0 "b" (.fileResponse (answer "z")) .fine
  exact ⟨h, after, handled,
    (stale_outcome_iff handled pending stale (Or.inl (by decide))).mpr (Or.inl refused)⟩

theorem late_answer_overwrites : ∃ h after : Host, Reach Host.Initial (Runs (Host.next .plain)) h ∧
      h.next .plain (.message 0 "b" (.fileResponse (answer "x")) .fine) = some after ∧
      h.sc.pendingDownloads.lookup (pendingKey "f" "#x") = some requested ∧
      recordsLive (h.sc.db.get "r" "f") "#x" = false ∧ ¬ Untouched h after "r" "f" := by
  obtain ⟨h, reached, pending, stale, changed⟩ := reach_of_replay
    (Host.next .plain) (fun _ _ => True)
    (.start (Host.started_initial "a" "r" "/r" ["b"])) overtaken
    (fun h => h.sc.pendingDownloads.lookup (pendingKey "f" "#x") = some requested ∧
      recordsLive (h.sc.db.get "r" "f") "#x" = false ∧
      (h.next .plain (.message 0 "b" (.fileResponse (answer "x")) .fine)).any
        (fun after => decide (after.sc.db.get "r" "f" ≠ h.sc.db.get "r" "f")) = true) (by decide)
  obtain ⟨after, handled⟩ := h.next_message .plain 0 "b" (.fileResponse (answer "x")) .fine
  rw [handled] at changed
  exact ⟨h, after, reach_mono (fun _ _ _ step => step.1) reached, handled, pending, stale,
    fun same => of_decide_eq_true changed same.1⟩

end P2PSync
