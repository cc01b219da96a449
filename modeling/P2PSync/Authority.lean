import P2PSync.Sessions

/-! What an inline write goes back to. Beside the machine stand the updates it accepted,
the requests it sent and the contents it wrote. A request is filed under its path and
its hash in one text. -/
namespace P2PSync

open Transition

inductive Fact where
  | accepted (repoID path hash : String)
  | requested (repoID path hash : String)
  | written (repoID path : String) (data : Content)
  deriving DecidableEq

def Host.fact (rt : Runtime) (h : Host) : HostEvent → Option Fact
  | .message _ peerID (.fileMetadataUpdate repoID u) _ =>
    if ignoredPath u.path = false ∧ (decision h.sc peerID repoID u).action = .acceptRemote ∧
        u.isDeleted = false then some (.accepted repoID u.path u.hash)
    else none
  | .message now peerID (.fileResponse payload) env =>
    (handleFileResponse rt h.sc now env peerID payload).out.findSome? fun
      | .writeFile repoID _ data _ _ => some (.written repoID (clean payload.path) data)
      | _ => none
  | .execute i sent => h.running[i]?.bind fun task =>
    (executeSyncTask h.sc sent task).2.findSome? fun
      | .sendToPeer _ (.fileRequest request) =>
        some (.requested task.repoID request.path request.hash)
      | _ => none
  | _ => none

structure Journal where
  host : Host
  facts : List Fact

namespace Journal

def next (rt : Runtime) (j : Journal) (e : HostEvent) : Option Journal :=
  (j.host.next rt e).map (fun host => ⟨host, (j.host.fact rt e).toList ++ j.facts⟩)

def Initial (j : Journal) : Prop := j.host.Initial ∧ j.facts = []

/-- An update whose content is fetched has been accepted, and its hash has not the
character that ends the path in a key. -/
def plain (j : Journal) : HostEvent → Bool
  | .message _ peerID (.fileMetadataUpdate repoID u) env =>
    !downloads j.host.sc env.missing peerID repoID u ||
      decide (':' ∉ u.hash.toList ∧ (decision j.host.sc peerID repoID u).action = .acceptRemote)
  | _ => true

end Journal

def Asked (facts : List Fact) (repoID path hash : String) : Prop :=
  ∃ later earlier, facts = later ++ .requested repoID path hash :: earlier ∧
    .accepted repoID path hash ∈ earlier

def Fact.spends (rt : Runtime) (key : String) : Fact → Prop
  | .written _ path data => pendingKey path (rt.sha256 data) = key
  | _ => False

def Unspent (rt : Runtime) (facts : List Fact) (repoID key : String) : Prop :=
  ∃ later path hash earlier, facts = later ++ .requested repoID path hash :: earlier ∧
    pendingKey path hash = key ∧ ∀ f ∈ later, ¬ f.spends rt key

theorem Asked.append {facts : List Fact} {repoID path hash : String}
    (asked : Asked facts repoID path hash) (new : List Fact) :
    Asked (new ++ facts) repoID path hash := by
  obtain ⟨later, earlier, rfl, accepted⟩ := asked
  exact ⟨new ++ later, earlier, by rw [List.append_assoc], accepted⟩

theorem Unspent.append {rt : Runtime} {facts : List Fact} {repoID key : String}
    (unspent : Unspent rt facts repoID key) {new : List Fact}
    (kept : ∀ f ∈ new, ¬ f.spends rt key) : Unspent rt (new ++ facts) repoID key := by
  obtain ⟨later, path, hash, earlier, rfl, same, none⟩ := unspent
  refine ⟨new ++ later, path, hash, earlier, by rw [List.append_assoc], same, ?_⟩
  intro f member
  exact (List.mem_append.mp member).elim (kept f) (none f)

theorem pendingKey_inj {path path' hash hash' : String} (same : pendingKey path hash =
    pendingKey path' hash') (plain : ':' ∉ hash.toList) (plain' : ':' ∉ hash'.toList) :
    path = path' ∧ hash = hash' := by
  have paths : path = path' := by
    rw [← keyPath_pendingKey path plain, same, keyPath_pendingKey path' plain']
  subst paths
  refine ⟨rfl, ?_⟩
  have chars := congrArg String.toList same
  simp only [pendingKey, String.toList_append] at chars
  exact String.toList_inj.mp (List.append_cancel_left chars)

/-! What an event records. -/

section Records

variable {rt : Runtime} {h after : Host} {e : HostEvent}

theorem fact_written {repoID path : String} {data : Content}
    (made : h.fact rt e = some (.written repoID path data)) :
    ∃ now peerID payload env details, e = .message now peerID (.fileResponse payload) env ∧
      Consumes h.sc peerID payload details ∧ repoID = details.repoID ∧
      path = clean payload.path ∧ rt.sha256 data = payload.hash := by
  unfold Host.fact at made
  split at made
  · split at made <;> cases made
  · rename_i now peerID payload env
    obtain ⟨o, sent, read⟩ := List.exists_of_findSome?_eq_some made
    obtain ⟨details, consumed, ⟨c, repo, checked, rfl⟩ | ⟨-, -, rfl⟩ | ⟨-, rfl⟩⟩ := response_out sent
    · cases read
      have named := validate_hash consumed.1 consumed.2.1
      exact ⟨now, peerID, payload, env, details, rfl, consumed, rfl, rfl,
        (inlineData_some checked).2.2 named⟩
    · cases read
    · cases read
  · obtain ⟨task, -, made⟩ := Option.bind_eq_some_iff.mp made
    obtain ⟨o, -, read⟩ := List.exists_of_findSome?_eq_some made
    split at read <;> cases read
  · cases made

theorem fact_execute {i : Nat} {sent : Bool} {task : SyncTask} (at_ : h.running[i]? = some task)
    (asked : (executeSyncTask h.sc sent task).2 =
      [.sendToPeer task.peerID (.fileRequest ⟨task.filePath, task.hash⟩)]) :
    h.fact rt (.execute i sent) = some (.requested task.repoID task.filePath task.hash) := by
  simp only [Host.fact, at_, Option.bind_some, asked]
  rfl

theorem pending_same (moved : h.next rt e = some after) (other : (∀ i sent, e ≠ .execute i sent) ∧
      ∀ now peerID payload env, e ≠ .message now peerID (.fileResponse payload) env) :
    after.sc.pendingDownloads = h.sc.pendingDownloads := by
  cases e with
  | fileChanged now repoID payload content =>
    simp only [Host.next] at moved
    split at moved
    · cases moved
      rw [Host.performAll_sc]
      exact (local_queue h.sc now repoID payload).2
    · cases moved
  | message now peerID msg env =>
    cases moved
    rw [Host.performAll_sc]
    cases msg with
    | fileMetadataUpdate repoID u => exact (peer_queue rt h.sc now env.missing peerID repoID u).1
    | fileRequest payload =>
      exact congrArg SyncCoordinator.pendingDownloads (handleFileRequest_spec h.sc env peerID payload).1
    | fileResponse payload => exact absurd rfl (other.2 now peerID payload env)
  | queueRound =>
    obtain ⟨queue, popped⟩ := queueRound_touches h.sc
    rw [Host.next_queueRound moved, popped]
  | execute i sent => exact absurd rfl (other.1 i sent)
  | retry i now =>
    obtain ⟨task, -, rfl⟩ := Option.map_eq_some_iff.mp moved
    rfl
  | resolve repoID path resolution peerID removed =>
    cases moved
    obtain ⟨db, eq, -⟩ := resolution_touches h.sc repoID path resolution peerID
    rw [Host.performAll_sc, eq]
  | daemon i env =>
    obtain ⟨x, -, rfl⟩ := Option.map_eq_some_iff.mp moved
    rw [(Host.applyEffect_frame _ _).1]
  | connect peerID =>
    cases moved
    rw [Host.performAll_sc]
  | disconnect peerID =>
    cases moved
    rfl

theorem fact_spares (other : ∀ now peerID payload env,
    e ≠ .message now peerID (.fileResponse payload) env) {f : Fact} (made : h.fact rt e = some f)
    (key : String) : ¬ f.spends rt key := by
  intro spends
  cases f with
  | written repoID path data =>
    obtain ⟨now, peerID, payload, env, _, same, -⟩ := fact_written made
    exact other now peerID payload env same
  | accepted => exact spends
  | requested => exact spends

theorem pending_response {now : Int} {peerID : String} {payload : FileResponsePayload} {env : Env}
    (moved : h.next rt (.message now peerID (.fileResponse payload) env) = some after)
    {key : String} {details : PendingDownload}
    (found : after.sc.pendingDownloads.lookup key = some details) :
    h.sc.pendingDownloads.lookup key = some details ∧
      ∀ f, h.fact rt (.message now peerID (.fileResponse payload) env) = some f →
        ¬ f.spends rt key := by
  cases moved
  rw [Host.performAll_sc] at found
  by_cases consumed : ∃ details, Consumes h.sc peerID payload details
  · obtain ⟨details', consumed⟩ := consumed
    have pending : (handleP2PMessage rt h.sc now env peerID
        (.fileResponse payload)).sc.pendingDownloads = _ := (response_ends rt consumed now env).2.1
    rw [pending] at found
    have apart : key ≠ pendingKey (clean payload.path) payload.hash := by
      rintro rfl
      rw [AList.lookup_erase] at found
      cases found
    refine ⟨(AList.lookup_erase_ne apart).symm.trans found, ?_⟩
    intro f made spends
    cases f with
    | written repoID path data =>
      obtain ⟨_, _, _, _, _, ⟨⟩, -, -, rfl, digest⟩ := fact_written made
      rw [Fact.spends, digest] at spends
      exact apart spends.symm
    | accepted => exact spends
    | requested => exact spends
  · obtain ⟨same, silent⟩ := response_ignored (fun d c => consumed ⟨d, c⟩) rt now env
    simp only [handleP2PMessage, same] at found
    refine ⟨found, ?_⟩
    intro f made
    simp only [Host.fact, silent] at made
    cases made

theorem pending_execute {i : Nat} {sent : Bool} (moved : h.next rt (.execute i sent) = some after)
    {key : String} {details : PendingDownload}
    (found : after.sc.pendingDownloads.lookup key = some details) :
    h.sc.pendingDownloads.lookup key = some details ∨
    ∃ task ∈ h.running, pendingKey task.filePath task.hash = key ∧ details.repoID = task.repoID ∧
      task.retries = details.retries ∧
      h.fact rt (.execute i sent) = some (.requested task.repoID task.filePath task.hash) := by
  obtain ⟨task, at_, rfl⟩ := Option.map_eq_some_iff.mp moved
  rw [Host.performAll_sc] at found
  rcases executeSyncTask_cases h.sc sent task with done | ⟨pending, fewer, back⟩ | request
  · rw [done] at found
    exact Or.inl found
  · rw [back] at found
    exact Or.inl (AList.mem_lookup_iff.mpr (fewer.subset (AList.mem_lookup_iff.mp found)))
  · rw [request] at found
    by_cases own : key = pendingKey task.filePath task.hash
    · subst own
      rw [AList.lookup_insert] at found
      cases found
      exact Or.inr ⟨task, List.mem_of_getElem? at_, rfl, rfl, rfl,
        fact_execute at_ (congrArg Prod.snd request)⟩
    · rw [AList.lookup_insert_ne own] at found
      exact Or.inl found

theorem pending_next (moved : h.next rt e = some after) {key : String} {details : PendingDownload}
    (found : after.sc.pendingDownloads.lookup key = some details) :
    (h.sc.pendingDownloads.lookup key = some details ∧
      ∀ f, h.fact rt e = some f → ¬ f.spends rt key) ∨
    ∃ task ∈ h.running, pendingKey task.filePath task.hash = key ∧ details.repoID = task.repoID ∧
      h.fact rt e = some (.requested task.repoID task.filePath task.hash) := by
  by_cases response : ∃ now peerID payload env, e = .message now peerID (.fileResponse payload) env
  · obtain ⟨now, peerID, payload, env, rfl⟩ := response
    exact Or.inl (pending_response moved found)
  · have other : ∀ now peerID payload env, e ≠ .message now peerID (.fileResponse payload) env :=
      fun now peerID payload env same => response ⟨now, peerID, payload, env, same⟩
    have spared : ∀ f, h.fact rt e = some f → ¬ f.spends rt key :=
      fun f made => fact_spares other made key
    by_cases execute : ∃ i sent, e = .execute i sent
    · obtain ⟨i, sent, rfl⟩ := execute
      exact (pending_execute moved found).imp (fun old => ⟨old, spared⟩)
        fun ⟨task, runs, key, repo, _, made⟩ => ⟨task, runs, key, repo, made⟩
    · rw [pending_same moved ⟨fun i sent same => execute ⟨i, sent, same⟩, other⟩] at found
      exact Or.inl ⟨found, spared⟩

end Records

/-! The invariant. -/

/-- A download that is not pending goes back to an accepted update: it names what
the update names, or is filed under the same text, after that has been requested. -/
def Traced (facts : List Fact) (item : (String × String) × String) : Prop :=
  ∃ path hash, pendingKey path hash = pendingKey item.1.2 item.2 ∧ ':' ∉ hash.toList ∧
    (((path, hash) = (item.1.2, item.2) ∧ .accepted item.1.1 path hash ∈ facts) ∨
      Asked facts item.1.1 path hash)

theorem Traced.append {facts : List Fact} {item : (String × String) × String}
    (traced : Traced facts item) (new : List Fact) : Traced (new ++ facts) item := by
  obtain ⟨path, hash, same, plain, origin⟩ := traced
  refine ⟨path, hash, same, plain, origin.imp ?_ (fun asked => asked.append new)⟩
  exact fun ⟨named, accepted⟩ => ⟨named, List.mem_append_right new accepted⟩

def Filed (rt : Runtime) (facts : List Fact) (repoID key : String) : Prop :=
  (∃ path hash, key = pendingKey path hash ∧ ':' ∉ hash.toList ∧ Asked facts repoID path hash) ∧
    Unspent rt facts repoID key

theorem Traced.requested {facts : List Fact} {task : SyncTask} (traced : Traced facts task.item)
    (rt : Runtime) : Filed rt (.requested task.repoID task.filePath task.hash :: facts) task.repoID
      (pendingKey task.filePath task.hash) := by
  obtain ⟨path, hash, same, plain, origin⟩ := traced
  refine ⟨⟨path, hash, same.symm, plain, ?_⟩, ⟨[], _, _, facts, rfl, rfl, fun f none => by cases none⟩⟩
  rcases origin with ⟨named, accepted⟩ | asked
  · obtain ⟨rfl, rfl⟩ := Prod.mk.inj named
    exact ⟨[], facts, rfl, accepted⟩
  · exact asked.append [_]

structure Journal.Covered (rt : Runtime) (j : Journal) : Prop where
  items : ∀ item ∈ j.host.items, Traced j.facts item
  pending : ∀ key details, j.host.sc.pendingDownloads.lookup key = some details →
    Filed rt j.facts details.repoID key
  written : ∀ earlier repoID path data, .written repoID path data :: earlier <:+ j.facts →
    ':' ∉ (rt.sha256 data).toList → Asked earlier repoID path (rt.sha256 data) ∧
      Unspent rt earlier repoID (pendingKey path (rt.sha256 data))

theorem Journal.covered_initial {rt : Runtime} {j : Journal} (initial : j.Initial) :
    j.Covered rt := by
  obtain ⟨⟨⟨running, timers, -⟩, ⟨queue, pending⟩, -⟩, blank⟩ := initial
  have items : j.host.items = [] := by rw [Host.items, queue, running, timers]; rfl
  refine ⟨?_, ?_, ?_⟩
  · rw [items]
    exact fun _ mem => by cases mem
  · rw [pending]
    exact fun _ _ found => by cases found
  · intro earlier repoID path data recorded
    rw [blank] at recorded
    exact absurd recorded (by simp)

section Step

variable {rt : Runtime} {j : Journal} {e : HostEvent} {host : Host}

theorem traced_scheduled (good : j.plain e = true) {item : (String × String) × String}
    (new : item ∈ j.host.scheduled e) : Traced ((j.host.fact rt e).toList ++ j.facts) item := by
  unfold Host.scheduled at new
  split at new
  · rename_i now peerID repoID u env
    split at new
    · rename_i fetched
      cases List.mem_singleton.mp new
      simp only [Journal.plain, fetched, Bool.not_true, Bool.false_or, decide_eq_true_eq] at good
      have heard : ignoredPath u.path = false ∧ u.isDeleted = false := by
        simp only [downloads, good.2, Bool.and_eq_true, Bool.not_eq_true'] at fetched
        exact ⟨fetched.1.1, fetched.2.1⟩
      have made : j.host.fact rt (.message now peerID (.fileMetadataUpdate repoID u) env) =
          some (.accepted repoID u.path u.hash) := if_pos ⟨heard.1, good.2, heard.2⟩
      rw [made]
      exact ⟨u.path, u.hash, rfl, good.1, Or.inl ⟨rfl, List.mem_cons_self⟩⟩
    · cases new
  · cases new

theorem traced_items (covered : j.Covered rt) (good : j.plain e = true)
    (moved : j.host.next rt e = some host) :
    ∀ item ∈ host.items, Traced ((j.host.fact rt e).toList ++ j.facts) item := by
  intro item member
  cases progress_next moved with
  | kept items =>
    rcases List.mem_append.mp (items.subset member) with new | old
    · exact traced_scheduled good new
    · exact (covered.items item old).append _
  | requested task details items =>
    exact (covered.items item (items.subset (List.mem_cons_of_mem _ member))).append _
  | answered now peerID payload env details again event found pending items hashes once =>
    rcases List.mem_append.mp (items.subset member) with new | old
    · obtain ⟨⟨path, hash, same, plain, asked⟩, -⟩ := covered.pending _ _ found
      have slot : item.1 = (details.repoID, clean payload.path) := by
        have inside := once.subset (List.mem_append_left _ (List.mem_map_of_mem (f := (·.1)) new))
        exact List.mem_singleton.mp inside
      refine Traced.append ⟨path, hash, ?_, plain, Or.inr ?_⟩ _
      · rw [hashes item new, slot, same]
      · rw [slot]
        exact asked
    · exact (covered.items item old).append _

theorem Filed.append {facts : List Fact} {repoID key : String} (filed : Filed rt facts repoID key)
    {new : List Fact} (kept : ∀ f ∈ new, ¬ f.spends rt key) :
    Filed rt (new ++ facts) repoID key := by
  obtain ⟨⟨path, hash, same, plain, asked⟩, unspent⟩ := filed
  exact ⟨⟨path, hash, same, plain, asked.append new⟩, unspent.append kept⟩

theorem filed_pending (covered : j.Covered rt) (moved : j.host.next rt e = some host) {key : String}
    {details : PendingDownload} (found : host.sc.pendingDownloads.lookup key = some details) :
    Filed rt ((j.host.fact rt e).toList ++ j.facts) details.repoID key := by
  rcases pending_next moved found with ⟨old, kept⟩ | ⟨task, running, rfl, repo, made⟩
  · apply (covered.pending key details old).append
    intro f member
    exact kept f (Option.mem_toList.mp member)
  · have inside : task.item ∈ j.host.items := by
      rw [Host.items]
      exact List.mem_append_left _ (List.mem_append_right _ (List.mem_map_of_mem running))
    rw [made, repo]
    exact (covered.items _ inside).requested rt

theorem written_next (covered : j.Covered rt) {repoID path : String} {data : Content}
    (made : j.host.fact rt e = some (.written repoID path data))
    (digest : ':' ∉ (rt.sha256 data).toList) : Asked j.facts repoID path (rt.sha256 data) ∧
      Unspent rt j.facts repoID (pendingKey path (rt.sha256 data)) := by
  obtain ⟨now, peerID, payload, env, details, -, consumed, rfl, rfl, hash⟩ := fact_written made
  obtain ⟨⟨path, g, same, plain, asked⟩, unspent⟩ := covered.pending _ _ consumed.2.2.2
  rw [← hash] at same unspent
  obtain ⟨here, content⟩ := pendingKey_inj same digest plain
  rw [here, content] at unspent ⊢
  exact ⟨asked, unspent⟩

theorem covered_next {after : Journal} (covered : j.Covered rt) (good : j.plain e = true)
    (moved : j.next rt e = some after) : after.Covered rt := by
  obtain ⟨host, step, rfl⟩ := Option.map_eq_some_iff.mp moved
  refine ⟨traced_items covered good step, fun key details => filed_pending covered step, ?_⟩
  intro earlier repoID path data recorded digest
  cases made : j.host.fact rt e with
  | none =>
    rw [made] at recorded
    exact covered.written earlier repoID path data recorded digest
  | some f =>
    simp only [made, Option.toList_some, List.singleton_append] at recorded
    rcases List.suffix_cons_iff.mp recorded with now | old
    · obtain ⟨rfl, rfl⟩ := List.cons.inj now
      exact written_next covered made digest
    · exact covered.written earlier repoID path data old digest

end Step

/-- Every inline write answers a request: an update naming its path and the digest of
its content was accepted before, that content was requested after it, and since the
last request under the text nothing was written under it. -/
theorem inline_writes_requested {rt : Runtime} {j : Journal} (reached : Reach Journal.Initial
      (Guarded (Runs (Journal.next rt)) (fun j e => j.plain e = true)) j) {repoID path : String}
    {data : Content} {earlier : List Fact}
    (wrote : .written repoID path data :: earlier <:+ j.facts)
    (digest : ':' ∉ (rt.sha256 data).toList) : Asked earlier repoID path (rt.sha256 data) ∧
      Unspent rt earlier repoID (pendingKey path (rt.sha256 data)) := by
  have covered : j.Covered rt := by
    refine reach_invariant (Journal.Covered rt) (fun _ => Journal.covered_initial) ?_ reached
    rintro j e after before ⟨moved, good⟩
    exact covered_next before good moved
  exact covered.written earlier repoID path data wrote digest

def startedJournal : Journal := ⟨Host.started "b" "r" "/r" ["a"], []⟩

theorem startedJournal_initial : startedJournal.Initial :=
  ⟨Host.started_initial "b" "r" "/r" ["a"], rfl⟩

def answeredRun (path hash path' hash' : String) : List HostEvent :=
  [.message 5 "a" (.fileMetadataUpdate "r" ⟨path, hash, 1, 1, 4, false, 420, none⟩) Env.fine,
    .queueRound, .execute 0 true,
    .message 6 "a" (.fileResponse ⟨path', hash', "x", "", 0, ""⟩) Env.fine]

theorem inline_writes_requested_file : ∃ j : Journal,
    j.facts = [.written "r" "f" [120], .requested "r" "f" "#x", .accepted "r" "f" "#x"] ∧
      Asked [.requested "r" "f" "#x", .accepted "r" "f" "#x"] "r" "f" "#x" := by
  obtain ⟨j, reached, facts⟩ := reach_of_replay (Journal.next .plain)
    (fun j e => j.plain e = true) (.start startedJournal_initial)
    (answeredRun "f" "#x" "f" "#x")
    (fun j => j.facts = [.written "r" "f" [120], .requested "r" "f" "#x", .accepted "r" "f" "#x"])
    (by decide +kernel)
  have wrote : .written "r" "f" [120] :: [.requested "r" "f" "#x", .accepted "r" "f" "#x"] <:+
      j.facts := by rw [facts]
  exact ⟨j, facts, (inline_writes_requested reached wrote (by decide)).1⟩

/-- The path a and the hash b:#x are filed under the text of the path a:b and the
hash #x. A file is written that no update has named. -/
theorem unnamed_file_written : ∃ j : Journal,
    Reach Journal.Initial (Guarded (Runs (Journal.next .plain))
      (fun _ _ => True)) j ∧
    j.facts = [.written "r" "a:b" [120], .requested "r" "a" "b:#x", .accepted "r" "a" "b:#x"] ∧
    j.host.disk (placeOf "/r/a:b") = some [120] ∧
    ¬ Asked j.facts "r" "a:b" (Runtime.plain.sha256 [120]) := by
  obtain ⟨j, reached, facts, written⟩ := reach_of_replay (Journal.next .plain)
    (fun _ _ => True) (.start startedJournal_initial) (answeredRun "a" "b:#x" "a:b" "#x")
    (fun j =>
      j.facts = [.written "r" "a:b" [120], .requested "r" "a" "b:#x", .accepted "r" "a" "b:#x"] ∧
      j.host.disk (placeOf "/r/a:b") = some [120])
    (by decide +kernel)
  refine ⟨j, reached, facts, written, ?_⟩
  rintro ⟨later, earlier, split, -⟩
  have named : .requested "r" "a:b" (Runtime.plain.sha256 [120]) ∈ j.facts := by
    rw [split]
    exact List.mem_append_right _ List.mem_cons_self
  rw [facts] at named
  exact absurd named (by decide)

end P2PSync
