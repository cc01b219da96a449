import P2PSync.Library.Transition
import P2PSync.Sessions

/-! The table of transfer sessions and its purge. A session has a lock of its own, under
which its status is set; the table has another one, under which sessions are entered and
removed. A purge is as many steps as it looks at sessions. The removal after a payload
that cannot be encoded is left out: strings and integers can. -/
namespace P2PSync

open Transition

structure TransferManager where
  /-- History: every session that was started, by its transfer ID. -/
  status : AList fun _ : String => TransferStatus
  sessions : List String
  /-- The calls of finishSession that have set the status and wait for the table. -/
  finishing : List String
  /-- What the loop of a call that holds the table has still to look at. -/
  purging : Option (List String)

inductive TransferStep where
  | start (transferID : String)
  | advance (transferID : String) (ok : Bool)
  /-- A call of finishSession gets the table; the order is that of its loop. -/
  | lock (i : Nat) (order : List String)
  | look
  | unlock
  deriving DecidableEq, Repr

namespace TransferManager

def new : TransferManager := ⟨∅, [], [], none⟩

def sessionLimit : Nat := 1000

def finished (t : TransferManager) (transferID : String) : Bool :=
  (t.status.lookup transferID).any (fun status => !status.active)

def next (t : TransferManager) : TransferStep → Option TransferManager
  | .start id =>
    if t.purging = none ∧ id ∉ t.status then
      some { t with status := t.status.insert id .preparing, sessions := t.sessions ++ [id] }
    else none
  | .advance id ok =>
    (t.status.lookup id).bind fun status => (status.next ok).map fun status' =>
      { t with
        status := t.status.insert id status'
        finishing := if status'.active then t.finishing else t.finishing ++ [id] }
  | .lock i order =>
    if t.purging = none then
      t.finishing[i]?.bind fun _ =>
        let t := { t with finishing := t.finishing.eraseIdx i }
        if sessionLimit < t.sessions.length then
          if order.Perm t.sessions then some { t with purging := some order } else none
        else some t
    else none
  | .look =>
    match t.purging with
    | some (s :: rest) => some { t with
      sessions := if t.finished s then t.sessions.erase s else t.sessions
      purging := some rest }
    | _ => none
  | .unlock =>
    match t.purging with
    | some [] => some { t with purging := none }
    | _ => none

def Initial (t : TransferManager) : Prop := t = new

def settled (t : TransferManager) (id : String) : Bool := t.finished id && id ∉ t.finishing

/-- No unfinished session was removed, and a purge comes to every settled one. -/
structure Swept (t : TransferManager) : Prop where
  once : t.sessions.Nodup
  kept : ∀ id ∈ t.status, id ∉ t.sessions → t.finished id = true
  bounded : t.purging = none → (t.sessions.filter t.settled).length ≤ sessionLimit
  ahead : ∀ todo, t.purging = some todo → ∀ s ∈ t.sessions, t.settled s = true → s ∈ todo
  known : ∀ s ∈ t.sessions, s ∈ t.status

variable {t t' : TransferManager}

theorem swept_new : new.Swept where
  once := List.nodup_nil
  kept := fun id member => absurd member (AList.notMem_empty id)
  bounded := fun _ => Nat.zero_le _
  ahead := fun _ none => by cases none
  known := fun _ member => by cases member

theorem Swept.kept_settled (swept : t.Swept) (sessions : t'.sessions = t.sessions)
    (purging : t'.purging = t.purging) (settled : ∀ s, t'.settled s = t.settled s)
    (finished : ∀ s, t.finished s = true → t'.finished s = true)
    (status : ∀ s, s ∈ t'.status ↔ s ∈ t.status) : t'.Swept where
  once := sessions ▸ swept.once
  kept := by
    intro id started removed
    rw [sessions] at removed
    exact finished id (swept.kept id ((status id).mp started) removed)
  bounded := by
    rw [purging, sessions, funext settled]
    exact swept.bounded
  ahead := by
    rw [purging, sessions, funext settled]
    exact swept.ahead
  known := by
    intro s member
    exact (status s).mpr (swept.known s (sessions ▸ member))

theorem finished_insert (t : TransferManager) (id : String) (status : TransferStatus) (s : String) :
    ({ t with status := t.status.insert id status } : TransferManager).finished s =
      if s = id then !status.active else t.finished s := by
  unfold finished
  split
  · rename_i same
    rw [same, AList.lookup_insert, Option.any_some]
  · rename_i other
    rw [AList.lookup_insert_ne other]

theorem swept_start {id : String} (swept : t.Swept) (moved : t.next (.start id) = some t') :
    t'.Swept := by
  simp only [next] at moved
  split at moved
  · rename_i free
    obtain ⟨idle, fresh⟩ := free
    cases moved
    have before : t.finished id = false := by
      rw [finished, AList.lookup_eq_none.mpr fresh]
      rfl
    have finished : ∀ s, ({ t with status := t.status.insert id .preparing } :
        TransferManager).finished s = t.finished s := by
      intro s
      rw [finished_insert]
      split
      · rename_i same
        rw [same, before]
        rfl
      · rfl
    have settled : ∀ s, (TransferManager.mk (t.status.insert id .preparing) (t.sessions ++ [id])
        t.finishing t.purging).settled s = t.settled s := by
      intro s
      exact congrArg (· && _) (finished s)
    have new : t.settled id = false := by rw [TransferManager.settled, before, Bool.false_and]
    refine ⟨?_, ?_, ?_, ?_, ?_⟩
    · have absent : id ∉ t.sessions := fun member => fresh (swept.known id member)
      exact List.nodup_append.mpr ⟨swept.once, List.nodup_singleton id, by
        rintro s member _ here rfl
        exact absent (List.mem_singleton.mp here ▸ member)⟩
    · intro s started removed
      rw [List.mem_append, not_or, List.mem_singleton] at removed
      have old := ((AList.mem_insert _).mp started).resolve_left removed.2
      exact (finished s).trans (swept.kept s old removed.1)
    · intro _
      rw [funext settled, List.filter_append]
      simpa [new] using swept.bounded idle
    · intro todo busy
      exact absurd (idle.symm.trans busy) nofun
    · intro s member
      apply (AList.mem_insert _).mpr
      rcases List.mem_append.mp member with old | here
      · exact Or.inr (swept.known s old)
      · exact Or.inl (List.mem_singleton.mp here)
  · cases moved

theorem next_active {status status' : TransferStatus} {ok : Bool}
    (moved : status.next ok = some status') : status.active = true := by
  cases status <;> cases ok <;> first | rfl | cases moved

theorem swept_advance {id : String} {ok : Bool} (swept : t.Swept)
    (moved : t.next (.advance id ok) = some t') : t'.Swept := by
  obtain ⟨status, found, moved⟩ := Option.bind_eq_some_iff.mp moved
  obtain ⟨status', step, rfl⟩ := Option.map_eq_some_iff.mp moved
  have before : t.finished id = false := by
    rw [finished, found, Option.any_some, next_active step]
    rfl
  have started : id ∈ t.status := AList.lookup_isSome.mp (by rw [found]; rfl)
  refine swept.kept_settled rfl rfl ?_ ?_ ?_
  · intro s
    have after := finished_insert t id status' s
    unfold settled
    by_cases same : s = id
    · subst same
      rw [before, Bool.false_and]
      rw [if_pos rfl] at after
      change ((_ : TransferManager).finished s && _) = false
      cases active : status'.active with
      | true =>
        rw [active] at after
        exact Bool.and_eq_false_iff.mpr (Or.inl after)
      | false => simp
    · rw [if_neg same] at after
      refine congr_arg₂ (· && ·) after ?_
      cases status'.active with
      | true => rfl
      | false => simp [same]
  · intro s done
    have after := finished_insert t id status' s
    by_cases same : s = id
    · rw [same, before] at done
      cases done
    · rw [if_neg same] at after
      exact after.trans done
  · intro s
    rw [AList.mem_insert]
    constructor
    · rintro (rfl | old)
      · exact started
      · exact old
    · exact Or.inr

theorem swept_lock {i : Nat} {order : List String} (swept : t.Swept)
    (moved : t.next (.lock i order) = some t') : t'.Swept := by
  simp only [next] at moved
  split at moved
  · rename_i idle
    obtain ⟨-, -, moved⟩ := Option.bind_eq_some_iff.mp moved
    split at moved
    · split at moved
      · rename_i perm
        cases moved
        refine ⟨swept.once, swept.kept, nofun, ?_, swept.known⟩
        intro todo same s member _
        cases same
        exact perm.mem_iff.mpr member
      · cases moved
    · rename_i few
      cases moved
      refine ⟨swept.once, swept.kept, ?_, ?_, swept.known⟩
      · intro _
        exact (List.length_filter_le _ _).trans (not_lt.mp few)
      · intro _ busy
        exact absurd (idle.symm.trans busy) nofun
  · cases moved

theorem swept_look (swept : t.Swept) (moved : t.next .look = some t') : t'.Swept := by
  simp only [next] at moved
  split at moved
  · rename_i s rest busy
    cases moved
    have fewer : ∀ x, x ∈ (if t.finished s then t.sessions.erase s else t.sessions) →
        x ∈ t.sessions ∧ (t.finished s = true → x ≠ s) := by
      intro x member
      split at member
      · exact ⟨List.mem_of_mem_erase member, fun _ => ((swept.once.mem_erase_iff).mp member).1⟩
      · rename_i unfinished
        exact ⟨member, fun done => absurd done unfinished⟩
    refine ⟨?_, ?_, nofun, ?_, fun x member => swept.known x (fewer x member).1⟩
    · change (if t.finished s then t.sessions.erase s else t.sessions).Nodup
      split
      · exact swept.once.erase s
      · exact swept.once
    · intro x started removed
      by_cases here : x ∈ t.sessions
      · change x ∉ (if t.finished s then t.sessions.erase s else t.sessions) at removed
        split at removed
        · rename_i done
          by_cases same : x = s
          · exact same ▸ done
          · exact absurd ((List.mem_erase_of_ne same).mpr here) removed
        · exact absurd here removed
      · exact swept.kept x started here
    · intro todo same x member settled
      cases same
      obtain ⟨inside, other⟩ := fewer x member
      rcases List.mem_cons.mp (swept.ahead (s :: rest) busy x inside settled) with rfl | later
      · exact absurd rfl (other (Bool.and_eq_true_iff.mp settled).1)
      · exact later
  · cases moved

theorem swept_unlock (swept : t.Swept) (moved : t.next .unlock = some t') : t'.Swept := by
  simp only [next] at moved
  split at moved
  · rename_i busy
    cases moved
    refine ⟨swept.once, swept.kept, fun _ => ?_, nofun, swept.known⟩
    have none : t.sessions.filter t.settled = [] := by
      apply List.filter_eq_nil_iff.mpr
      intro s member settled
      exact absurd (swept.ahead [] busy s member settled) List.not_mem_nil
    change (t.sessions.filter t.settled).length ≤ _
    rw [none]
    exact Nat.zero_le _
  · cases moved

theorem removed_finished {step : TransferStep} (moved : t.next step = some t') {id : String}
    (before : id ∈ t.sessions) (after : id ∉ t'.sessions) : t.finished id = true := by
  cases step with
  | start new =>
    simp only [next] at moved
    split at moved
    · cases moved
      exact absurd (List.mem_append_left _ before) after
    · cases moved
  | advance other ok =>
    obtain ⟨status, -, moved⟩ := Option.bind_eq_some_iff.mp moved
    obtain ⟨status', -, rfl⟩ := Option.map_eq_some_iff.mp moved
    exact absurd before after
  | lock i order =>
    simp only [next] at moved
    split at moved
    · obtain ⟨-, -, moved⟩ := Option.bind_eq_some_iff.mp moved
      split at moved
      · split at moved
        · cases moved
          exact absurd before after
        · cases moved
      · cases moved
        exact absurd before after
    · cases moved
  | look =>
    simp only [next] at moved
    split at moved
    · rename_i s rest _
      cases moved
      change id ∉ (if t.finished s then t.sessions.erase s else t.sessions) at after
      split at after
      · rename_i done
        by_cases same : id = s
        · exact same ▸ done
        · exact absurd ((List.mem_erase_of_ne same).mpr before) after
      · exact absurd before after
    · cases moved
  | unlock =>
    simp only [next] at moved
    split at moved
    · cases moved
      exact absurd before after
    · cases moved

theorem swept_next {step : TransferStep} (swept : t.Swept) (moved : t.next step = some t') :
    t'.Swept := by
  cases step with
  | start id => exact swept_start swept moved
  | advance id ok => exact swept_advance swept moved
  | lock i order => exact swept_lock swept moved
  | look => exact swept_look swept moved
  | unlock => exact swept_unlock swept moved

theorem swept_reach (reached : Reach Initial (Runs next) t) : t.Swept := by
  apply reach_invariant Swept _ _ reached
  · rintro _ rfl
    exact swept_new
  · intro t step t' swept moved
    exact swept_next swept moved

end TransferManager

/-- In every run, a session leaves the table only when it is completed or failed, no
other one has ever left it, and between the calls of finishSession the table has at most
so many finished sessions. -/
theorem sessions_bounded {t : TransferManager} (reached : Reach TransferManager.Initial
      (Runs TransferManager.next) t) :
    (∀ step t', t.next step = some t' → ∀ id ∈ t.sessions, id ∉ t'.sessions →
      t.finished id = true) ∧
    (∀ id ∈ t.status, t.finished id = false → id ∈ t.sessions) ∧
    (t.finishing = [] → t.purging = none → (t.sessions.filter t.finished).length ≤ 1000) := by
  have swept := TransferManager.swept_reach reached
  refine ⟨?_, ?_, ?_⟩
  · intro step t' moved id before after
    exact TransferManager.removed_finished moved before after
  · intro id started active
    by_contra removed
    rw [swept.kept id started removed] at active
    cases active
  · intro idle free
    have settled : t.settled = t.finished := by
      funext s
      simp [TransferManager.settled, idle]
    rw [← settled]
    exact swept.bounded free

namespace TransferManager

theorem reach_started {ids : List String} (once : ids.Nodup) : ∃ t : TransferManager,
    Reach Initial (Runs next) t ∧ t.sessions = ids ∧ t.finishing = [] ∧
      t.purging = none ∧ ∀ id, t.status.lookup id = if id ∈ ids then some .preparing else none := by
  induction ids using List.reverseRecOn with
  | nil => exact ⟨new, .start rfl, rfl, rfl, rfl, fun _ => rfl⟩
  | append_singleton ids id ih =>
    obtain ⟨before, -, absent⟩ := List.nodup_append.mp once
    obtain ⟨t, reached, sessions, idle, free, status⟩ := ih before
    have unknown : id ∉ ids := fun there => absent id there id List.mem_cons_self rfl
    have fresh : id ∉ t.status := by
      rw [← AList.lookup_eq_none, status, if_neg unknown]
    refine ⟨{ t with status := t.status.insert id .preparing, sessions := t.sessions ++ [id] },
      .next (a := .start id) reached (if_pos ⟨free, fresh⟩), by rw [sessions], idle, free, ?_⟩
    intro other
    by_cases same : other = id
    · subst same
      simp
    · simp [AList.lookup_insert_ne same, status, same]

theorem reach_looked {t : TransferManager} {todo : List String}
    (reached : Reach Initial (Runs next) t) (busy : t.purging = some todo) :
    ∃ t' : TransferManager, Reach Initial (Runs next) t' ∧
      t'.status = t.status ∧ t'.finishing = t.finishing ∧ t'.purging = none ∧
      t'.sessions = (todo.filter t.finished).foldl List.erase t.sessions := by
  induction todo generalizing t with
  | nil =>
    refine ⟨{ t with purging := none }, .next (a := .unlock) reached ?_, rfl, rfl, rfl, rfl⟩
    simp only [Runs, next, busy]
  | cons s rest ih =>
    obtain ⟨t', last, status, finishing, free, sessions⟩ := ih
      (t := { t with
        sessions := if t.finished s then t.sessions.erase s else t.sessions
        purging := some rest })
      (.next (a := .look) reached (by simp only [Runs, next, busy])) rfl
    refine ⟨t', last, status, finishing, free, sessions.trans ?_⟩
    cases done : t.finished s with
    | true =>
      rw [List.filter_cons_of_pos done, List.foldl_cons, if_pos rfl]
      rfl
    | false =>
      rw [List.filter_cons_of_neg (by simp [done]), if_neg Bool.false_ne_true]
      rfl

theorem reach_purged {ids : List String} {id : String} (once : ids.Nodup) (member : id ∈ ids)
    (many : sessionLimit < ids.length) : ∃ t : TransferManager,
    Reach Initial (Runs next) t ∧ t.finishing = [] ∧ t.purging = none ∧
      t.finished id = true ∧ t.sessions = ids.erase id := by
  obtain ⟨t, reached, sessions, idle, free, status⟩ := reach_started once
  have preparing : t.status.lookup id = some .preparing := by rw [status, if_pos member]
  let streaming : TransferManager := { t with status := t.status.insert id .streaming }
  let completed : TransferManager :=
    { streaming with status := streaming.status.insert id .completed, finishing := [id] }
  have begun : Reach Initial (Runs next) streaming := by
    refine .next (a := .advance id true) reached ?_
    simp [Runs, next, preparing, TransferStatus.next, TransferStatus.active, streaming]
  have ended : Reach Initial (Runs next) completed := by
    refine .next (a := .advance id true) begun ?_
    simp [Runs, next, TransferStatus.next, TransferStatus.active, streaming, completed,
      idle]
  have locked : Reach Initial (Runs next)
      { completed with finishing := [], purging := some ids } := by
    refine .next (a := .lock 0 ids) ended ?_
    simp [Runs, next, completed, streaming, free, sessions, many]
  obtain ⟨t', last, kept, none_left, unlocked, left⟩ := reach_looked locked rfl
  have finished : ∀ s ∈ ids, completed.finished s = (s == id) := by
    intro s there
    change (((t.status.insert id .streaming).insert id .completed).lookup s).any _ = _
    by_cases same : s = id
    · subst same
      simp [TransferStatus.active]
    · rw [AList.lookup_insert_ne same, AList.lookup_insert_ne same, status, if_pos there]
      simp [same, TransferStatus.active]
  refine ⟨t', last, none_left, unlocked, ?_, ?_⟩
  · rw [TransferManager.finished, kept]
    exact (finished id member).trans (beq_self_eq_true id)
  · have one : ids.filter completed.finished = [id] := by
      rw [List.filter_congr finished, List.filter_beq, List.count_eq_one_of_mem once member]
      rfl
    change t'.sessions = (ids.filter completed.finished).foldl List.erase t.sessions at left
    rw [left, one, sessions]
    rfl

end TransferManager

theorem sessions_bounded_purged : ∃ t : TransferManager,
    t.sessions.length = 1000 ∧ t.finished "" = true ∧ "" ∉ t.sessions ∧
      (t.sessions.filter t.finished).length ≤ 1000 := by
  have once : ((List.range 1001).map fun n => String.ofList (List.replicate n 'a')).Nodup := by
    refine List.Nodup.map (fun m n same => ?_) List.nodup_range
    simpa using congrArg String.length same
  have member : "" ∈ (List.range 1001).map fun n => String.ofList (List.replicate n 'a') :=
    List.mem_map.mpr ⟨0, by simp, rfl⟩
  obtain ⟨t, reached, idle, free, done, left⟩ :=
    TransferManager.reach_purged once member (by simp [TransferManager.sessionLimit])
  refine ⟨t, ?_, done, ?_, (sessions_bounded reached).2.2 idle free⟩
  · rw [left, List.length_erase_of_mem member]
    simp
  · rw [left]
    exact once.not_mem_erase

end P2PSync
