import Mathlib.Tactic.Ring
import Mathlib.Data.Finset.Erase
import Mathlib.Data.Finset.Insert
import Mathlib.Data.List.AList
import P2PSync.Library.Progress

/-! The peers that a connection manager keeps dialling. A peer that Connect was called
for is a target from then on; every tick dials the targets that have no connection and
whose delay is over. Calls run side by side, so one peer may be dialled by several of
them, at addresses that differ. Times are in milliseconds. -/
namespace P2PSync

open Transition

def initialRetryDelay : Nat := 1000

def maxRetryDelay : Nat := 60000

structure TargetPeer where
  address : String
  port : Int
  /-- None is the zero time. -/
  nextRetry : Option Nat
  retryDelay : Nat
  /-- History: the retries that failed since the delay was reset, and the time of the last. -/
  failures : Nat
  lastFailure : Nat
  deriving DecidableEq, Repr

namespace TargetPeer

def new (address : String) (port : Int) : TargetPeer :=
  ⟨address, port, none, initialRetryDelay, 0, 0⟩

def reset (t : TargetPeer) : TargetPeer :=
  { t with retryDelay := initialRetryDelay, nextRetry := none, failures := 0 }

def backOff (t : TargetPeer) (now : Nat) : TargetPeer :=
  let doubled := t.retryDelay * 2
  let retryDelay := if maxRetryDelay < doubled then maxRetryDelay else doubled
  { t with
    retryDelay := retryDelay
    nextRetry := some (now + retryDelay)
    failures := t.failures + 1
    lastFailure := now }

def due (t : TargetPeer) (now : Nat) : Bool := t.nextRetry.all (· ≤ now)

structure Paced (now : Nat) (t : TargetPeer) : Prop where
  delay : t.retryDelay = min maxRetryDelay (initialRetryDelay * 2 ^ t.failures)
  fresh : t.failures = 0 → t.nextRetry = none
  later : 0 < t.failures → t.nextRetry = some (t.lastFailure + t.retryDelay) ∧ t.lastFailure ≤ now

theorem paced_new (now : Nat) (address : String) (port : Int) : (new address port).Paced now :=
  ⟨rfl, fun _ => rfl, fun some => absurd some (lt_irrefl 0)⟩

theorem paced_reset (now : Nat) (t : TargetPeer) : t.reset.Paced now :=
  ⟨rfl, fun _ => rfl, fun some => absurd some (lt_irrefl 0)⟩

section

variable {now later : Nat} {t : TargetPeer} (paced : t.Paced now)

include paced

theorem Paced.moved (address : String) (port : Int) :
    { t with address := address, port := port : TargetPeer }.Paced now :=
  ⟨paced.delay, paced.fresh, paced.later⟩

theorem Paced.wait (le : now ≤ later) : t.Paced later :=
  ⟨paced.delay, paced.fresh, fun some => ⟨(paced.later some).1, (paced.later some).2.trans le⟩⟩

theorem Paced.backOff : (t.backOff now).Paced now where
  delay := by
    have doubled : initialRetryDelay * 2 ^ (t.failures + 1) =
        2 * (initialRetryDelay * 2 ^ t.failures) := by
      rw [Nat.pow_succ, Nat.mul_comm (2 ^ t.failures) 2, Nat.mul_left_comm]
    have delay := paced.delay
    simp only [TargetPeer.backOff, doubled, delay]
    split <;> omega
  fresh none := by cases none
  later _ := ⟨rfl, le_refl now⟩

theorem Paced.due (quiet : 0 < t.failures → t.lastFailure + maxRetryDelay ≤ now) :
    t.due now = true := by
  rcases Nat.eq_zero_or_pos t.failures with none | some
  · rw [TargetPeer.due, paced.fresh none]
    rfl
  · have bounded : t.retryDelay ≤ maxRetryDelay := by
      rw [paced.delay]
      exact Nat.min_le_left _ _
    have elapsed := quiet some
    rw [TargetPeer.due, (paced.later some).1, Option.all_some, decide_eq_true_eq]
    omega

end

end TargetPeer

inductive CallStage where
  | called | dialling | returned (failed : Bool)
  deriving DecidableEq, Repr

structure ConnectCall where
  peerID : String
  address : String
  port : Int
  retry : Bool
  stage : CallStage
  deriving DecidableEq, Repr

structure Reconnector where
  connections : Finset String
  targets : AList fun _ : String => TargetPeer
  calls : List ConnectCall
  now : Nat
  /-- History: where each peer was last discovered, by the calls that have begun. -/
  announced : AList fun _ : String => String × Int

inductive ReconnectEvent where
  | connect (peerID address : String) (port : Int)
  | tick
  | enter (i : Nat)
  | dialled (i : Nat) (failed : Bool)
  | record (i : Nat)
  | incoming (peerID : String)
  | lost (peerID : String)
  | wait (ms : Nat)
  deriving DecidableEq, Repr

namespace Reconnector

def new : Reconnector := ⟨∅, ∅, [], 0, ∅⟩

def setStage (s : Reconnector) (i : Nat) (c : ConnectCall) (stage : CallStage) : Reconnector :=
  { s with calls := s.calls.set i { c with stage := stage } }

def toRetry (s : Reconnector) : List ConnectCall :=
  (s.targets.entries.filter (fun e => e.1 ∉ s.connections ∧ e.2.due s.now)).map
    (fun e => ⟨e.1, e.2.address, e.2.port, true, .called⟩)

def noted (s : Reconnector) (c : ConnectCall) : TargetPeer :=
  match s.targets.lookup c.peerID with
  | some t => { t with address := c.address, port := c.port }
  | none => .new c.address c.port

def updated (s : Reconnector) (peerID : String) (f : TargetPeer → TargetPeer) :
    AList fun _ : String => TargetPeer :=
  match s.targets.lookup peerID with
  | some t => s.targets.insert peerID (f t)
  | none => s.targets

def next (s : Reconnector) : ReconnectEvent → Option Reconnector
  | .connect peerID address port =>
    some { s with calls := s.calls ++ [⟨peerID, address, port, false, .called⟩] }
  | .tick => some { s with calls := s.calls ++ s.toRetry }
  | .enter i =>
    s.calls[i]?.bind fun c =>
      if c.stage = .called then
        some { s.setStage i c (if c.peerID ∈ s.connections then .returned false else .dialling) with
          targets := s.targets.insert c.peerID (s.noted c)
          announced := if c.retry then s.announced
            else s.announced.insert c.peerID (c.address, c.port) }
      else none
  | .dialled i failed =>
    s.calls[i]?.bind fun c =>
      if c.stage = .dialling then
        let s := s.setStage i c (.returned failed)
        some (if failed then s
          else { s with
            connections := insert c.peerID s.connections
            targets := s.updated c.peerID TargetPeer.reset })
      else none
  | .record i =>
    s.calls[i]?.bind fun c =>
      match c.stage with
      | .returned failed =>
        let s := { s with calls := s.calls.eraseIdx i }
        some (if c.retry then
          { s with
            targets := s.updated c.peerID
              (if failed then (TargetPeer.backOff · s.now) else TargetPeer.reset) }
          else s)
      | _ => none
  | .incoming peerID => some { s with connections := insert peerID s.connections }
  | .lost peerID => some { s with connections := s.connections.erase peerID }
  | .wait ms => some { s with now := s.now + ms }

def Initial (s : Reconnector) : Prop := s = new

theorem new_initial : new.Initial := rfl

variable {s s' : Reconnector}

inductive Moved (s : Reconnector) : ReconnectEvent → Reconnector → Prop where
  | called (peerID address : String) (port : Int) : Moved s (.connect peerID address port)
      { s with calls := s.calls ++ [⟨peerID, address, port, false, .called⟩] }
  | ticked : Moved s .tick { s with calls := s.calls ++ s.toRetry }
  | entered {i : Nat} {c : ConnectCall} (at_ : s.calls[i]? = some c) (stage : c.stage = .called) :
      Moved s (.enter i)
        { s.setStage i c (if c.peerID ∈ s.connections then .returned false else .dialling) with
          targets := s.targets.insert c.peerID (s.noted c)
          announced := if c.retry then s.announced
            else s.announced.insert c.peerID (c.address, c.port) }
  | failed {i : Nat} {c : ConnectCall} (at_ : s.calls[i]? = some c) (stage : c.stage = .dialling) :
      Moved s (.dialled i true) (s.setStage i c (.returned true))
  | connected {i : Nat} {c : ConnectCall} (at_ : s.calls[i]? = some c)
      (stage : c.stage = .dialling) : Moved s (.dialled i false)
        { s.setStage i c (.returned false) with
          connections := insert c.peerID s.connections
          targets := s.updated c.peerID TargetPeer.reset }
  | recorded {i : Nat} {c : ConnectCall} {failed : Bool} (at_ : s.calls[i]? = some c)
      (stage : c.stage = .returned failed) (retry : c.retry = true) : Moved s (.record i)
        { s with
          calls := s.calls.eraseIdx i
          targets := s.updated c.peerID
            (if failed then (TargetPeer.backOff · s.now) else TargetPeer.reset) }
  | ended {i : Nat} {c : ConnectCall} {failed : Bool} (at_ : s.calls[i]? = some c)
      (stage : c.stage = .returned failed) (first : c.retry = false) : Moved s (.record i)
        { s with calls := s.calls.eraseIdx i }
  | accepted (peerID : String) : Moved s (.incoming peerID)
      { s with connections := insert peerID s.connections }
  | lost (peerID : String) : Moved s (.lost peerID)
      { s with connections := s.connections.erase peerID }
  | waited (ms : Nat) : Moved s (.wait ms) { s with now := s.now + ms }

theorem moved_of_next {e : ReconnectEvent} (moved : s.next e = some s') : Moved s e s' := by
  cases e with
  | connect peerID address port =>
    cases moved
    exact .called peerID address port
  | tick =>
    cases moved
    exact .ticked
  | enter i =>
    obtain ⟨c, at_, moved⟩ := Option.bind_eq_some_iff.mp moved
    split at moved
    · cases moved
      exact .entered at_ ‹_›
    · cases moved
  | dialled i failed =>
    obtain ⟨c, at_, moved⟩ := Option.bind_eq_some_iff.mp moved
    split at moved
    · cases failed with
      | true =>
        cases moved
        exact .failed at_ ‹_›
      | false =>
        cases moved
        exact .connected at_ ‹_›
    · cases moved
  | record i =>
    obtain ⟨c, at_, moved⟩ := Option.bind_eq_some_iff.mp moved
    split at moved
    · rename_i failed stage
      cases retry : c.retry with
      | true =>
        rw [retry] at moved
        cases moved
        exact .recorded at_ stage retry
      | false =>
        rw [retry] at moved
        cases moved
        exact .ended at_ stage retry
    · cases moved
  | incoming peerID =>
    cases moved
    exact .accepted peerID
  | lost peerID =>
    cases moved
    exact .lost peerID
  | wait ms =>
    cases moved
    exact .waited ms

theorem lookup_updated {peerID other : String} {f : TargetPeer → TargetPeer} {t : TargetPeer}
    (found : (s.updated peerID f).lookup other = some t) : s.targets.lookup other = some t ∨
      other = peerID ∧ ∃ old, s.targets.lookup peerID = some old ∧ t = f old := by
  unfold updated at found
  split at found
  · rename_i old known
    by_cases same : other = peerID
    · subst same
      exact .inr ⟨rfl, old, known, (Option.some.inj ((AList.lookup_insert _).symm.trans found)).symm⟩
    · exact .inl ((AList.lookup_insert_ne same).symm.trans found)
  · exact .inl found

theorem mem_updated {peerID other : String} {f : TargetPeer → TargetPeer}
    (known : other ∈ s.targets) : other ∈ s.updated peerID f := by
  unfold updated
  split
  · exact (AList.mem_insert _).mpr (.inr known)
  · exact known

theorem updated_all {P : TargetPeer → Prop} {peerID : String} {f : TargetPeer → TargetPeer}
    (all : ∀ other t, s.targets.lookup other = some t → P t) (keep : ∀ t, P t → P (f t)) :
    ∀ other t, (s.updated peerID f).lookup other = some t → P t := by
  intro other t found
  rcases lookup_updated found with old | ⟨-, old, known, rfl⟩
  · exact all other t old
  · exact keep old (all peerID old known)

def Paced (s : Reconnector) : Prop := ∀ peerID t, s.targets.lookup peerID = some t → t.Paced s.now

theorem noted_paced (paced : s.Paced) (c : ConnectCall) : (s.noted c).Paced s.now := by
  unfold noted
  split
  · rename_i t found
    exact (paced c.peerID t found).moved c.address c.port
  · exact TargetPeer.paced_new s.now c.address c.port

theorem paced_next {e : ReconnectEvent} (paced : s.Paced) (moved : s.next e = some s') :
    s'.Paced := by
  cases moved_of_next moved with
  | called | ticked | failed | ended | accepted | lost => exact paced
  | @entered i c at_ stage =>
    intro peerID t found
    by_cases same : peerID = c.peerID
    · subst same
      cases Option.some.inj ((AList.lookup_insert _).symm.trans found)
      exact noted_paced paced c
    · exact paced peerID t ((AList.lookup_insert_ne same).symm.trans found)
  | connected => exact updated_all paced (fun t _ => t.paced_reset s.now)
  | @recorded i c failed =>
    refine updated_all paced ?_
    intro t old
    cases failed with
    | true => exact old.backOff
    | false => exact t.paced_reset s.now
  | waited ms => exact fun peerID t found => (paced peerID t found).wait (Nat.le_add_right _ ms)

theorem paced_reach (reached : Reach Initial (Runs next) s) : s.Paced := by
  refine reach_invariant Paced ?_ ?_ reached
  · rintro s rfl peerID t found
    cases found
  · intro s e s' paced moved
    exact paced_next paced moved

theorem target_next {e : ReconnectEvent} {peerID : String} (known : peerID ∈ s.targets)
    (moved : s.next e = some s') : peerID ∈ s'.targets := by
  cases moved_of_next moved with
  | called | ticked | failed | ended | accepted | lost | waited => exact known
  | entered => exact (AList.mem_insert _).mpr (.inr known)
  | connected | recorded => exact mem_updated known

theorem mem_toRetry {peerID : String} {t : TargetPeer} (found : s.targets.lookup peerID = some t)
    (apart : peerID ∉ s.connections) (due : t.due s.now = true) :
    (⟨peerID, t.address, t.port, true, .called⟩ : ConnectCall) ∈ s.toRetry := by
  refine List.mem_map.mpr ⟨⟨peerID, t⟩, List.mem_filter.mpr ⟨?_, ?_⟩, rfl⟩
  · exact AList.mem_lookup_iff.mp found
  · simp [apart, due]

section Address

def outdated (c stale : ConnectCall) : Bool :=
  stale.retry ∧ stale.stage = .called ∧ stale.peerID = c.peerID ∧
    (stale.address, stale.port) ≠ (c.address, c.port)

/-- No call for a peer that was discovered begins while a retry with an address from before
has still to begin. -/
def inOrder (s : Reconnector) : ReconnectEvent → Bool
  | .enter i => s.calls[i]?.all (fun c => c.retry || !s.calls.any (outdated c))
  | _ => true

structure Fresh (s : Reconnector) : Prop where
  target : ∀ peerID t, s.targets.lookup peerID = some t →
    s.announced.lookup peerID = some (t.address, t.port)
  retry : ∀ c ∈ s.calls, c.retry = true → c.stage = .called →
    s.announced.lookup c.peerID = some (c.address, c.port)

theorem noted_address (s : Reconnector) (c : ConnectCall) :
    ((s.noted c).address, (s.noted c).port) = (c.address, c.port) := by
  unfold noted
  split <;> rfl

section

variable (fresh : s.Fresh) {i : Nat} {c : ConnectCall} {stage : CallStage}

include fresh

theorem Fresh.updated {peerID : String} {f : TargetPeer → TargetPeer}
    (same : ∀ t, ((f t).address, (f t).port) = (t.address, t.port)) :
    ∀ other t, (s.updated peerID f).lookup other = some t →
      s.announced.lookup other = some (t.address, t.port) := by
  intro other t found
  rcases lookup_updated found with old | ⟨rfl, old, known, rfl⟩
  · exact fresh.target other t old
  · rw [same old]
    exact fresh.target other old known

theorem Fresh.set (begun : stage ≠ .called) :
    ∀ c' ∈ s.calls.set i { c with stage := stage }, c'.retry = true →
      c'.stage = .called → s.announced.lookup c'.peerID = some (c'.address, c'.port) := by
  intro c' member retry waits
  rcases List.mem_or_eq_of_mem_set member with old | rfl
  · exact fresh.retry c' old retry waits
  · exact absurd waits begun

theorem Fresh.ticked : ({ s with calls := s.calls ++ s.toRetry } : Reconnector).Fresh where
  target := fresh.target
  retry c member retry waits := by
    rcases List.mem_append.mp member with old | new
    · exact fresh.retry c old retry waits
    · obtain ⟨⟨peerID, t⟩, entry, rfl⟩ := List.mem_map.mp new
      exact fresh.target peerID t (AList.mem_lookup_iff.mpr (List.mem_filter.mp entry).1)

theorem Fresh.retried (at_ : s.calls[i]? = some c) (waits : c.stage = .called)
    (retry : c.retry = true) (begun : stage ≠ .called) : ({ s.setStage i c stage with
      targets := s.targets.insert c.peerID (s.noted c) } : Reconnector).Fresh where
  target other t found := by
    by_cases same : other = c.peerID
    · subst same
      cases Option.some.inj ((AList.lookup_insert _).symm.trans found)
      rw [noted_address]
      exact fresh.retry c (List.mem_of_getElem? at_) retry waits
    · exact fresh.target other t ((AList.lookup_insert_ne same).symm.trans found)
  retry := fresh.set begun

theorem Fresh.discovered (current : s.calls.any (outdated c) = false) (begun : stage ≠ .called) :
    ({ s.setStage i c stage with
      targets := s.targets.insert c.peerID (s.noted c)
      announced := s.announced.insert c.peerID (c.address, c.port) } : Reconnector).Fresh where
  target other t found := by
    by_cases same : other = c.peerID
    · subst same
      cases Option.some.inj ((AList.lookup_insert _).symm.trans found)
      rw [noted_address, AList.lookup_insert]
    · rw [AList.lookup_insert_ne same] at found ⊢
      exact fresh.target other t found
  retry c' member retry waits := by
    rcases List.mem_or_eq_of_mem_set member with old | rfl
    · by_cases same : c'.peerID = c.peerID
      · have agrees := List.any_eq_false.mp current c' old
        simp only [outdated, retry, waits, same, true_and, decide_eq_true_eq, not_not] at agrees
        rw [same, AList.lookup_insert, agrees]
      · rw [AList.lookup_insert_ne same]
        exact fresh.retry c' old retry waits
    · exact absurd waits begun

end

theorem fresh_next {e : ReconnectEvent} (fresh : s.Fresh) (moved : s.next e = some s')
    (ordered : s.inOrder e = true) : s'.Fresh := by
  cases moved_of_next moved with
  | called =>
    refine ⟨fresh.target, fun c member retry waits => ?_⟩
    rcases List.mem_append.mp member with old | new
    · exact fresh.retry c old retry waits
    · rw [List.mem_singleton.mp new] at retry
      cases retry
  | ticked => exact fresh.ticked
  | @entered i c at_ stage =>
    have begun : (if c.peerID ∈ s.connections then CallStage.returned false else .dialling) ≠
        .called := by split <;> decide
    cases retry : c.retry with
    | true => exact fresh.retried at_ stage retry begun
    | false =>
      simp only [inOrder, at_, Option.all_some, retry, Bool.false_or, Bool.not_eq_true'] at ordered
      exact fresh.discovered ordered begun
  | failed => exact ⟨fresh.target, fresh.set (by decide)⟩
  | connected => exact ⟨fresh.updated (fun _ => rfl), fresh.set (by decide)⟩
  | @recorded i c failed =>
    refine ⟨fresh.updated ?_, fun c member => fresh.retry c (List.mem_of_mem_eraseIdx member)⟩
    intro t
    cases failed <;> rfl
  | ended => exact ⟨fresh.target, fun c member => fresh.retry c (List.mem_of_mem_eraseIdx member)⟩
  | accepted | lost | waited => exact ⟨fresh.target, fresh.retry⟩

end Address

end Reconnector

section Results

variable {s : Reconnector}

/-- However many calls for a peer overlap: k failed retries in a row leave a delay of 2^k
seconds, at most a minute, that runs from the last failure. -/
theorem retry_delay_doubles (reached : Reach Reconnector.Initial (Runs Reconnector.next) s)
    {peerID : String} {t : TargetPeer} (found : s.targets.lookup peerID = some t) :
    t.retryDelay = min 60000 (1000 * 2 ^ t.failures) ∧
      (t.failures = 0 → t.nextRetry = none) ∧
      (0 < t.failures → t.nextRetry = some (t.lastFailure + t.retryDelay) ∧
        t.lastFailure ≤ s.now) := by
  have paced := Reconnector.paced_reach reached peerID t found
  exact ⟨paced.delay, paced.fresh, paced.later⟩

def overlappingRetries : List ReconnectEvent :=
  [.connect "b" "10.0.0.2" 9000, .enter 0, .dialled 0 true, .record 0, .tick, .enter 0, .wait 2000,
    .tick, .enter 1, .wait 3000, .dialled 0 true, .record 0, .wait 2000, .dialled 0 true, .record 0]

theorem retry_delay_doubles_overlappingRetries :
    ∃ (s : Reconnector) (t : TargetPeer), s.targets.lookup "b" = some t ∧ t.failures = 2 ∧
      t.nextRetry = some 11000 ∧ t.retryDelay = min 60000 (1000 * 2 ^ t.failures) := by
  obtain ⟨s, reached, found⟩ := reach_of_replay Reconnector.next (fun _ _ => True)
    (.start Reconnector.new_initial) overlappingRetries
    (fun s => s.targets.lookup "b" = some ⟨"10.0.0.2", 9000, some 11000, 4000, 2, 7000⟩) (by decide)
  have paced := retry_delay_doubles (reach_mono (fun _ _ _ step => step.1) reached) found
  exact ⟨s, _, found, rfl, rfl, paced.1⟩

/-- A peer that was dialled once is never given up: in whatever comes later it is a target, and
a tick that finds it without a connection, a minute after its last failure or without one,
dials it at the address it has then. -/
theorem target_redialled (reached : Reach Reconnector.Initial (Runs Reconnector.next) s)
    {peerID : String} (known : peerID ∈ s.targets) :
    ∀ events s', Path (Runs Reconnector.next) s events s' →
      ∃ t, s'.targets.lookup peerID = some t ∧
        (peerID ∉ s'.connections → (0 < t.failures → t.lastFailure + 60000 ≤ s'.now) →
          ∃ s'', s'.next .tick = some s'' ∧
            (⟨peerID, t.address, t.port, true, .called⟩ : ConnectCall) ∈ s''.calls) := by
  intro events s' path
  have still : peerID ∈ s'.targets :=
    path.invariant (I := fun s => peerID ∈ s.targets)
      (fun _ _ _ known moved => Reconnector.target_next known moved) known
  obtain ⟨t, found⟩ := Option.isSome_iff_exists.mp (AList.lookup_isSome.mpr still)
  refine ⟨t, found, fun apart quiet => ⟨_, rfl, List.mem_append_right _ ?_⟩⟩
  have paced := Reconnector.paced_reach (path.reach reached) peerID t found
  exact Reconnector.mem_toRetry found apart (paced.due quiet)

theorem target_redialled_overlappingRetries :
    ∃ (s : Reconnector) (t : TargetPeer), t.failures = 2 ∧ s.now = 67000 ∧
      ∃ s', s.next .tick = some s' ∧
        (⟨"b", t.address, t.port, true, .called⟩ : ConnectCall) ∈ s'.calls := by
  obtain ⟨s, reached, found, apart, now⟩ := reach_of_replay Reconnector.next
    (fun _ _ => True) (.start Reconnector.new_initial) (overlappingRetries ++ [.wait 60000])
    (fun s => s.targets.lookup "b" = some ⟨"10.0.0.2", 9000, some 11000, 4000, 2, 7000⟩ ∧
      "b" ∉ s.connections ∧ s.now = 67000) (by decide)
  have known : "b" ∈ s.targets := AList.lookup_isSome.mp (by rw [found]; rfl)
  obtain ⟨t, same, redial⟩ := target_redialled
    (reach_mono (fun _ _ _ step => step.1) reached) known [] s (.nil s)
  cases Option.some.inj (same.symm.trans found)
  exact ⟨s, _, rfl, now, redial apart (fun _ => by rw [now])⟩

/-- Where no discovered address comes in before a retry with an older one, the manager dials
each peer where it was last discovered. -/
theorem target_address_current (reached : Reach Reconnector.Initial
      (Guarded (Runs Reconnector.next) (fun s e => s.inOrder e = true)) s) {peerID : String}
    {t : TargetPeer} (found : s.targets.lookup peerID = some t) :
    s.announced.lookup peerID = some (t.address, t.port) := by
  have fresh : s.Fresh := by
    refine reach_invariant Reconnector.Fresh ?_ ?_ reached
    · rintro s rfl
      exact ⟨fun _ _ found => (by cases found), fun _ member => absurd member List.not_mem_nil⟩
    · rintro s e s' fresh ⟨moved, ordered⟩
      exact Reconnector.fresh_next fresh moved ordered
  exact fresh.target peerID t found

def movedPeer : List ReconnectEvent :=
  [.connect "b" "10.0.0.2" 9000, .enter 0, .dialled 0 false, .record 0, .lost "b",
    .connect "b" "10.0.0.7" 9000, .enter 0, .dialled 0 true, .tick, .enter 1]

theorem target_address_current_movedPeer :
    ∃ (s : Reconnector) (t : TargetPeer), s.targets.lookup "b" = some t ∧
      t.address = "10.0.0.7" ∧ s.announced.lookup "b" = some (t.address, t.port) := by
  obtain ⟨s, reached, found⟩ := reach_of_replay Reconnector.next
    (fun s e => s.inOrder e = true) (.start Reconnector.new_initial) movedPeer
    (fun s => s.targets.lookup "b" = some (.new "10.0.0.7" 9000)) (by decide)
  exact ⟨s, _, found, rfl, target_address_current reached found⟩

/-- The tick takes the old address, the call for the new one begins, and the retry writes the
old one over it. -/
def staleRetry : List ReconnectEvent :=
  [.connect "b" "10.0.0.2" 9000, .enter 0, .dialled 0 true, .record 0, .tick,
    .connect "b" "10.0.0.7" 9000, .enter 1, .enter 0, .dialled 0 true, .record 0,
    .dialled 0 true, .record 0]

/-- Without the condition the manager can be left with an address that is out of date, and
nothing under way that would correct it. -/
theorem stale_retry_keeps_old_address : ∃ s, Reach Reconnector.Initial
      (Guarded (Runs Reconnector.next) (fun _ _ => True)) s ∧
      s.calls = [] ∧ s.announced.lookup "b" = some ("10.0.0.7", 9000) ∧
      (s.targets.lookup "b").map TargetPeer.address = some "10.0.0.2" := by
  obtain ⟨s, reached, facts⟩ := reach_of_replay Reconnector.next (fun _ _ => True)
    (.start Reconnector.new_initial) staleRetry
    (fun s => s.calls = [] ∧ s.announced.lookup "b" = some ("10.0.0.7", 9000) ∧
      (s.targets.lookup "b").map TargetPeer.address = some "10.0.0.2") (by decide)
  exact ⟨s, reached, facts⟩

end Results

end P2PSync
