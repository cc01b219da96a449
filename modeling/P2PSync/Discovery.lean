import Mathlib.Data.List.AList
import Mathlib.Tactic.Ring
import P2PSync.Library.Progress

/-! The peers that multicast DNS announces. An announcement without an address has its
host name looked up; where that fails it is kept, and looked up again three times at
most, until it is 30 seconds old. Several announcements and the retry loop are under way
at once; each locks the table of kept announcements first and the table of peers after
it. Times are in milliseconds. -/
namespace P2PSync

open Transition

def pendingTTL : Nat := 30000

structure ServiceEntry where
  instanceName : String
  hostName : String
  port : Int
  addrIPv4 : List String
  addrIPv6 : List String
  deriving DecidableEq, Repr

structure LookedUp where
  text : String
  to4 : Option String
  deriving DecidableEq, Repr

namespace ServiceEntry

def named (id : String) (entry : ServiceEntry) : Bool := entry.instanceName == id

theorem ne_of_named {id : String} {entry : ServiceEntry} (other : entry.named id = false) :
    id ≠ entry.instanceName := by
  rintro rfl
  exact Bool.eq_false_iff.mp other (beq_self_eq_true _)

def looksUp (entry : ServiceEntry) : Bool :=
  entry.addrIPv4.isEmpty && entry.addrIPv6.isEmpty && entry.hostName != ""

def address (entry : ServiceEntry) (lookup : Option (List LookedUp)) : Option String :=
  match entry.addrIPv4, entry.addrIPv6 with
  | ip :: _, _ => some ip
  | [], ip :: _ => some ip
  | [], [] =>
    if entry.hostName != "" then
      match lookup with
      | none | some [] => none
      | some (ip :: ips) => some (((ip :: ips).findSome? LookedUp.to4).getD ip.text)
    else none

end ServiceEntry

structure HostLookup where
  entry : ServiceEntry
  answer : Option (List LookedUp)
  deriving DecidableEq, Repr

def HostLookup.named (id : String) (l : HostLookup) : Bool := l.entry.named id

structure PendingEntry where
  entry : ServiceEntry
  firstSeen : Nat
  retries : Nat
  deriving DecidableEq, Repr

namespace PendingEntry

def key (p : PendingEntry) : String := p.entry.instanceName

def fresh (now : Nat) (p : PendingEntry) : Bool := now - p.firstSeen ≤ pendingTTL

def bump (p : PendingEntry) : PendingEntry :=
  if p.retries < 3 then { p with retries := p.retries + 1 } else p

theorem entry_bump (p : PendingEntry) : p.bump.entry = p.entry := by
  unfold bump
  split <;> rfl

theorem key_bump (p : PendingEntry) : p.bump.key = p.key := by
  rw [key, entry_bump, key]

end PendingEntry

structure PendingTable where
  rows : List PendingEntry
  distinct : (rows.map PendingEntry.key).Nodup

namespace PendingTable

def has (t : PendingTable) (id : String) : Bool := t.rows.any (fun p => p.key == id)

theorem has_iff {t : PendingTable} {id : String} :
    t.has id = true ↔ id ∈ t.rows.map PendingEntry.key := by
  simp [has]

def put (t : PendingTable) (entry : ServiceEntry) (now : Nat) : PendingTable :=
  if known : t.has entry.instanceName = true then t
  else
    { rows := t.rows ++ [⟨entry, now, 0⟩]
      distinct := by
        rw [List.map_append, List.nodup_append]
        refine ⟨t.distinct, List.nodup_singleton _, ?_⟩
        rintro a before b after rfl
        cases List.mem_singleton.mp after
        exact known (has_iff.mpr before) }

def delete (t : PendingTable) (id : String) : PendingTable where
  rows := t.rows.filter (fun p => p.key != id)
  distinct := t.distinct.sublist (List.filter_sublist.map _)

def sweep (t : PendingTable) (now : Nat) : PendingTable where
  rows := (t.rows.filter (PendingEntry.fresh now)).map PendingEntry.bump
  distinct := by
    rw [List.map_map, show PendingEntry.key ∘ PendingEntry.bump = PendingEntry.key from
      funext PendingEntry.key_bump]
    exact t.distinct.sublist (List.filter_sublist.map _)

def retryEntries (t : PendingTable) (now : Nat) : List ServiceEntry :=
  (t.rows.filter (fun p => p.fresh now && p.retries < 3)).map PendingEntry.entry

def remaining (t : PendingTable) (id : String) : Nat :=
  (t.rows.map (fun p => if p.entry.named id then 3 - p.retries else 0)).sum

variable {t : PendingTable} {id : String} {now : Nat}

theorem has_iff_named : t.has id = true ↔ ∃ p ∈ t.rows, p.entry.named id = true := by
  rw [has, List.any_eq_true]
  rfl

theorem rows_put {entry : ServiceEntry} (absent : t.has entry.instanceName = false) :
    (t.put entry now).rows = t.rows ++ [⟨entry, now, 0⟩] := by
  rw [put, dif_neg (Bool.eq_false_iff.mp absent)]

theorem has_put {entry : ServiceEntry} (absent : t.has entry.instanceName = false) :
    (t.put entry now).has id = (t.has id || entry.named id) := by
  rw [has, rows_put absent, List.any_append]
  simp only [List.any_cons, List.any_nil, Bool.or_false]
  rfl

theorem has_delete_other {other : String} (ne : other ≠ id) :
    (t.delete id).has other = t.has other := by
  rw [Bool.eq_iff_iff, has_iff_named, has_iff_named]
  simp only [delete, List.mem_filter]
  constructor
  · rintro ⟨p, ⟨member, -⟩, own⟩
    exact ⟨p, member, own⟩
  · rintro ⟨p, member, own⟩
    refine ⟨p, ⟨member, ?_⟩, own⟩
    rw [bne_iff_ne, PendingEntry.key, beq_iff_eq.mp own]
    exact ne

theorem remaining_put {entry : ServiceEntry} (absent : t.has entry.instanceName = false) :
    (t.put entry now).remaining id = t.remaining id + if entry.named id then 3 else 0 := by
  rw [remaining, rows_put absent, List.map_append, List.sum_append]
  rfl

theorem remaining_delete {other : String} : (t.delete other).remaining id ≤ t.remaining id := by
  obtain ⟨rows, distinct⟩ := t
  simp only [delete, remaining]
  clear distinct
  induction rows with
  | nil => exact Nat.le_refl 0
  | cons p rows ih =>
    rw [List.filter_cons, List.map_cons, List.sum_cons]
    split
    · rw [List.map_cons, List.sum_cons]
      omega
    · omega

theorem remaining_sweep : (t.sweep now).remaining id +
    (t.retryEntries now).countP (ServiceEntry.named id) ≤ t.remaining id := by
  obtain ⟨rows, distinct⟩ := t
  simp only [sweep, remaining, retryEntries, List.countP_map]
  clear distinct
  induction rows with
  | nil => exact Nat.le_refl 0
  | cons p rows ih =>
    have bumped : p.bump.retries = if p.retries < 3 then p.retries + 1 else p.retries := by
      unfold PendingEntry.bump
      split <;> rfl
    simp only [List.filter_cons]
    cases p.fresh now with
    | false =>
      simp only [Bool.false_and, Bool.false_eq_true, if_false, List.map_cons, List.sum_cons]
      omega
    | true =>
      by_cases few : p.retries < 3
      · have spent : 3 - (p.retries + 1) + 1 = 3 - p.retries := by omega
        simp only [Bool.true_and, if_true, List.map_cons, List.sum_cons, PendingEntry.entry_bump,
          bumped, few, decide_true, List.countP_cons, Function.comp]
        split <;> omega
      · simp only [Bool.true_and, if_true, List.map_cons, List.sum_cons, PendingEntry.entry_bump,
          bumped, few, decide_false, Bool.false_eq_true, if_false]
        split <;> omega

theorem retryEntries_has (absent : (t.sweep now).has id = false) :
    (t.retryEntries now).countP (ServiceEntry.named id) = 0 := by
  rw [List.countP_eq_zero]
  intro entry taken own
  obtain ⟨p, member, rfl⟩ := List.mem_map.mp taken
  obtain ⟨member, fresh⟩ := List.mem_filter.mp member
  apply Bool.eq_false_iff.mp absent
  rw [has_iff, sweep, List.map_map]
  refine List.mem_map.mpr ⟨p, List.mem_filter.mpr ⟨member, (Bool.and_eq_true_iff.mp fresh).1⟩, ?_⟩
  exact (PendingEntry.key_bump p).trans (beq_iff_eq.mp own)

theorem mem_sweep (t : PendingTable) (now : Nat) (id : String)
    (member : id ∈ t.rows.map PendingEntry.key) : id ∈ (t.sweep now).rows.map PendingEntry.key ∨
      id ∈ (t.rows.filter (fun p => !p.fresh now)).map PendingEntry.key := by
  obtain ⟨p, row, rfl⟩ := List.mem_map.mp member
  cases fresh : p.fresh now with
  | true =>
    refine .inl (List.mem_map.mpr ⟨p.bump, List.mem_map_of_mem ?_, PendingEntry.key_bump p⟩)
    exact List.mem_filter.mpr ⟨row, fresh⟩
  | false =>
    refine .inr (List.mem_map_of_mem (List.mem_filter.mpr ⟨row, ?_⟩))
    rw [fresh]
    rfl

theorem retryEntries_once : (t.retryEntries now).countP (ServiceEntry.named id) ≤ 1 := by
  have distinct := (t.distinct.sublist (List.filter_sublist.map _) :
    ((t.rows.filter (fun p => p.fresh now && p.retries < 3)).map PendingEntry.key).Nodup)
  have once := List.nodup_iff_count_le_one.mp distinct id
  rw [List.count, List.countP_map] at once
  rw [retryEntries, List.countP_map]
  exact once

end PendingTable

structure Peer where
  id : String
  name : String
  address : String
  port : Int
  lastSeen : Nat
  deriving DecidableEq, Repr

structure Expiry where
  id : String
  firstSeen : Nat
  dropped : Nat
  deriving DecidableEq, Repr

structure PeerRegistry where
  peers : AList fun _ : String => Peer
  pending : PendingTable
  /-- The announcements whose call of resolveAndAdd is before its first lock, and those whose
  call is between the two. -/
  announcing : List ServiceEntry
  registering : List (ServiceEntry × String)
  /-- The entries that the retry loop still has to call for, and the one whose call is between
  the two locks. -/
  retrying : List ServiceEntry
  retryFound : Option (ServiceEntry × String)
  now : Nat
  /-- History: the announcements, the peers added by hand, the lookups of host names, the
  entries taken along by the retry loop, those that were put into the table, and those that
  were dropped from it. -/
  announced : List ServiceEntry
  manual : List (String × String × Int)
  lookups : List HostLookup
  retried : List ServiceEntry
  kept : List ServiceEntry
  expired : List Expiry

inductive DiscoveryEvent where
  | announce (entry : ServiceEntry)
  /-- The call at this place has its answer, and takes the first lock. -/
  | resolve (i : Nat) (lookup : Option (List LookedUp))
  | register (i : Nat)
  /-- retryPendingEntries, up to its calls, and the two halves of one of these. -/
  | sweep
  | retryResolve (lookup : Option (List LookedUp))
  | retryRegister
  | addManualPeer (id address : String) (port : Int)
  | wait (ms : Nat)
  deriving DecidableEq, Repr

namespace PeerRegistry

def new : PeerRegistry := ⟨∅, ⟨[], List.nodup_nil⟩, [], [], [], none, 0, [], [], [], [], [], []⟩

def asked (s : PeerRegistry) (entry : ServiceEntry) (lookup : Option (List LookedUp)) :
    List HostLookup :=
  if entry.looksUp then s.lookups ++ [⟨entry, lookup⟩] else s.lookups

def resolveEntry (s : PeerRegistry) (entry : ServiceEntry) (lookup : Option (List LookedUp)) :
    PeerRegistry × Option (ServiceEntry × String) :=
  match entry.address lookup with
  | none =>
    if s.pending.has entry.instanceName then ({ s with lookups := s.asked entry lookup }, none)
    else
      ({ s with
        lookups := s.asked entry lookup
        pending := s.pending.put entry s.now
        kept := s.kept ++ [entry] }, none)
  | some address =>
    ({ s with lookups := s.asked entry lookup, pending := s.pending.delete entry.instanceName },
      some (entry, address))

def addPeer (s : PeerRegistry) (id address : String) (port : Int) : PeerRegistry :=
  let peer : Peer := match s.peers.lookup id with
    | some existing => { existing with address := address, port := port, lastSeen := s.now }
    | none => ⟨id, id, address, port, s.now⟩
  { s with peers := s.peers.insert id peer }

def retryPendingEntries (s : PeerRegistry) : PeerRegistry :=
  let retryEntries := s.pending.retryEntries s.now
  { s with
    pending := s.pending.sweep s.now
    retrying := retryEntries
    retried := s.retried ++ retryEntries
    expired := s.expired ++ (s.pending.rows.filter (fun p => !p.fresh s.now)).map
      (fun p => ⟨p.key, p.firstSeen, s.now⟩) }

def next (s : PeerRegistry) : DiscoveryEvent → Option PeerRegistry
  | .announce entry =>
    some { s with announcing := s.announcing ++ [entry], announced := s.announced ++ [entry] }
  | .resolve i lookup =>
    s.announcing[i]?.map fun entry =>
      let (s, found) := { s with announcing := s.announcing.eraseIdx i }.resolveEntry entry lookup
      { s with registering := s.registering ++ found.toList }
  | .register i =>
    s.registering[i]?.map fun (entry, address) =>
      { s with registering := s.registering.eraseIdx i }.addPeer entry.instanceName address
        entry.port
  | .sweep =>
    if s.retrying = [] ∧ s.retryFound = none then some s.retryPendingEntries else none
  | .retryResolve lookup =>
    match s.retrying, s.retryFound with
    | entry :: rest, none =>
      let (s, found) := { s with retrying := rest }.resolveEntry entry lookup
      some { s with retryFound := found }
    | _, _ => none
  | .retryRegister =>
    s.retryFound.map fun (entry, address) =>
      { s with retryFound := none }.addPeer entry.instanceName address entry.port
  | .addManualPeer id address port =>
    some ({ s with manual := s.manual ++ [(id, address, port)] }.addPeer id address port)
  | .wait ms => some { s with now := s.now + ms }

def Initial (s : PeerRegistry) : Prop := s = new

theorem new_initial : new.Initial := rfl

inductive Resolved (s : PeerRegistry) (entry : ServiceEntry) (lookup : Option (List LookedUp)) :
    PeerRegistry → Option (ServiceEntry × String) → Prop where
  | known (known : s.pending.has entry.instanceName = true) :
      Resolved s entry lookup { s with lookups := s.asked entry lookup } none
  | kept (absent : s.pending.has entry.instanceName = false) :
      Resolved s entry lookup
        { s with
          lookups := s.asked entry lookup
          pending := s.pending.put entry s.now
          kept := s.kept ++ [entry] } none
  | found {address : String} (found : entry.address lookup = some address) :
      Resolved s entry lookup
        { s with lookups := s.asked entry lookup, pending := s.pending.delete entry.instanceName }
        (some (entry, address))

inductive Moved (s : PeerRegistry) : DiscoveryEvent → PeerRegistry → Prop where
  | announce (entry : ServiceEntry) : Moved s (.announce entry)
      { s with announcing := s.announcing ++ [entry], announced := s.announced ++ [entry] }
  | resolve {i : Nat} {entry : ServiceEntry} (at_ : s.announcing[i]? = some entry)
      (lookup : Option (List LookedUp)) {u : PeerRegistry} {found : Option (ServiceEntry × String)}
      (resolved : Resolved { s with announcing := s.announcing.eraseIdx i } entry lookup u found) :
      Moved s (.resolve i lookup) { u with registering := u.registering ++ found.toList }
  | register {i : Nat} {entry : ServiceEntry} {address : String}
      (at_ : s.registering[i]? = some (entry, address)) : Moved s (.register i)
      ({ s with registering := s.registering.eraseIdx i }.addPeer entry.instanceName address
        entry.port)
  | sweep (idle : s.retrying = []) (none : s.retryFound = none) :
      Moved s .sweep s.retryPendingEntries
  | retryResolve {entry : ServiceEntry} {rest : List ServiceEntry}
      (first : s.retrying = entry :: rest) (none : s.retryFound = none)
      (lookup : Option (List LookedUp)) {u : PeerRegistry} {found : Option (ServiceEntry × String)}
      (resolved : Resolved { s with retrying := rest } entry lookup u found) :
      Moved s (.retryResolve lookup) { u with retryFound := found }
  | retryRegister {entry : ServiceEntry} {address : String}
      (some_ : s.retryFound = some (entry, address)) : Moved s .retryRegister
      ({ s with retryFound := none }.addPeer entry.instanceName address entry.port)
  | addManualPeer (id address : String) (port : Int) : Moved s (.addManualPeer id address port)
      ({ s with manual := s.manual ++ [(id, address, port)] }.addPeer id address port)
  | wait (ms : Nat) : Moved s (.wait ms) { s with now := s.now + ms }

variable {s s' : PeerRegistry} {event : DiscoveryEvent}

theorem resolved_resolveEntry (entry : ServiceEntry) (lookup : Option (List LookedUp)) :
    s.Resolved entry lookup (s.resolveEntry entry lookup).1 (s.resolveEntry entry lookup).2 := by
  unfold resolveEntry
  split
  · split
    · exact .known ‹_›
    · exact .kept (Bool.eq_false_iff.mpr ‹_›)
  · exact .found ‹_›

theorem moved_of_next (moved : s.next event = some s') : Moved s event s' := by
  cases event with
  | announce entry =>
    cases moved
    exact .announce entry
  | resolve i lookup =>
    obtain ⟨entry, at_, rfl⟩ := Option.map_eq_some_iff.mp moved
    exact .resolve at_ lookup (resolved_resolveEntry entry lookup)
  | register i =>
    obtain ⟨⟨entry, address⟩, at_, rfl⟩ := Option.map_eq_some_iff.mp moved
    exact .register at_
  | sweep =>
    simp only [next] at moved
    split at moved
    · rename_i idle
      cases moved
      exact .sweep idle.1 idle.2
    · cases moved
  | retryResolve lookup =>
    simp only [next] at moved
    split at moved
    · cases moved
      exact .retryResolve ‹_› ‹_› lookup (resolved_resolveEntry _ lookup)
    · cases moved
  | retryRegister =>
    obtain ⟨⟨entry, address⟩, some_, rfl⟩ := Option.map_eq_some_iff.mp moved
    exact .retryRegister some_
  | addManualPeer id address port =>
    cases moved
    exact .addManualPeer id address port
  | wait ms =>
    cases moved
    exact .wait ms

/-- Each lookup is paid for by an announcement or a retry, three retries by an entry that was
put into the table, and such an entry by an announcement: by the one that failed, or by one
that succeeded while a retry was under way. The calls that have not come to their first lock
are counted apart. -/
structure Ledger (id : String) (announcing retrying : Nat) (s : PeerRegistry) : Prop where
  lookups : s.lookups.countP (HostLookup.named id) + announcing + retrying ≤
    s.announced.countP (ServiceEntry.named id) + s.retried.countP (ServiceEntry.named id)
  retries : s.retried.countP (ServiceEntry.named id) + s.pending.remaining id ≤
    3 * s.kept.countP (ServiceEntry.named id)
  kept : s.kept.countP (ServiceEntry.named id) + announcing +
    (if s.pending.has id then 0 else retrying) ≤ s.announced.countP (ServiceEntry.named id)
  once : retrying ≤ 1

def Budget (id : String) (s : PeerRegistry) : Prop :=
  s.Ledger id (s.announcing.countP (ServiceEntry.named id))
    (s.retrying.countP (ServiceEntry.named id))

section

variable {id : String} {announcing retrying announcing' retrying' : Nat} {entry : ServiceEntry}
  {lookup : Option (List LookedUp)} {u : PeerRegistry} {found : Option (ServiceEntry × String)}

theorem Resolved.ledger (resolved : s.Resolved entry lookup u found)
    (ledger : s.Ledger id announcing retrying)
    (taken : announcing' + retrying' + (if entry.named id then 1 else 0) = announcing + retrying)
    (le : announcing' ≤ announcing ∧ retrying' ≤ retrying) : u.Ledger id announcing' retrying' := by
  obtain ⟨lookups, retries, kept, once⟩ := ledger
  have asked : (s.asked entry lookup).countP (HostLookup.named id) ≤
      s.lookups.countP (HostLookup.named id) + if entry.named id then 1 else 0 := by
    unfold PeerRegistry.asked
    split
    · rw [List.countP_append, List.countP_singleton, HostLookup.named]
    · omega
  have lookups' : (s.asked entry lookup).countP (HostLookup.named id) + announcing' + retrying' ≤
      s.announced.countP (ServiceEntry.named id) + s.retried.countP (ServiceEntry.named id) := by
    omega
  have once' : retrying' ≤ 1 := le.2.trans once
  have less : announcing' + (if s.pending.has id then 0 else retrying') ≤
      announcing + if s.pending.has id then 0 else retrying := by
    split <;> omega
  cases resolved with
  | known =>
    refine ⟨lookups', retries, ?_, once'⟩
    simp only
    omega
  | kept absent =>
    refine ⟨lookups', ?_, ?_, once'⟩
    · simp only [PendingTable.remaining_put absent, List.countP_append, List.countP_singleton]
      split <;> omega
    · simp only [PendingTable.has_put absent, List.countP_append, List.countP_singleton]
      cases own : entry.named id with
      | false =>
        simp only [Bool.or_false, Bool.false_eq_true, if_false]
        omega
      | true =>
        obtain rfl : entry.instanceName = id := beq_iff_eq.mp own
        simp only [own, absent, Bool.or_true, if_true, Bool.false_eq_true, if_false] at taken kept ⊢
        omega
  | found =>
    refine ⟨lookups', ?_, ?_, once'⟩
    · exact (Nat.add_le_add_left PendingTable.remaining_delete _).trans retries
    · simp only
      cases own : entry.named id with
      | false =>
        rw [PendingTable.has_delete_other (ServiceEntry.ne_of_named own)]
        omega
      | true =>
        -- The retry that may be under way is the only one, and an announcement is used up.
        have owed : (if (s.pending.delete entry.instanceName).has id then 0 else retrying') ≤
            retrying' := by
          split <;> omega
        simp only [own, if_true] at taken
        omega

theorem budget_sweep (budget : s.Budget id) (idle : s.retrying = []) :
    s.retryPendingEntries.Budget id := by
  obtain ⟨lookups, retries, kept, -⟩ := budget
  have spent : (s.pending.sweep s.now).remaining id +
      (s.pending.retryEntries s.now).countP (ServiceEntry.named id) ≤ s.pending.remaining id :=
    PendingTable.remaining_sweep
  have owed : (if (s.pending.sweep s.now).has id then 0
      else (s.pending.retryEntries s.now).countP (ServiceEntry.named id)) = 0 := by
    split
    · rfl
    · exact PendingTable.retryEntries_has (Bool.eq_false_iff.mpr ‹_›)
  have kept' : s.kept.countP (ServiceEntry.named id) + s.announcing.countP (ServiceEntry.named id) +
      (if (s.pending.sweep s.now).has id then 0
        else (s.pending.retryEntries s.now).countP (ServiceEntry.named id)) ≤
      s.announced.countP (ServiceEntry.named id) := by
    omega
  rw [idle] at lookups
  refine ⟨?_, ?_, kept', PendingTable.retryEntries_once⟩
  · simp only [retryPendingEntries, List.countP_append, List.countP_nil] at lookups ⊢
    omega
  · simp only [retryPendingEntries, List.countP_append]
    omega

theorem budget_next (budget : s.Budget id) (moved : s.next event = some s') : s'.Budget id := by
  have ledger : s.Ledger id _ _ := budget
  cases moved_of_next moved with
  | announce entry =>
    refine ⟨?_, ledger.retries, ?_, ledger.once⟩
    · have lookups := ledger.lookups
      simp only [List.countP_append]
      omega
    · have kept := ledger.kept
      simp only [List.countP_append]
      omega
  | @resolve i entry at_ lookup u found resolved =>
    have calls := (perm_at at_).countP_eq (ServiceEntry.named id)
    rw [List.countP_cons] at calls
    have paid := resolved.ledger ⟨ledger.lookups, ledger.retries, ledger.kept, ledger.once⟩
      (by rw [calls]; omega : (s.announcing.eraseIdx i).countP (ServiceEntry.named id) +
        s.retrying.countP (ServiceEntry.named id) + _ = _) ⟨by omega, Nat.le_refl _⟩
    cases resolved <;> exact ⟨paid.lookups, paid.retries, paid.kept, paid.once⟩
  | register at_ => exact ⟨ledger.lookups, ledger.retries, ledger.kept, ledger.once⟩
  | sweep idle none => exact budget_sweep budget idle
  | @retryResolve entry rest first none lookup u found resolved =>
    have calls := congrArg (List.countP (ServiceEntry.named id)) first
    rw [List.countP_cons] at calls
    have paid := resolved.ledger ⟨ledger.lookups, ledger.retries, ledger.kept, ledger.once⟩
      (by rw [calls]; omega : s.announcing.countP (ServiceEntry.named id) +
        rest.countP (ServiceEntry.named id) + _ = _) ⟨Nat.le_refl _, by omega⟩
    cases resolved <;> exact ⟨paid.lookups, paid.retries, paid.kept, paid.once⟩
  | retryRegister some_ => exact ⟨ledger.lookups, ledger.retries, ledger.kept, ledger.once⟩
  | addManualPeer id' address port =>
    exact ⟨ledger.lookups, ledger.retries, ledger.kept, ledger.once⟩
  | wait ms => exact ⟨ledger.lookups, ledger.retries, ledger.kept, ledger.once⟩

theorem budget_reach (reached : Reach Initial (Runs next) s) (id : String) : s.Budget id := by
  refine reach_invariant (Budget id) ?_ ?_ reached
  · rintro s rfl
    exact ⟨Nat.le_refl 0, Nat.le_refl 0, Nat.le_refl 0, Nat.zero_le 1⟩
  · intro s event s' budget moved
    exact budget_next budget moved

def Answered (s : PeerRegistry) (call : ServiceEntry × String) : Prop :=
  call.1 ∈ s.announced ∧ ∃ lookup, (call.1.looksUp = true → ⟨call.1, lookup⟩ ∈ s.lookups) ∧
    call.1.address lookup = some call.2

def Placed (s : PeerRegistry) (id address : String) (port : Int) : Prop :=
  (∃ entry, s.Answered (entry, address) ∧ entry.instanceName = id ∧ entry.port = port) ∨
    (id, address, port) ∈ s.manual

structure Sourced (s : PeerRegistry) : Prop where
  announcing : ∀ entry ∈ s.announcing, entry ∈ s.announced
  retrying : ∀ entry ∈ s.retrying, entry ∈ s.announced
  pending : ∀ p ∈ s.pending.rows, p.entry ∈ s.announced
  registering : ∀ call ∈ s.registering, s.Answered call
  retryFound : ∀ call ∈ s.retryFound, s.Answered call
  peers : ∀ id peer, s.peers.lookup id = some peer →
    peer.id = id ∧ peer.name = id ∧ s.Placed id peer.address peer.port
  expired : ∀ x ∈ s.expired, x.firstSeen + pendingTTL < x.dropped

structure Grows (s s' : PeerRegistry) : Prop where
  announced : s.announced ⊆ s'.announced
  lookups : s.lookups ⊆ s'.lookups
  manual : s.manual ⊆ s'.manual

theorem Answered.mono (grows : s.Grows s') {call : ServiceEntry × String}
    (answered : s.Answered call) : s'.Answered call := by
  obtain ⟨announced, lookup, asked, found⟩ := answered
  exact ⟨grows.announced announced, lookup, fun looked => grows.lookups (asked looked), found⟩

theorem Placed.mono (grows : s.Grows s') {id address : String} {port : Int}
    (placed : s.Placed id address port) : s'.Placed id address port := by
  rcases placed with ⟨entry, answered, own⟩ | given
  · exact .inl ⟨entry, answered.mono grows, own⟩
  · exact .inr (grows.manual given)

theorem Sourced.grow (sourced : s.Sourced) (grows : s.Grows s')
    (announcing : ∀ entry ∈ s'.announcing, entry ∈ s'.announced)
    (retrying : ∀ entry ∈ s'.retrying, entry ∈ s'.announced)
    (pending : ∀ p ∈ s'.pending.rows, p.entry ∈ s'.announced)
    (registering : s'.registering ⊆ s.registering)
    (retryFound : ∀ call ∈ s'.retryFound, call ∈ s.retryFound) (peers : s'.peers = s.peers)
    (expired : s'.expired = s.expired) : s'.Sourced := by
  refine ⟨announcing, retrying, pending,
    fun call member => (sourced.registering call (registering member)).mono grows,
    fun call member => (sourced.retryFound call (retryFound call member)).mono grows, ?_,
    expired ▸ sourced.expired⟩
  intro id peer found
  obtain ⟨own, name, placed⟩ := sourced.peers id peer (peers ▸ found)
  exact ⟨own, name, placed.mono grows⟩

theorem sourced_addPeer (sourced : s.Sourced) {id address : String} {port : Int}
    (placed : s.Placed id address port) : (s.addPeer id address port).Sourced := by
  refine ⟨sourced.announcing, sourced.retrying, sourced.pending, sourced.registering,
    sourced.retryFound, ?_, sourced.expired⟩
  intro other peer found
  simp only [addPeer] at found
  rcases eq_or_ne other id with rfl | ne
  · rw [AList.lookup_insert] at found
    cases found
    split
    · rename_i existing known
      exact ⟨(sourced.peers _ _ known).1, (sourced.peers _ _ known).2.1, placed⟩
    · exact ⟨rfl, rfl, placed⟩
  · rw [AList.lookup_insert_ne ne] at found
    exact sourced.peers other peer found

theorem subset_asked (entry : ServiceEntry) (lookup : Option (List LookedUp)) :
    s.lookups ⊆ s.asked entry lookup := by
  unfold asked
  split
  · exact List.subset_append_left _ _
  · exact List.Subset.refl _

theorem mem_asked (looked : entry.looksUp = true) (lookup : Option (List LookedUp)) :
    ⟨entry, lookup⟩ ∈ s.asked entry lookup := by
  rw [asked, if_pos looked]
  exact List.mem_append_right _ (List.mem_singleton_self _)

theorem Resolved.sourced (resolved : s.Resolved entry lookup u found) (sourced : s.Sourced)
    (announced : entry ∈ s.announced) : u.Sourced ∧ ∀ call ∈ found, u.Answered call := by
  have grows {pending : PendingTable} {kept : List ServiceEntry} : s.Grows { s with
      lookups := s.asked entry lookup, pending := pending, kept := kept } :=
    ⟨List.Subset.refl _, subset_asked entry lookup, List.Subset.refl _⟩
  cases resolved with
  | known =>
    refine ⟨?_, fun call none => by cases none⟩
    exact sourced.grow grows sourced.announcing sourced.retrying sourced.pending
      (List.Subset.refl _) (fun _ => id) rfl rfl
  | kept absent =>
    refine ⟨?_, fun call none => by cases none⟩
    refine sourced.grow grows sourced.announcing sourced.retrying ?_
      (List.Subset.refl _) (fun _ => id) rfl rfl
    intro p member
    simp only [PendingTable.rows_put absent, List.mem_append, List.mem_singleton] at member
    rcases member with old | rfl
    · exact sourced.pending p old
    · exact announced
  | found address =>
    constructor
    · refine sourced.grow grows sourced.announcing sourced.retrying ?_
        (List.Subset.refl _) (fun _ => id) rfl rfl
      intro p member
      exact sourced.pending p (List.mem_of_mem_filter member)
    · intro call same
      cases same
      exact ⟨announced, lookup, fun looked => mem_asked looked lookup, address⟩

theorem sourced_sweep (sourced : s.Sourced) : s.retryPendingEntries.Sourced := by
  refine ⟨sourced.announcing, ?_, ?_, sourced.registering, sourced.retryFound, sourced.peers, ?_⟩
  · intro entry taken
    obtain ⟨p, member, rfl⟩ := List.mem_map.mp taken
    exact sourced.pending p (List.mem_of_mem_filter member)
  · intro p member
    obtain ⟨q, before, rfl⟩ := List.mem_map.mp member
    rw [PendingEntry.entry_bump]
    exact sourced.pending q (List.mem_of_mem_filter before)
  · intro x member
    rcases List.mem_append.mp member with old | new
    · exact sourced.expired x old
    · obtain ⟨p, before, rfl⟩ := List.mem_map.mp new
      have late := (List.mem_filter.mp before).2
      simp only [PendingEntry.fresh, Bool.not_eq_true', decide_eq_false_iff_not] at late
      simp only
      omega

theorem Grows.refl (s : PeerRegistry) : s.Grows s :=
  ⟨List.Subset.refl _, List.Subset.refl _, List.Subset.refl _⟩

theorem sourced_next (sourced : s.Sourced) (moved : s.next event = some s') : s'.Sourced := by
  have grows := Grows.refl s
  cases moved_of_next moved with
  | announce entry =>
    have more : s.announced ⊆ s.announced ++ [entry] := List.subset_append_left _ _
    refine sourced.grow ⟨more, List.Subset.refl _, List.Subset.refl _⟩ ?_
      (fun e member => more (sourced.retrying e member))
      (fun p member => more (sourced.pending p member)) (List.Subset.refl _) (fun _ => id) rfl rfl
    intro e member
    rcases List.mem_append.mp member with old | new
    · exact more (sourced.announcing e old)
    · exact List.mem_append_right _ new
  | @resolve i entry at_ lookup u found resolved =>
    have before : { s with announcing := s.announcing.eraseIdx i : PeerRegistry }.Sourced :=
      sourced.grow ⟨grows.announced, grows.lookups, grows.manual⟩
        (fun e member => sourced.announcing e (List.mem_of_mem_eraseIdx member)) sourced.retrying
        sourced.pending (List.Subset.refl _) (fun _ => id) rfl rfl
    obtain ⟨after, answered⟩ := resolved.sourced before
      (sourced.announcing entry (List.mem_of_getElem? at_))
    refine ⟨after.announcing, after.retrying, after.pending, ?_, after.retryFound, after.peers,
      after.expired⟩
    intro call member
    rcases List.mem_append.mp member with old | new
    · exact after.registering call old
    · exact answered call (Option.mem_toList.mp new)
  | @register i entry address at_ =>
    have member := List.mem_of_getElem? at_
    have before : { s with registering := s.registering.eraseIdx i : PeerRegistry }.Sourced :=
      sourced.grow ⟨grows.announced, grows.lookups, grows.manual⟩ sourced.announcing
        sourced.retrying sourced.pending (fun _ => List.mem_of_mem_eraseIdx) (fun _ => id) rfl rfl
    exact sourced_addPeer before (.inl ⟨entry, sourced.registering _ member, rfl, rfl⟩)
  | sweep idle none => exact sourced_sweep sourced
  | @retryResolve entry rest first none lookup u found resolved =>
    have before : { s with retrying := rest : PeerRegistry }.Sourced :=
      sourced.grow ⟨grows.announced, grows.lookups, grows.manual⟩ sourced.announcing
        (fun e member => sourced.retrying e (first ▸ List.mem_cons_of_mem _ member))
        sourced.pending (List.Subset.refl _) (fun _ => id) rfl rfl
    obtain ⟨after, answered⟩ := resolved.sourced before
      (sourced.retrying entry (first ▸ List.mem_cons_self))
    exact ⟨after.announcing, after.retrying, after.pending, after.registering, answered,
      after.peers, after.expired⟩
  | @retryRegister entry address some_ =>
    have before : { s with retryFound := none : PeerRegistry }.Sourced :=
      sourced.grow ⟨grows.announced, grows.lookups, grows.manual⟩ sourced.announcing
        sourced.retrying sourced.pending (List.Subset.refl _) (fun call none => by cases none)
        rfl rfl
    exact sourced_addPeer before (.inl ⟨entry, sourced.retryFound _ some_, rfl, rfl⟩)
  | addManualPeer id address port =>
    have before : { s with manual := s.manual ++ [(id, address, port)] : PeerRegistry }.Sourced :=
      sourced.grow ⟨grows.announced, grows.lookups, List.subset_append_left _ _⟩
        sourced.announcing sourced.retrying sourced.pending (List.Subset.refl _)
        (fun _ found => found) rfl rfl
    exact sourced_addPeer before (.inr (List.mem_append_right _ (List.mem_singleton_self _)))
  | wait ms =>
    exact sourced.grow ⟨grows.announced, grows.lookups, grows.manual⟩ sourced.announcing
      sourced.retrying sourced.pending (List.Subset.refl _) (fun _ => id) rfl rfl

theorem sourced_reach (reached : Reach Initial (Runs next) s) : s.Sourced := by
  refine reach_invariant Sourced ?_ ?_ reached
  · rintro s rfl
    refine ⟨?_, ?_, ?_, ?_, ?_, ?_, ?_⟩
    all_goals simp [new]
  · intro s event s' sourced moved
    exact sourced_next sourced moved

def places (s : PeerRegistry) : List String :=
  s.peers.keys ++ s.pending.rows.map PendingEntry.key ++
    s.announcing.map ServiceEntry.instanceName ++ s.registering.map (·.1.instanceName) ++
    s.retryFound.toList.map (·.1.instanceName) ++ s.expired.map Expiry.id

theorem places_addPeer (other address : String) (port : Int) :
    id ∈ (s.addPeer other address port).places ↔ id = other ∨ id ∈ s.places := by
  simp only [places, addPeer, List.mem_append, ← AList.mem_keys, AList.mem_insert, or_assoc]

theorem Resolved.places (resolved : s.Resolved entry lookup u found) {id : String}
    (known : id = entry.instanceName ∨ id ∈ s.places) :
    id ∈ found.toList.map (·.1.instanceName) ∨ id ∈ u.places := by
  cases resolved with
  | known present =>
    refine .inr ?_
    rcases known with rfl | known
    · have waits := PendingTable.has_iff.mp present
      simp only [PeerRegistry.places, List.mem_append, waits, true_or, or_true]
    · exact known
  | kept absent =>
    refine .inr ?_
    simp only [PeerRegistry.places, PendingTable.rows_put absent, List.map_append, List.mem_append,
      List.map_singleton, List.mem_singleton] at known ⊢
    rcases known with rfl | known
    · simp only [PendingEntry.key, true_or, or_true]
    · grind
  | found address =>
    rcases eq_or_ne id entry.instanceName with rfl | ne
    · exact .inl (List.mem_singleton_self _)
    · refine .inr ?_
      have stays := PendingTable.has_delete_other (t := s.pending) ne
      rw [Bool.eq_iff_iff, PendingTable.has_iff, PendingTable.has_iff] at stays
      simp only [PeerRegistry.places, List.mem_append, ne, false_or, stays] at known ⊢
      exact known

theorem places_next (known : id ∈ s.places) (moved : s.next event = some s') : id ∈ s'.places := by
  cases moved_of_next moved with
  | announce entry =>
    simp only [places, List.mem_append, List.map_append] at known ⊢
    grind
  | @resolve i entry at_ lookup u found resolved =>
    have taken := ((perm_at at_).map ServiceEntry.instanceName).mem_iff (a := id)
    have before : id = entry.instanceName ∨
        id ∈ { s with announcing := s.announcing.eraseIdx i : PeerRegistry }.places := by
      simp only [places, List.mem_append, taken, List.map_cons, List.mem_cons] at known ⊢
      grind
    have after := resolved.places before
    simp only [places, List.mem_append, List.map_append] at after ⊢
    grind
  | @register i entry address at_ =>
    have taken := ((perm_at at_).map (·.1.instanceName)).mem_iff (a := id)
    rw [places_addPeer]
    simp only [places, List.mem_append, taken, List.map_cons, List.mem_cons] at known ⊢
    grind
  | sweep idle none =>
    have kept := PendingTable.mem_sweep s.pending s.now id
    simp only [places, List.mem_append, retryPendingEntries, List.map_append, List.map_map] at known ⊢
    grind
  | @retryResolve entry rest first none lookup u found resolved =>
    have after := resolved.places (.inr known)
    have idle : u.retryFound = .none := by
      cases resolved <;> exact none
    simp only [places, List.mem_append, idle, Option.toList_none, List.map_nil, List.not_mem_nil,
      or_false] at after ⊢
    grind
  | @retryRegister entry address some_ =>
    rw [places_addPeer]
    simp only [places, List.mem_append, some_, Option.toList_some, List.map_singleton,
      List.mem_singleton, Option.toList_none, List.map_nil, List.not_mem_nil] at known ⊢
    grind
  | addManualPeer other address port => exact (places_addPeer other address port).mpr (.inr known)
  | wait ms => exact known

end

theorem places_reach (reached : Reach Initial (Runs next) s) :
    ∀ entry ∈ s.announced, entry.instanceName ∈ s.places := by
  refine reach_invariant
    (fun s => ∀ entry ∈ s.announced, entry.instanceName ∈ s.places) ?_ ?_ reached
  · rintro s rfl entry none
    cases none
  · intro s event s' known moved entry announced
    by_cases old : entry ∈ s.announced
    · exact places_next (known entry old) moved
    · cases moved_of_next moved with
      | announce new =>
        obtain rfl : entry = new := by simpa [old] using announced
        simp [places]
      | resolve at_ lookup resolved => cases resolved <;> exact absurd announced old
      | retryResolve first none lookup resolved => cases resolved <;> exact absurd announced old
      | register | sweep | retryRegister | addManualPeer | wait => exact absurd announced old

def Settled (s : PeerRegistry) (id : String) : Prop :=
  id ∉ s.announcing.map ServiceEntry.instanceName ∧ id ∉ s.registering.map (·.1.instanceName) ∧
    id ∉ s.retryFound.toList.map (·.1.instanceName)

instance (s : PeerRegistry) (id : String) : Decidable (s.Settled id) :=
  inferInstanceAs (Decidable (_ ∧ _ ∧ _))

end PeerRegistry

structure PeerInfo where
  id : String
  name : String
  address : String
  port : Int
  connected : Bool
  deriving DecidableEq, Repr

def sendPeerList (registry : PeerRegistry) (localPeerID : String) (isConnected : String → Bool) :
    List PeerInfo :=
  (registry.peers.entries.filter (fun e => e.2.id != localPeerID)).map
    (fun e => ⟨e.2.id, e.2.name, e.2.address, e.2.port, isConnected e.2.id⟩)

namespace PeerRegistry

variable {s s' : PeerRegistry} {event : DiscoveryEvent}

theorem lookup_of_entry {e : Sigma fun _ : String => Peer} (member : e ∈ s.peers.entries) :
    s.peers.lookup e.1 = some e.2 :=
  AList.mem_lookup_iff.mpr member

theorem sendPeerList_ids (sourced : s.Sourced) (localPeerID : String)
    (isConnected : String → Bool) : (sendPeerList s localPeerID isConnected).map PeerInfo.id =
      s.peers.keys.filter (· != localPeerID) := by
  have own : ∀ e ∈ s.peers.entries, e.2.id = e.1 := fun e member =>
    (sourced.peers e.1 e.2 (lookup_of_entry member)).1
  have filtered : s.peers.entries.filter (fun e => e.2.id != localPeerID) =
      s.peers.entries.filter (fun e => e.1 != localPeerID) :=
    List.filter_congr fun e member => by rw [own e member]
  rw [sendPeerList, filtered, List.map_map, AList.keys, List.keys, List.filter_map]
  exact List.map_congr_left fun e member => own e (List.mem_of_mem_filter member)

theorem mem_peers_next {id : String} (member : id ∈ s.peers) (moved : s.next event = some s') :
    id ∈ s'.peers := by
  cases moved_of_next moved with
  | resolve at_ lookup resolved | retryResolve first none lookup resolved =>
    cases resolved <;> exact member
  | register | retryRegister | addManualPeer => exact (AList.mem_insert _).mpr (.inr member)
  | announce | sweep | wait => exact member

end PeerRegistry

section Results

variable {s : PeerRegistry}

/-- A host name is looked up at most four times for each announcement of its instance: once
for the announcement, and three times for an entry that it puts into the table. -/
theorem discovery_lookups_bounded (reached : Reach PeerRegistry.Initial (Runs PeerRegistry.next) s)
    (id : String) : s.lookups.countP (HostLookup.named id) ≤
      s.announced.countP (ServiceEntry.named id) + s.retried.countP (ServiceEntry.named id) ∧
    s.retried.countP (ServiceEntry.named id) ≤ 3 * s.kept.countP (ServiceEntry.named id) ∧
    s.kept.countP (ServiceEntry.named id) ≤ s.announced.countP (ServiceEntry.named id) ∧
    s.lookups.countP (HostLookup.named id) ≤ 4 * s.announced.countP (ServiceEntry.named id) := by
  obtain ⟨lookups, retries, kept, -⟩ := PeerRegistry.budget_reach reached id
  omega

def unknownHost : ServiceEntry := ⟨"b", "b.local", 9876, [], []⟩

theorem discovery_lookups_bounded_unknownHost : ∃ s : PeerRegistry,
    s.lookups.countP (HostLookup.named "b") = 4 ∧
      4 ≤ 4 * s.announced.countP (ServiceEntry.named "b") := by
  obtain ⟨s, reached, four⟩ := reach_of_replay PeerRegistry.next (fun _ _ => True)
    (.start PeerRegistry.new_initial)
    [.announce unknownHost, .resolve 0 none, .sweep, .retryResolve none, .wait 5000, .sweep,
      .retryResolve (some []), .wait 5000, .sweep, .retryResolve none, .wait 5000, .sweep]
    (fun s => s.lookups.countP (HostLookup.named "b") = 4) (by decide +kernel)
  have bounded := discovery_lookups_bounded
    (reach_mono (fun _ _ _ step => step.1) reached) "b"
  exact ⟨s, four, four ▸ bounded.2.2.2⟩

/-- An announced peer is in the list for the daemon once and for all, unless its address is
still looked for or was not found in time; and what the list says of a peer was announced or
given by hand. -/
theorem announced_peer_listed (reached : Reach PeerRegistry.Initial (Runs PeerRegistry.next) s)
    (localPeerID : String) (isConnected : String → Bool) :
    (∀ entry ∈ s.announced, entry.instanceName ≠ localPeerID → s.Settled entry.instanceName →
      (∀ events t, Path (Runs PeerRegistry.next) s events t →
        ((sendPeerList t localPeerID isConnected).map PeerInfo.id).count entry.instanceName = 1) ∨
      s.pending.has entry.instanceName = true ∨
      ∃ x ∈ s.expired, x.id = entry.instanceName ∧ x.firstSeen + pendingTTL < x.dropped) ∧
    ∀ info ∈ sendPeerList s localPeerID isConnected, info.id ≠ localPeerID ∧
      info.name = info.id ∧ info.connected = isConnected info.id ∧
      s.Placed info.id info.address info.port := by
  have sourced := PeerRegistry.sourced_reach reached
  constructor
  · rintro entry announced remote ⟨announcing, registering, retrying⟩
    have known := PeerRegistry.places_reach reached entry announced
    simp only [PeerRegistry.places, List.mem_append, announcing, registering, retrying, or_false]
      at known
    rcases known with (member | waits) | dropped
    · refine .inl fun events t path => ?_
      have member' : entry.instanceName ∈ t.peers := path.invariant
        (fun _ _ _ member moved => PeerRegistry.mem_peers_next member moved)
        (AList.mem_keys.mpr member)
      rw [PeerRegistry.sendPeerList_ids (PeerRegistry.sourced_reach (path.reach reached))]
      refine List.count_eq_one_of_mem (t.peers.keys_nodup.filter _) ?_
      exact List.mem_filter.mpr ⟨AList.mem_keys.mp member', bne_iff_ne.mpr remote⟩
    · exact .inr (.inl (PendingTable.has_iff.mpr waits))
    · obtain ⟨x, member, own⟩ := List.mem_map.mp dropped
      exact .inr (.inr ⟨x, member, own, sourced.expired x member⟩)
  · intro info member
    obtain ⟨e, listed, rfl⟩ := List.mem_map.mp member
    obtain ⟨entry, remote⟩ := List.mem_filter.mp listed
    obtain ⟨own, name, placed⟩ := sourced.peers e.1 e.2 (PeerRegistry.lookup_of_entry entry)
    exact ⟨bne_iff_ne.mp remote, name.trans own.symm, rfl, own.symm ▸ placed⟩

theorem announced_peer_listed_unknownHost : ∃ s : PeerRegistry,
    sendPeerList s "a" (fun _ => false) = [⟨"b", "b", "10.0.0.2", 9876, false⟩] ∧
      s.Placed "b" "10.0.0.2" 9876 := by
  obtain ⟨s, reached, listed⟩ := reach_of_replay PeerRegistry.next (fun _ _ => True)
    (.start PeerRegistry.new_initial)
    [.announce unknownHost, .resolve 0 none, .wait 5000, .sweep,
      .retryResolve (some [⟨"fe80::2", none⟩, ⟨"::ffff:10.0.0.2", some "10.0.0.2"⟩]), .retryRegister]
    (fun s => sendPeerList s "a" (fun _ => false) = [⟨"b", "b", "10.0.0.2", 9876, false⟩])
    (by decide +kernel)
  refine ⟨s, listed, ?_⟩
  have placed := (announced_peer_listed (reach_mono (fun _ _ _ step => step.1) reached)
    "a" (fun _ => false)).2 ⟨"b", "b", "10.0.0.2", 9876, false⟩ (listed ▸ List.mem_singleton_self _)
  exact placed.2.2.2

end Results

end P2PSync
