import Mathlib.Data.List.AList
import Mathlib.Logic.Function.Basic
import P2PSync.Library.Latest
import P2PSync.Library.Transition

/-! What the clients of the IPC server receive, and in which order. A message is the
number of its SendMessage call. Every message is written to every client by a goroutine
of its own, and the mutex of a client goes to any goroutine that waits for it. -/
namespace P2PSync

open Transition

def stateType (type : String) : Bool := type = "peer_list_update" ∨ type = "repo_list_response"

inductive ReplayStage where
  | start
  | snapshot (msgs : List Nat)
  | writing (msgs : List Nat)
  | done
  deriving DecidableEq, Repr

structure SendCall where
  msg : Nat
  cached : Bool
  deriving DecidableEq, Repr

structure IpcServer where
  /-- History: the types of the messages passed to SendMessage. -/
  sent : List String
  calls : List SendCall
  latestMessages : AList fun _ : String => Nat
  toC : List Nat
  clients : List Nat
  accepted : Nat
  /-- The goroutines that wait for a client's mutex, with their message. -/
  writers : List (Nat × Nat)
  replay : Nat → ReplayStage
  received : Nat → List Nat

inductive IpcEvent where
  | sendMessage (type : String)
  | cache (i : Nat)
  | enqueue (i : Nat)
  | dispatch
  | write (i : Nat)
  | accept
  /-- The cached messages in the order in which the map gives them. -/
  | snapshot (client : Nat) (msgs : List Nat)
  | lookUp (client : Nat)
  | replay (client : Nat)
  | disconnect (client : Nat)
  deriving DecidableEq, Repr

namespace IpcServer

def new : IpcServer := ⟨[], [], ∅, [], [], 0, [], fun _ => .start, fun _ => []⟩

def capacity : Nat := 100

def cache (s : IpcServer) (msg : Nat) : IpcServer :=
  match s.sent[msg]? with
  | some type =>
    if stateType type then { s with latestMessages := s.latestMessages.insert type msg } else s
  | none => s

def deliver (s : IpcServer) (client msg : Nat) : IpcServer :=
  { s with received := Function.update s.received client (s.received client ++ [msg]) }

def setReplay (s : IpcServer) (client : Nat) (stage : ReplayStage) : IpcServer :=
  { s with replay := Function.update s.replay client stage }

def next (s : IpcServer) : IpcEvent → Option IpcServer
  | .sendMessage type =>
    some { s with sent := s.sent ++ [type], calls := s.calls ++ [⟨s.sent.length, false⟩] }
  | .cache i =>
    (s.calls[i]?.filter (fun call => call.cached = false)).map fun call =>
      ({ s with calls := s.calls.modify i ({ · with cached := true }) }).cache call.msg
  | .enqueue i =>
    (s.calls[i]?.filter (·.cached)).map fun call => { s with
      calls := s.calls.eraseIdx i
      toC := if s.toC.length < capacity then s.toC ++ [call.msg] else s.toC }
  | .dispatch =>
    match s.toC with
    | msg :: rest =>
      some { s with toC := rest, writers := s.writers ++ s.clients.map (fun c => (c, msg)) }
    | [] => none
  | .write i =>
    s.writers[i]?.map fun w => ({ s with writers := s.writers.eraseIdx i }).deliver w.1 w.2
  | .accept => some { s with clients := s.clients ++ [s.accepted], accepted := s.accepted + 1 }
  | .snapshot c msgs =>
    if c < s.accepted ∧ s.replay c = .start ∧
        msgs.Perm (s.latestMessages.entries.map Sigma.snd) then
      some (s.setReplay c (.snapshot msgs))
    else none
  | .lookUp c =>
    match s.replay c with
    | .snapshot msgs => some (s.setReplay c (if c ∈ s.clients then .writing msgs else .done))
    | _ => none
  | .replay c =>
    match s.replay c with
    | .writing (msg :: rest) => some ((s.deliver c msg).setReplay c (.writing rest))
    | .writing [] => some (s.setReplay c .done)
    | _ => none
  | .disconnect c =>
    if c ∈ s.clients then some { s with clients := s.clients.filter (· ≠ c) } else none

def Initial (s : IpcServer) : Prop := s = new

theorem new_initial : new.Initial := rfl

def pending (s : IpcServer) (c : Nat) : List Nat :=
  match s.replay c with
  | .snapshot msgs | .writing msgs => msgs
  | _ => []

def inFlight (s : IpcServer) (c : Nat) : List Nat :=
  (s.writers.filter (fun w => w.1 = c)).map Prod.snd

def underWay (s : IpcServer) (c : Nat) : List Nat :=
  s.inFlight c ++ (s.toC ++ s.calls.map (·.msg))

/-- Calls of SendMessage take effect in the order in which they were made and find
room in the channel; the writers of a client get its mutex in the order in which they
were started, after its replay; and a replay goes through its messages in the order
of sending, when no older message is under way. -/
def inOrder (s : IpcServer) : IpcEvent → Bool
  | .cache i => i = 0
  | .enqueue i => i = 0 ∧ s.toC.length < capacity
  | .write i => s.writers[i]?.all (fun w =>
      s.replay w.1 = .done ∧ (s.writers.take i).all (fun v => v.1 ≠ w.1))
  | .snapshot c msgs => msgs.Pairwise (· ≤ ·) ∧ ∀ r ∈ msgs, ∀ n ∈ s.underWay c, r ≤ n
  | _ => true

def Quiescent (s : IpcServer) : Prop :=
  s.calls = [] ∧ s.toC = [] ∧ s.writers = [] ∧ ∀ c ∈ s.clients, s.replay c = .done

instance (s : IpcServer) : Decidable s.Quiescent := inferInstanceAs (Decidable (_ ∧ _ ∧ _ ∧ _))

def lastOf (s : IpcServer) (type : String) (msgs : List Nat) : Option Nat :=
  (msgs.filter (fun n => s.sent[n]? = some type)).getLast?

def line (s : IpcServer) (c : Nat) : List Nat := s.received c ++ (s.pending c ++ s.underWay c)

structure Ordered (s : IpcServer) : Prop where
  bound : ∀ c, ∀ n ∈ s.line c, n < s.sent.length
  sorted : ∀ c, (s.line c).Pairwise (· ≤ ·)

/-- The calls that have not returned are the last ones, and only the first of them may
have stored its message. -/
structure Calling (s : IpcServer) : Prop where
  recent : ∃ k, s.calls.map (·.msg) = List.range' k s.calls.length ∧
    k + s.calls.length = s.sent.length
  first : ∀ call ∈ s.calls.tail, call.cached = false
  held : ∀ call ∈ s.calls, call.cached = true → ∀ type, s.sent[call.msg]? = some type →
    stateType type = true → s.latestMessages.lookup type = some call.msg
  known : ∀ type n, s.latestMessages.lookup type = some n → n < s.sent.length
  latest : ∀ type n, stateType type = true → Latest s.sent type n →
    n ∈ s.calls.map (·.msg) ∨ s.latestMessages.lookup type = some n

structure Serving (s : IpcServer) : Prop where
  fresh : ∀ c, s.accepted ≤ c → s.replay c = .start
  unread : ∀ c, (s.replay c = .start ∨ ∃ msgs, s.replay c = .snapshot msgs) → s.received c = []
  covered : ∀ c ∈ s.clients, ∀ type n, stateType type = true → Latest s.sent type n →
    n ∈ s.line c ∨ s.replay c = .start

variable {s s' : IpcServer}

theorem cache_frame (s : IpcServer) (msg : Nat) :
    ∃ latest, s.cache msg = { s with latestMessages := latest } := by
  unfold cache
  split
  · split <;> exact ⟨_, rfl⟩
  · exact ⟨_, rfl⟩

/-! What the events do to the line of a client. -/

theorem map_msg_cached (calls : List SendCall) (i : Nat) :
    (calls.modify i ({ · with cached := true })).map (·.msg) = calls.map (·.msg) := by
  induction calls generalizing i with
  | nil => simp
  | cons call rest ih =>
    cases i with
    | zero => rfl
    | succ i => simp [ih]

theorem line_sendMessage (s : IpcServer) (type : String) (c : Nat) :
    ({ s with sent := s.sent ++ [type], calls := s.calls ++ [⟨s.sent.length, false⟩] } :
      IpcServer).line c = s.line c ++ [s.sent.length] := by
  simp [line, underWay, inFlight, pending]

theorem line_cache (s : IpcServer) (i msg c : Nat) :
    (({ s with calls := s.calls.modify i ({ · with cached := true }) } : IpcServer).cache
      msg).line c = s.line c := by
  obtain ⟨latest, eq⟩ :=
    cache_frame ({ s with calls := s.calls.modify i ({ · with cached := true }) }) msg
  rw [eq]
  simp only [line, underWay, inFlight, pending, map_msg_cached]

theorem line_enqueue {call : SendCall} {rest : List SendCall} (calls : s.calls = call :: rest)
    (c : Nat) :
    ({ s with calls := rest, toC := s.toC ++ [call.msg] } : IpcServer).line c = s.line c := by
  simp [line, underWay, inFlight, pending, calls]

theorem filter_dispatched (clients : List Nat) (msg c : Nat) :
    ((clients.map (fun c => (c, msg))).filter (fun w => w.1 = c)).map Prod.snd =
      List.replicate (clients.count c) msg := by
  induction clients with
  | nil => rfl
  | cons d rest ih =>
    by_cases here : d = c
    · subst here
      simp only [List.map_cons, List.filter_cons, decide_true, if_true, List.count_cons_self,
        List.replicate_succ, ih]
    · rw [List.count_cons_of_ne here, ← ih]
      simp [here]

theorem line_dispatch {msg : Nat} {rest : List Nat} (queue : s.toC = msg :: rest) (c : Nat) :
    s.line c = (s.received c ++ (s.pending c ++ s.inFlight c)) ++
      msg :: (rest ++ s.calls.map (·.msg)) ∧
    ({ s with toC := rest, writers := s.writers ++ s.clients.map (fun c => (c, msg)) } :
      IpcServer).line c = (s.received c ++ (s.pending c ++ s.inFlight c)) ++
        (List.replicate (s.clients.count c) msg ++ (rest ++ s.calls.map (·.msg))) := by
  constructor
  · simp [line, underWay, queue]
  · simp only [line, underWay, inFlight, pending, List.filter_append, List.map_append,
      filter_dispatched, List.append_assoc]

theorem inFlight_write {i : Nat} {w : Nat × Nat} (at_ : s.writers[i]? = some w)
    (first : ∀ v ∈ s.writers.take i, v.1 ≠ w.1) (c : Nat) :
    s.inFlight c = (if c = w.1 then [w.2] else []) ++
      ({ s with writers := s.writers.eraseIdx i } : IpcServer).inFlight c := by
  obtain ⟨bound, here⟩ := List.getElem?_eq_some_iff.mp at_
  have split : s.writers = s.writers.take i ++ w :: s.writers.drop (i + 1) := by
    rw [← here, List.getElem_cons_drop, List.take_append_drop]
  have before : c = w.1 → (s.writers.take i).filter (fun v => v.1 = c) = [] := by
    rintro rfl
    apply List.filter_eq_nil_iff.mpr
    intro v member
    simpa using first v member
  simp only [inFlight, List.eraseIdx_eq_take_drop_succ]
  conv => lhs; rw [split]
  by_cases mine : c = w.1
  · rw [List.filter_append, List.filter_append, before mine]
    simp [mine]
  · have other : w.1 ≠ c := Ne.symm mine
    simp [mine, other]

theorem line_write {i : Nat} {w : Nat × Nat} (at_ : s.writers[i]? = some w)
    (replayed : s.replay w.1 = .done) (first : ∀ v ∈ s.writers.take i, v.1 ≠ w.1) (c : Nat) :
    (({ s with writers := s.writers.eraseIdx i } : IpcServer).deliver w.1 w.2).line c =
      s.line c := by
  have flight := inFlight_write at_ first c
  by_cases mine : c = w.1
  · subst mine
    have nothing : s.pending w.1 = [] := by rw [pending, replayed]
    simp only [line, underWay, flight, nothing, if_true, deliver, Function.update_self,
      List.nil_append, List.append_assoc, List.singleton_append]
    simp only [pending, replayed, inFlight, List.nil_append, List.cons_append]
  · rw [if_neg mine, List.nil_append] at flight
    simp only [line, underWay, flight, deliver, Function.update_of_ne mine]
    rfl

theorem line_setReplay (s : IpcServer) (d : Nat) (stage : ReplayStage) (c : Nat) :
    (s.setReplay d stage).line c =
      if c = d then s.received c ++ ((s.setReplay d stage).pending c ++ s.underWay c)
      else s.line c := by
  by_cases mine : c = d
  · rw [if_pos mine]
    rfl
  · rw [if_neg mine]
    simp only [line, pending, setReplay, Function.update_of_ne mine]
    rfl

theorem line_replay {c : Nat} {msg : Nat} {rest : List Nat}
    (writing : s.replay c = .writing (msg :: rest)) (d : Nat) :
    ((s.deliver c msg).setReplay c (.writing rest)).line d = s.line d := by
  by_cases mine : d = c
  · subst mine
    simp only [line, pending, writing, deliver, setReplay, Function.update_self,
      List.append_assoc, List.cons_append]
    rfl
  · simp only [line, pending, deliver, setReplay, Function.update_of_ne mine]
    rfl

/-! What a run in order keeps. -/

theorem Ordered.sublist (ordered : s.Ordered) (sent : s.sent.length ≤ s'.sent.length)
    (sub : ∀ c, (s'.line c).Sublist (s.line c)) : s'.Ordered where
  bound := fun c n member => Nat.lt_of_lt_of_le (ordered.bound c n ((sub c).subset member)) sent
  sorted := fun c => (ordered.sorted c).sublist (sub c)

theorem Ordered.sendMessage (ordered : s.Ordered) (type : String) :
    ({ s with sent := s.sent ++ [type], calls := s.calls ++ [⟨s.sent.length, false⟩] } :
      IpcServer).Ordered := by
  refine ⟨fun c n member => ?_, fun c => ?_⟩
  · rw [line_sendMessage] at member
    rw [List.length_append, List.length_singleton]
    rcases List.mem_append.mp member with old | new
    · exact Nat.lt_succ_of_lt (ordered.bound c n old)
    · rw [List.mem_singleton.mp new]
      exact Nat.lt_succ_self _
  · rw [line_sendMessage]
    refine List.pairwise_append.mpr ⟨ordered.sorted c, List.pairwise_singleton _ _, ?_⟩
    intro n old m new
    rw [List.mem_singleton.mp new]
    exact Nat.le_of_lt (ordered.bound c n old)

theorem Ordered.dispatch (ordered : s.Ordered) {msg : Nat} {rest : List Nat}
    (queue : s.toC = msg :: rest) :
    ({ s with toC := rest, writers := s.writers ++ s.clients.map (fun c => (c, msg)) } :
      IpcServer).Ordered := by
  have moved : ∀ c, ({ s with
      toC := rest, writers := s.writers ++ s.clients.map (fun c => (c, msg)) } :
        IpcServer).line c ⊆ s.line c := by
    intro c n member
    rw [(line_dispatch queue c).2] at member
    rw [(line_dispatch queue c).1]
    simp only [List.mem_append, List.mem_replicate, List.mem_cons] at member ⊢
    tauto
  refine ⟨fun c n member => ordered.bound c n (moved c member), fun c => ?_⟩
  have sorted := ordered.sorted c
  rw [(line_dispatch queue c).1, List.pairwise_append, List.pairwise_cons] at sorted
  obtain ⟨before, ⟨above, after⟩, across⟩ := sorted
  rw [(line_dispatch queue c).2]
  refine List.pairwise_append.mpr ⟨before, List.pairwise_append.mpr ⟨?_, after, ?_⟩, ?_⟩
  · exact List.pairwise_replicate.mpr (Or.inr le_rfl)
  · intro n new m later
    rw [List.eq_of_mem_replicate new]
    exact above m later
  · intro n old m member
    rcases List.mem_append.mp member with new | later
    · rw [List.eq_of_mem_replicate new]
      exact across n old msg List.mem_cons_self
    · exact across n old m (List.mem_cons_of_mem _ later)

theorem Ordered.snapshot (ordered : s.Ordered) {d : Nat} {msgs : List Nat}
    (start : s.replay d = .start) (unread : s.received d = [])
    (known : ∀ n ∈ msgs, n < s.sent.length) (sorted : msgs.Pairwise (· ≤ ·))
    (older : ∀ r ∈ msgs, ∀ n ∈ s.underWay d, r ≤ n) : (s.setReplay d (.snapshot msgs)).Ordered := by
  have line : ∀ c, (s.setReplay d (.snapshot msgs)).line c =
      if c = d then msgs ++ s.underWay c else s.line c := by
    intro c
    rw [line_setReplay]
    by_cases mine : c = d
    · subst mine
      simp [unread, pending, setReplay]
    · rw [if_neg mine, if_neg mine]
  have rest : s.line d = s.underWay d := by
    rw [IpcServer.line, unread, pending, start]
    rfl
  refine ⟨fun c n member => ?_, fun c => ?_⟩
  · rw [line] at member
    split at member
    · rename_i mine
      subst mine
      rcases List.mem_append.mp member with new | old
      · exact known n new
      · exact ordered.bound c n (rest ▸ old)
    · exact ordered.bound c n member
  · rw [line]
    split
    · rename_i mine
      subst mine
      exact List.pairwise_append.mpr ⟨sorted, rest ▸ ordered.sorted c, older⟩
    · exact ordered.sorted c

theorem Calling.bound (calling : s.Calling) {n : Nat} (member : n ∈ s.calls.map (·.msg)) :
    n < s.sent.length := by
  obtain ⟨k, calls, whole⟩ := calling.recent
  rw [calls, List.mem_range'_1] at member
  omega

theorem Calling.sendMessage (calling : s.Calling) (type : String) :
    ({ s with sent := s.sent ++ [type], calls := s.calls ++ [⟨s.sent.length, false⟩] } :
      IpcServer).Calling := by
  obtain ⟨k, calls, whole⟩ := calling.recent
  refine ⟨⟨k, ?_, ?_⟩, ?_, ?_, ?_, ?_⟩
  · simp only [List.map_append, calls, List.length_append, List.length_singleton,
      List.range'_1_concat, whole]
    rfl
  · simp only [List.length_append, List.length_singleton]
    omega
  · intro call member
    cases before : s.calls with
    | nil =>
      simp [before] at member
    | cons first rest =>
      simp only [before, List.cons_append, List.tail_cons, List.mem_append,
        List.mem_singleton] at member
      rcases member with old | rfl
      · exact calling.first call (by rw [before]; exact old)
      · rfl
  · intro call member cached type' typed state
    rcases List.mem_append.mp member with old | new
    · have below := calling.bound (List.mem_map.mpr ⟨call, old, rfl⟩)
      simp only [List.getElem?_append_left below] at typed
      exact calling.held call old cached type' typed state
    · rw [List.mem_singleton.mp new] at cached
      cases cached
  · intro type' n found
    rw [List.length_append, List.length_singleton]
    exact Nat.lt_succ_of_lt (calling.known type' n found)
  · intro type' n state latest
    by_cases same : type = type'
    · subst same
      rw [latest.unique (Latest.of_snoc s.sent type)]
      simp
    · rcases calling.latest type' n state (latest.of_snoc_ne same) with member | found
      · left
        rw [List.map_append]
        exact List.mem_append_left _ member
      · exact Or.inr found

section

variable (calling : s.Calling) {call : SendCall} {rest : List SendCall}
  (calls : s.calls = call :: rest)

include calling calls

theorem Calling.head : (∀ n, call.msg < n → n < s.sent.length → n ∈ s.calls.map (·.msg)) ∧
      ∀ c ∈ rest, c.cached = false := by
  obtain ⟨k, recent, whole⟩ := calling.recent
  constructor
  · intro n above below
    have first : call.msg = k := by
      rw [calls, List.map_cons, List.length_cons, List.range'_succ] at recent
      exact (List.cons.inj recent).1
    rw [recent, List.mem_range'_1]
    omega
  · have tail := calling.first
    rwa [calls] at tail

theorem Calling.store {table : AList fun _ : String => Nat}
    (held : ∀ type, s.sent[call.msg]? = some type → stateType type = true →
      table.lookup type = some call.msg)
    (known : ∀ type n, table.lookup type = some n → n < s.sent.length)
    (latest : ∀ type n, stateType type = true → Latest s.sent type n →
      n ∈ s.calls.map (·.msg) ∨ table.lookup type = some n) : ({ s with
      calls := s.calls.modify 0 ({ · with cached := true }), latestMessages := table } :
        IpcServer).Calling := by
  have uncached := (calling.head calls).2
  have modified : s.calls.modify 0 ({ · with cached := true }) =
      { call with cached := true } :: rest := by rw [calls]; rfl
  refine ⟨?_, ?_, ?_, known, ?_⟩
  · simp only [map_msg_cached, List.length_modify]
    exact calling.recent
  · rw [modified]
    exact uncached
  · rw [modified]
    intro c member cached type typed state
    rcases List.mem_cons.mp member with rfl | later
    · exact held type typed state
    · rw [uncached c later] at cached
      cases cached
  · simp only [map_msg_cached]
    exact latest

theorem Calling.cache :
    (({ s with calls := s.calls.modify 0 ({ · with cached := true }) } : IpcServer).cache
      call.msg).Calling := by
  have below : call.msg < s.sent.length := calling.bound (by rw [calls]; exact List.mem_cons_self)
  obtain ⟨type, typed⟩ : ∃ type, s.sent[call.msg]? = some type :=
    ⟨_, List.getElem?_eq_getElem below⟩
  simp only [IpcServer.cache, typed]
  split
  · refine calling.store calls ?_ ?_ ?_
    · intro type' typed' _
      cases Option.some.inj (typed.symm.trans typed')
      exact AList.lookup_insert _
    · intro type' n found
      by_cases same : type' = type
      · rw [same, AList.lookup_insert] at found
        cases found
        exact below
      · rw [AList.lookup_insert_ne same] at found
        exact calling.known type' n found
    · intro type' n state' latest
      by_cases same : type' = type
      · subst same
        rcases Nat.eq_or_lt_of_le (latest.le typed) with here | later
        · rw [AList.lookup_insert, here]
          exact Or.inr rfl
        · exact Or.inl ((calling.head calls).1 n later latest.bound)
      · rw [AList.lookup_insert_ne same]
        exact calling.latest type' n state' latest
  · rename_i plain
    refine calling.store calls ?_ calling.known calling.latest
    intro type' typed' state'
    cases Option.some.inj (typed.symm.trans typed')
    exact absurd state' plain

theorem Calling.enqueue (cached : call.cached = true) (toC : List Nat) :
    ({ s with calls := rest, toC := toC } : IpcServer).Calling := by
  obtain ⟨k, recent, whole⟩ := calling.recent
  have ⟨first, later⟩ : call.msg = k ∧ rest.map (·.msg) = List.range' (k + 1) rest.length := by
    rw [calls, List.map_cons, List.length_cons, List.range'_succ] at recent
    exact List.cons.inj recent
  rw [calls, List.length_cons] at whole
  refine ⟨⟨k + 1, later, ?_⟩, ?_, ?_, calling.known, ?_⟩
  · simp only
    omega
  · intro c member
    exact calling.first c (by rw [calls]; exact List.mem_of_mem_tail member)
  · intro c member
    exact calling.held c (by rw [calls]; exact List.mem_cons_of_mem _ member)
  · intro type n state latest
    rcases calling.latest type n state latest with member | found
    · rw [calls, List.map_cons, List.mem_cons] at member
      rcases member with rfl | later
      · exact Or.inr (calling.held call (by rw [calls]; exact List.mem_cons_self) cached type
          latest.1 state)
      · exact Or.inl later
    · exact Or.inr found

end

theorem Serving.same (serving : s.Serving) (sent : s'.sent = s.sent)
    (accepted : s'.accepted = s.accepted) (replay : s'.replay = s.replay)
    (clients : ∀ c ∈ s'.clients, c ∈ s.clients)
    (received : ∀ c, s.replay c ≠ .done → s'.received c = s.received c)
    (line : ∀ c ∈ s'.clients, s.line c ⊆ s'.line c) : s'.Serving := by
  refine ⟨?_, ?_, ?_⟩
  · rw [accepted, replay]
    exact serving.fresh
  · intro c early
    rw [replay] at early
    have running : s.replay c ≠ .done := by
      rcases early with start | ⟨msgs, read⟩
      · rw [start]
        nofun
      · rw [read]
        nofun
    rw [received c running]
    exact serving.unread c early
  · intro c member type n state latest
    rw [sent] at latest
    rw [replay]
    exact (serving.covered c (clients c member) type n state latest).imp_left (line c member ·)

theorem Serving.sendMessage (serving : s.Serving) (type : String) :
    ({ s with sent := s.sent ++ [type], calls := s.calls ++ [⟨s.sent.length, false⟩] } :
      IpcServer).Serving := by
  refine ⟨serving.fresh, serving.unread, ?_⟩
  intro c member type' n state latest
  rw [line_sendMessage]
  by_cases same : type = type'
  · subst same
    rw [latest.unique (Latest.of_snoc s.sent type)]
    simp
  · exact (serving.covered c member type' n state (latest.of_snoc_ne same)).imp_left
      (List.mem_append_left _ ·)

theorem Serving.setReplay (serving : s.Serving) {d : Nat} {stage : ReplayStage}
    (running : s.replay d ≠ .start) (writing : stage = .done ∨ ∃ msgs, stage = .writing msgs)
    (after : s'.replay =
      Function.update s.replay d stage) (sent : s'.sent = s.sent) (clients : s'.clients = s.clients)
    (accepted : s'.accepted = s.accepted) (received : ∀ c ≠ d, s'.received c = s.received c)
    (line : ∀ c ∈ s.clients, s.line c ⊆ s'.line c) : s'.Serving := by
  refine ⟨?_, ?_, ?_⟩
  · intro c new
    rw [accepted] at new
    have other : c ≠ d := by
      rintro rfl
      exact running (serving.fresh c new)
    rw [after, Function.update_of_ne other]
    exact serving.fresh c new
  · intro c early
    rw [after] at early
    by_cases mine : c = d
    · subst mine
      rw [Function.update_self] at early
      rcases writing with rfl | ⟨msgs, rfl⟩ <;> rcases early with h | ⟨_, h⟩ <;> cases h
    · rw [Function.update_of_ne mine] at early
      rw [received c mine]
      exact serving.unread c early
  · intro c member type n state latest
    rw [sent] at latest
    rw [clients] at member
    rcases serving.covered c member type n state latest with there | start
    · exact Or.inl (line c member there)
    · have other : c ≠ d := by
        rintro rfl
        exact running start
      rw [after, Function.update_of_ne other]
      exact Or.inr start

theorem Serving.snapshot (serving : s.Serving) (calling : s.Calling) {d : Nat} {msgs : List Nat}
    (bound : d < s.accepted) (start : s.replay d = .start)
    (perm : msgs.Perm (s.latestMessages.entries.map Sigma.snd)) :
    (s.setReplay d (.snapshot msgs)).Serving := by
  refine ⟨?_, ?_, ?_⟩
  · intro c new
    have other : c ≠ d := by
      rintro rfl
      exact absurd bound (not_lt.mpr new)
    simp only [IpcServer.setReplay, Function.update_of_ne other]
    exact serving.fresh c new
  · intro c early
    by_cases mine : c = d
    · subst mine
      exact serving.unread c (Or.inl start)
    · simp only [IpcServer.setReplay, Function.update_of_ne mine] at early
      exact serving.unread c early
  · intro c member type n state latest
    rw [line_setReplay]
    by_cases mine : c = d
    · subst mine
      left
      simp only [if_true, pending, IpcServer.setReplay, Function.update_self, List.mem_append]
      rcases calling.latest type n state latest with call | stored
      · exact Or.inr (Or.inr (List.mem_append_right _ (List.mem_append_right _ call)))
      · refine Or.inr (Or.inl (perm.mem_iff.mpr (List.mem_map.mpr ⟨⟨type, n⟩, ?_, rfl⟩)))
        exact AList.mem_lookup_iff.mp stored
    · rw [if_neg mine]
      simp only [IpcServer.setReplay, Function.update_of_ne mine]
      exact serving.covered c member type n state latest

theorem Calling.same (calling : s.Calling) (sent : s'.sent = s.sent) (calls : s'.calls = s.calls)
    (latest : s'.latestMessages = s.latestMessages) : s'.Calling := by
  obtain ⟨recent, first, held, known, newest⟩ := calling
  refine ⟨?_, ?_, ?_, ?_, ?_⟩ <;> simp only [sent, calls, latest] <;> assumption

structure InStep (s : IpcServer) : Prop where
  ordered : s.Ordered
  calling : s.Calling
  serving : s.Serving

section

variable (inStep : s.InStep) {c msg : Nat} {rest : List Nat}

include inStep

theorem InStep.same_line (calling : s'.Calling) (sent : s'.sent = s.sent)
    (accepted : s'.accepted = s.accepted) (replay : s'.replay = s.replay)
    (clients : s'.clients = s.clients)
    (received : ∀ c, s.replay c ≠ .done → s'.received c = s.received c)
    (line : ∀ c, s'.line c = s.line c) : s'.InStep where
  ordered := inStep.ordered.sublist (Nat.le_of_eq (by rw [sent]))
    (fun c => by rw [line])
  calling := calling
  serving := inStep.serving.same sent accepted replay (fun c member => clients ▸ member) received
    (fun c _ => by rw [line]; exact List.Subset.refl _)

theorem InStep.cache {call : SendCall} (at_ : s.calls[0]? = some call) :
    (({ s with calls := s.calls.modify 0 ({ · with cached := true }) } : IpcServer).cache
      call.msg).InStep := by
  rw [← List.head?_eq_getElem?] at at_
  obtain ⟨rest, calls⟩ := List.head?_eq_some_iff.mp at_
  have line := line_cache s 0 call.msg
  have caching := inStep.calling.cache calls
  obtain ⟨latest, eq⟩ :=
    cache_frame ({ s with calls := s.calls.modify 0 ({ · with cached := true }) }) call.msg
  rw [eq] at line caching ⊢
  exact inStep.same_line caching rfl rfl rfl rfl (fun _ _ => rfl) line

theorem InStep.enqueue {call : SendCall} (at_ : s.calls[0]? = some call)
    (cached : call.cached = true) :
    ({ s with calls := s.calls.eraseIdx 0, toC := s.toC ++ [call.msg] } : IpcServer).InStep := by
  rw [← List.head?_eq_getElem?] at at_
  obtain ⟨rest, calls⟩ := List.head?_eq_some_iff.mp at_
  rw [calls, List.eraseIdx_zero, List.tail_cons]
  exact inStep.same_line (inStep.calling.enqueue calls cached _) rfl rfl rfl rfl (fun _ _ => rfl)
    (line_enqueue calls)

theorem InStep.write {i : Nat} {w : Nat × Nat} (at_ : s.writers[i]? = some w)
    (replayed : s.replay w.1 = .done) (first : ∀ v ∈ s.writers.take i, v.1 ≠ w.1) :
    (({ s with writers := s.writers.eraseIdx i } : IpcServer).deliver w.1 w.2).InStep := by
  refine inStep.same_line (inStep.calling.same rfl rfl rfl) rfl rfl rfl rfl (fun c running => ?_)
    (line_write at_ replayed first)
  have other : c ≠ w.1 := by
    rintro rfl
    exact running replayed
  simp only [deliver, Function.update_of_ne other]

theorem InStep.accept :
    ({ s with clients := s.clients ++ [s.accepted], accepted := s.accepted + 1 } :
      IpcServer).InStep := by
  obtain ⟨ordered, calling, serving⟩ := inStep
  refine ⟨ordered.sublist le_rfl (fun c => List.Sublist.refl _), calling.same rfl rfl rfl,
    ⟨fun c new => serving.fresh c (Nat.le_of_succ_le new), serving.unread, ?_⟩⟩
  intro c member type n state latest
  rcases List.mem_append.mp member with old | new
  · exact serving.covered c old type n state latest
  · rw [List.mem_singleton.mp new]
    exact Or.inr (serving.fresh s.accepted le_rfl)

theorem InStep.snapshot {msgs : List Nat} (bound : c < s.accepted) (start : s.replay c = .start)
    (perm : msgs.Perm (s.latestMessages.entries.map Sigma.snd)) (sorted : msgs.Pairwise (· ≤ ·))
    (older : ∀ r ∈ msgs, ∀ n ∈ s.underWay c, r ≤ n) : (s.setReplay c (.snapshot msgs)).InStep := by
  obtain ⟨ordered, calling, serving⟩ := inStep
  have known : ∀ n ∈ msgs, n < s.sent.length := by
    intro n member
    obtain ⟨⟨type, n⟩, entry, rfl⟩ := List.mem_map.mp (perm.mem_iff.mp member)
    exact calling.known type n (AList.mem_lookup_iff.mpr entry)
  exact ⟨ordered.snapshot start (serving.unread c (Or.inl start)) known sorted older,
    calling.same rfl rfl rfl, serving.snapshot calling bound start perm⟩

theorem InStep.dispatch (queue : s.toC = msg :: rest) :
    ({ s with toC := rest, writers := s.writers ++ s.clients.map (fun c => (c, msg)) } :
      IpcServer).InStep := by
  obtain ⟨ordered, calling, serving⟩ := inStep
  refine ⟨ordered.dispatch queue, calling.same rfl rfl rfl,
    serving.same rfl rfl rfl (fun _ => id) (fun _ _ => rfl) (fun c member n old => ?_)⟩
  -- a connected client gets a writer for the message
  rw [(line_dispatch queue c).1] at old
  rw [(line_dispatch queue c).2]
  have one : s.clients.count c ≠ 0 := Nat.ne_of_gt (List.count_pos_iff.mpr member)
  simp only [List.mem_append, List.mem_cons, List.mem_replicate] at old ⊢
  tauto

theorem InStep.advance {stage : ReplayStage} (running : s.replay c ≠ .start)
    (writing : stage = .done ∨ ∃ msgs, stage = .writing msgs)
    (fewer : ((s.setReplay c stage).pending c).Sublist (s.pending c))
    (all : c ∈ s.clients → (s.setReplay c stage).pending c = s.pending c) :
    (s.setReplay c stage).InStep := by
  obtain ⟨ordered, calling, serving⟩ := inStep
  refine ⟨ordered.sublist le_rfl (fun d => ?_), calling.same rfl rfl rfl,
    serving.setReplay running writing rfl rfl rfl rfl (fun _ _ => rfl) (fun d member => ?_)⟩
  · rw [line_setReplay]
    split
    · rename_i mine
      subst mine
      exact (List.Sublist.refl _).append (fewer.append (List.Sublist.refl _))
    · exact List.Sublist.refl _
  · rw [line_setReplay]
    split
    · rename_i mine
      subst mine
      rw [all member]
      exact List.Subset.refl _
    · exact List.Subset.refl _

theorem InStep.lookUp {msgs : List Nat} (read : s.replay c = .snapshot msgs) :
    (s.setReplay c (if c ∈ s.clients then .writing msgs else .done)).InStep := by
  have pending_now : s.pending c = msgs := by rw [pending, read]
  refine inStep.advance (by rw [read]; nofun) ?_ ?_ ?_
  · split
    · exact Or.inr ⟨msgs, rfl⟩
    · exact Or.inl rfl
  · rw [pending_now]
    by_cases connected : c ∈ s.clients <;> simp [pending, IpcServer.setReplay, connected]
  · intro connected
    rw [pending_now]
    simp [pending, IpcServer.setReplay, connected]

theorem InStep.replay (writing : s.replay c = .writing (msg :: rest)) :
    ((s.deliver c msg).setReplay c (.writing rest)).InStep := by
  obtain ⟨ordered, calling, serving⟩ := inStep
  have running : s.replay c ≠ .start := by
    rw [writing]
    nofun
  have line := line_replay writing
  refine ⟨ordered.sublist le_rfl (fun d => by rw [line]), calling.same rfl rfl rfl, ?_⟩
  refine serving.setReplay running (Or.inr ⟨rest, rfl⟩) rfl rfl rfl rfl ?_
    (fun d _ => by rw [line]; exact List.Subset.refl _)
  intro d other
  simp only [IpcServer.setReplay, deliver, Function.update_of_ne other]

theorem InStep.replayed (writing : s.replay c = .writing []) : (s.setReplay c .done).InStep := by
  have nothing : s.pending c = [] := by rw [pending, writing]
  refine inStep.advance (by rw [writing]; nofun) (Or.inl rfl) ?_ ?_
  · simp [pending, IpcServer.setReplay]
  · intro _
    rw [nothing]
    simp [pending, IpcServer.setReplay]

theorem InStep.disconnect (gone : Nat) :
    ({ s with clients := s.clients.filter (· ≠ gone) } : IpcServer).InStep where
  ordered := inStep.ordered.sublist le_rfl (fun _ => List.Sublist.refl _)
  calling := inStep.calling.same rfl rfl rfl
  serving := inStep.serving.same rfl rfl rfl (fun _ member => (List.mem_filter.mp member).1)
    (fun _ _ => rfl) (fun _ _ => List.Subset.refl _)

end

theorem inStep_next {event : IpcEvent} (inStep : s.InStep) (moved : s.next event = some s')
    (kept : s.inOrder event = true) : s'.InStep := by
  cases event with
  | sendMessage type =>
    cases moved
    exact ⟨inStep.ordered.sendMessage type, inStep.calling.sendMessage type,
      inStep.serving.sendMessage type⟩
  | cache i =>
    obtain ⟨call, found, rfl⟩ := Option.map_eq_some_iff.mp moved
    obtain rfl : i = 0 := of_decide_eq_true kept
    exact inStep.cache (Option.filter_eq_some_iff.mp found).1
  | enqueue i =>
    obtain ⟨call, found, rfl⟩ := Option.map_eq_some_iff.mp moved
    obtain ⟨at_, cached⟩ := Option.filter_eq_some_iff.mp found
    obtain ⟨rfl, room⟩ := of_decide_eq_true kept
    rw [if_pos room]
    exact inStep.enqueue at_ cached
  | dispatch =>
    simp only [next] at moved
    split at moved
    · rename_i msg rest queue
      cases moved
      exact inStep.dispatch queue
    · cases moved
  | write i =>
    obtain ⟨w, at_, rfl⟩ := Option.map_eq_some_iff.mp moved
    simp only [inOrder, at_, Option.all_some, decide_eq_true_eq, List.all_eq_true] at kept
    exact inStep.write at_ kept.1 kept.2
  | accept =>
    cases moved
    exact inStep.accept
  | snapshot c msgs =>
    simp only [next] at moved
    split at moved
    · rename_i able
      cases moved
      obtain ⟨sorted, older⟩ := of_decide_eq_true kept
      exact inStep.snapshot able.1 able.2.1 able.2.2 sorted older
    · cases moved
  | lookUp c =>
    simp only [next] at moved
    split at moved
    · rename_i msgs read
      cases moved
      exact inStep.lookUp read
    · cases moved
  | replay c =>
    simp only [next] at moved
    split at moved
    · rename_i msg rest writing
      cases moved
      exact inStep.replay writing
    · rename_i writing
      cases moved
      exact inStep.replayed writing
    · cases moved
  | disconnect c =>
    simp only [next] at moved
    split at moved
    · cases moved
      exact inStep.disconnect c
    · cases moved

theorem inStep_reach (reached : Reach Initial
      (Guarded (Runs next) (fun s event => s.inOrder event = true)) s) : s.InStep := by
  apply reach_invariant InStep _ _ reached
  · rintro s rfl
    refine ⟨⟨?_, ?_⟩, ⟨⟨0, rfl, rfl⟩, ?_, ?_, ?_, ?_⟩, ⟨?_, ?_, ?_⟩⟩ <;>
      simp [new, line, pending, underWay, inFlight, Latest]
  · rintro s event s' inStep ⟨moved, kept⟩
    exact inStep_next inStep moved kept

/-! The last message of a type. -/

theorem getLast?_sorted {msgs : List Nat} (sorted : msgs.Pairwise (· ≤ ·)) {n : Nat}
    (member : n ∈ msgs) (greatest : ∀ m ∈ msgs, m ≤ n) : msgs.getLast? = some n := by
  rcases List.eq_nil_or_concat' msgs with rfl | ⟨front, last, rfl⟩
  · cases member
  · have above : n ≤ last := by
      rcases List.mem_append.mp member with before | here
      · exact (List.pairwise_append.mp sorted).2.2 n before last (List.mem_singleton_self _)
      · exact Nat.le_of_eq (List.mem_singleton.mp here)
    have below : last ≤ n := greatest last (List.mem_append_right _ (List.mem_singleton_self _))
    rw [List.getLast?_concat, Nat.le_antisymm below above]

theorem lastOf_sorted {msgs : List Nat} (sorted : msgs.Pairwise (· ≤ ·)) {type : String} {n : Nat}
    (latest : Latest s.sent type n) (member : n ∈ msgs) : s.lastOf type msgs = some n := by
  refine getLast?_sorted (sorted.filter _) ?_ ?_
  · exact List.mem_filter.mpr ⟨member, decide_eq_true latest.1⟩
  · intro m typed
    exact latest.le (of_decide_eq_true (List.mem_filter.mp typed).2)

theorem InStep.delivered (inStep : s.InStep) (quiescent : s.Quiescent) {c : Nat}
    (connected : c ∈ s.clients) {type : String} (state : stateType type = true) :
    s.lastOf type (s.received c) = s.lastOf type (List.range s.sent.length) := by
  obtain ⟨ordered, -, serving⟩ := inStep
  obtain ⟨calls, queue, writers, replays⟩ := quiescent
  have whole : s.line c = s.received c := by
    simp [line, pending, underWay, inFlight, calls, queue, writers, replays c connected]
  by_cases passed : type ∈ s.sent
  · obtain ⟨n, latest⟩ := Latest.exists_of_mem passed
    have arrived : n ∈ s.received c := by
      rcases serving.covered c connected type n state latest with there | start
      · rwa [whole] at there
      · rw [replays c connected] at start
        cases start
    rw [lastOf_sorted (whole ▸ ordered.sorted c) latest arrived,
      lastOf_sorted (List.pairwise_le_range) latest (List.mem_range.mpr latest.bound)]
  · have none : ∀ msgs : List Nat, s.lastOf type msgs = none := by
      intro msgs
      rw [lastOf, List.getLast?_eq_none_iff, List.filter_eq_nil_iff]
      intro n _ typed
      exact passed (List.mem_of_getElem? (of_decide_eq_true typed))
    rw [none, none]

end IpcServer

/-- In a run in order every client receives the messages in the order of sending, and
when nothing is left to do every connected client has, of each kept type, the last
message that was sent. -/
theorem clients_up_to_date {s : IpcServer} (reached : Reach IpcServer.Initial
      (Guarded (Runs IpcServer.next)
        (fun s event => s.inOrder event = true)) s) : (∀ c, (s.received c).Pairwise (· ≤ ·)) ∧
    (s.Quiescent → ∀ c ∈ s.clients, ∀ type, stateType type = true →
      s.lastOf type (s.received c) = s.lastOf type (List.range s.sent.length)) := by
  have inStep := IpcServer.inStep_reach reached
  refine ⟨fun c => ?_, fun quiescent c connected type state =>
    inStep.delivered quiescent connected state⟩
  exact (inStep.ordered.sorted c).sublist (List.sublist_append_left _ _)

def lateClient : List IpcEvent :=
  [.accept, .snapshot 0 [], .lookUp 0, .replay 0,
    .sendMessage "peer_list_update", .sendMessage "repo_list_response", .cache 0, .enqueue 0,
    .cache 0, .enqueue 0, .dispatch, .dispatch, .write 0, .write 0, .accept,
    .sendMessage "peer_list_update", .cache 0, .enqueue 0, .snapshot 1 [1, 2], .dispatch,
    .write 0, .lookUp 1, .replay 1, .replay 1, .replay 1, .write 0]

theorem clients_up_to_date_lateClient : ∃ s : IpcServer, s.received 0 = [0, 1, 2] ∧
    s.received 1 = [1, 2, 2] ∧ s.clients = [0, 1] ∧
    (∀ c, (s.received c).Pairwise (· ≤ ·)) ∧
    ∀ c ∈ s.clients, s.lastOf "peer_list_update" (s.received c) =
      s.lastOf "peer_list_update" (List.range s.sent.length) := by
  obtain ⟨s, reached, first, second, clients, quiescent⟩ :=
    reach_of_replay IpcServer.next (fun s event => s.inOrder event = true)
      (.start IpcServer.new_initial) lateClient
      (fun s => s.received 0 = [0, 1, 2] ∧ s.received 1 = [1, 2, 2] ∧ s.clients = [0, 1] ∧
        s.Quiescent) (by decide +kernel)
  obtain ⟨sorted, current⟩ := clients_up_to_date reached
  exact ⟨s, first, second, clients, sorted, fun c connected =>
    current quiescent c connected _ rfl⟩

/-- Two updates of the peer list, one after the other; the writer of the second gets
the client's mutex first, and the client is left with the first. -/
theorem client_left_behind : ∃ s : IpcServer,
    Reach IpcServer.Initial (Guarded (Runs IpcServer.next)
      (fun _ _ => True)) s ∧
    s.Quiescent ∧ s.clients = [0] ∧ s.received 0 = [1, 0] ∧
    s.lastOf "peer_list_update" (s.received 0) = some 0 ∧
    s.lastOf "peer_list_update" (List.range s.sent.length) = some 1 :=
  reach_of_replay IpcServer.next (fun _ _ => True)
    (.start IpcServer.new_initial)
    [.accept, .snapshot 0 [], .lookUp 0, .replay 0, .sendMessage "peer_list_update", .cache 0,
      .enqueue 0, .sendMessage "peer_list_update", .cache 0, .enqueue 0, .dispatch, .dispatch,
      .write 1, .write 0]
    (fun s => s.Quiescent ∧ s.clients = [0] ∧ s.received 0 = [1, 0] ∧
      s.lastOf "peer_list_update" (s.received 0) = some 0 ∧
      s.lastOf "peer_list_update" (List.range s.sent.length) = some 1) (by decide +kernel)

end P2PSync
