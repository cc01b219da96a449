import P2PSync.IpcDelivery
import P2PSync.Library.Progress

/-! The end of the IPC server. SendMessage holds the read lock from its look at the flag
to its send; Stop sets the flag and closes both channels under the write lock. A waiting
writer keeps new readers out. The calls of SendMessage are kept by their stage, and
those of Stop are counted. -/
namespace P2PSync

open Transition

inductive StopStage where
  | pending
  | locked | flagged | stopClosed | bothClosed
  deriving DecidableEq, Repr

structure IpcShutdown where
  /-- The calls of SendMessage before the read lock, with it, and behind the look at the flag. -/
  entered : List Nat
  locked : List Nat
  checked : List Nat
  waiting : Nat
  body : Option StopStage
  onceDone : Bool
  closing : Nat
  stopped : Bool
  stopChanClosed : Bool
  toCClosed : Bool
  toC : List Nat
  looping : Bool
  panics : Nat
  /-- History: what went into the channel and what came out of it. -/
  accepted : List Nat
  dispatched : List Nat
  deriving DecidableEq, Repr

inductive ShutdownEvent where
  | sendMessage (msg : Nat)
  | rlock (i : Nat)
  | check (i : Nat)
  /-- The select, which may take the stop channel where that is closed. -/
  | offer (i : Nat) (seesStop : Bool)
  | stop
  /-- The first call enters the Once; the others pass it when it is done. -/
  | enterOnce
  | passOnce
  | lock
  | flag
  | closeStop
  | closeToC
  | unlock
  | closeClients
  | take
  | quit
  deriving DecidableEq, Repr

def ShutdownEvent.works : ShutdownEvent → Bool
  | .sendMessage _ | .stop => false
  | _ => true

namespace IpcShutdown

def new : IpcShutdown :=
  ⟨[], [], [], 0, none, false, 0, false, false, false, [], true, 0, [], []⟩

def returns (s : IpcShutdown) (i : Nat) (toC : List Nat) (accepted : List Nat) : IpcShutdown :=
  { s with checked := s.checked.eraseIdx i, toC := toC, accepted := accepted }

def next (s : IpcShutdown) : ShutdownEvent → Option IpcShutdown
  | .sendMessage msg => some { s with entered := s.entered ++ [msg] }
  | .rlock i =>
    s.entered[i]?.bind fun msg =>
      if s.body = none then
        some { s with entered := s.entered.eraseIdx i, locked := s.locked ++ [msg] }
      else none
  | .check i =>
    s.locked[i]?.map fun msg =>
      { s with
        locked := s.locked.eraseIdx i
        checked := if s.stopped then s.checked else s.checked ++ [msg] }
  | .offer i seesStop =>
    s.checked[i]?.bind fun msg =>
      if seesStop then
        if s.stopChanClosed then some (s.returns i s.toC s.accepted) else none
      else if s.toCClosed then some { s.returns i s.toC s.accepted with panics := s.panics + 1 }
      else if s.toC.length < IpcServer.capacity then
        some (s.returns i (s.toC ++ [msg]) (s.accepted ++ [msg]))
      else if s.stopChanClosed then none
      else some (s.returns i s.toC s.accepted)
  | .stop => some { s with waiting := s.waiting + 1 }
  | .enterOnce =>
    if 0 < s.waiting ∧ s.body = none ∧ s.onceDone = false then
      some { s with waiting := s.waiting - 1, body := some .pending }
    else none
  | .passOnce =>
    if 0 < s.waiting ∧ s.onceDone = true then
      some { s with waiting := s.waiting - 1, closing := s.closing + 1 }
    else none
  | .lock =>
    if s.body = some .pending ∧ s.locked = [] ∧ s.checked = [] then
      some { s with body := some .locked }
    else none
  | .flag =>
    if s.body = some .locked then some { s with body := some .flagged, stopped := true } else none
  | .closeStop =>
    if s.body = some .flagged then
      some { s with
        body := some .stopClosed
        stopChanClosed := true
        panics := if s.stopChanClosed then s.panics + 1 else s.panics }
    else none
  | .closeToC =>
    if s.body = some .stopClosed then
      some { s with
        body := some .bothClosed
        toCClosed := true
        panics := if s.toCClosed then s.panics + 1 else s.panics }
    else none
  | .unlock =>
    if s.body = some .bothClosed then
      some { s with body := none, onceDone := true, closing := s.closing + 1 }
    else none
  | .closeClients => if 0 < s.closing then some { s with closing := s.closing - 1 } else none
  | .take =>
    match s.looping, s.toC with
    | true, msg :: rest => some { s with toC := rest, dispatched := s.dispatched ++ [msg] }
    | _, _ => none
  | .quit =>
    if s.looping ∧ (s.stopChanClosed ∨ s.toCClosed ∧ s.toC = []) then
      some { s with looping := false }
    else none

def Initial (s : IpcShutdown) : Prop := s = new

theorem new_initial : new.Initial := rfl

variable {s s' : IpcShutdown}

inductive Moved (s : IpcShutdown) : ShutdownEvent → IpcShutdown → Prop where
  | called (msg : Nat) : Moved s (.sendMessage msg) { s with entered := s.entered ++ [msg] }
  | rlocked {i msg : Nat} (at_ : s.entered[i]? = some msg) (free : s.body = none) :
      Moved s (.rlock i)
        { s with entered := s.entered.eraseIdx i, locked := s.locked ++ [msg] }
  | refused {i msg : Nat} (at_ : s.locked[i]? = some msg) (closed : s.stopped = true) :
      Moved s (.check i) { s with locked := s.locked.eraseIdx i }
  | checked {i msg : Nat} (at_ : s.locked[i]? = some msg) (open_ : s.stopped = false) :
      Moved s (.check i)
        { s with locked := s.locked.eraseIdx i, checked := s.checked ++ [msg] }
  | sent {i msg : Nat} (at_ : s.checked[i]? = some msg) (open_ : s.toCClosed = false)
      (room : s.toC.length < IpcServer.capacity) :
      Moved s (.offer i false) (s.returns i (s.toC ++ [msg]) (s.accepted ++ [msg]))
  | dropped {i msg : Nat} {seesStop : Bool} (at_ : s.checked[i]? = some msg) :
      Moved s (.offer i seesStop) (s.returns i s.toC s.accepted)
  | panicked {i msg : Nat} (at_ : s.checked[i]? = some msg) (closed : s.toCClosed = true) :
      Moved s (.offer i false) { s.returns i s.toC s.accepted with panics := s.panics + 1 }
  | stopCalled : Moved s .stop { s with waiting := s.waiting + 1 }
  | onceEntered (some_ : 0 < s.waiting) (free : s.body = none) (first : s.onceDone = false) :
      Moved s .enterOnce { s with waiting := s.waiting - 1, body := some .pending }
  | oncePassed (some_ : 0 < s.waiting) (done : s.onceDone = true) :
      Moved s .passOnce { s with waiting := s.waiting - 1, closing := s.closing + 1 }
  | lockTaken (at_ : s.body = some .pending) (noReader : s.locked = [] ∧ s.checked = []) :
      Moved s .lock { s with body := some .locked }
  | flagSet (at_ : s.body = some .locked) :
      Moved s .flag { s with body := some .flagged, stopped := true }
  | stopClosed (at_ : s.body = some .flagged) : Moved s .closeStop { s with
      body := some .stopClosed
      stopChanClosed := true
      panics := if s.stopChanClosed then s.panics + 1 else s.panics }
  | toCClosed (at_ : s.body = some .stopClosed) : Moved s .closeToC { s with
      body := some .bothClosed
      toCClosed := true
      panics := if s.toCClosed then s.panics + 1 else s.panics }
  | unlocked (at_ : s.body = some .bothClosed) : Moved s .unlock
      { s with body := none, onceDone := true, closing := s.closing + 1 }
  | clientsClosed (some_ : 0 < s.closing) :
      Moved s .closeClients { s with closing := s.closing - 1 }
  | taken {msg : Nat} {rest : List Nat} (runs : s.looping = true) (head : s.toC = msg :: rest) :
      Moved s .take { s with toC := rest, dispatched := s.dispatched ++ [msg] }
  | returned (runs : s.looping = true)
      (ends : s.stopChanClosed = true ∨ s.toCClosed = true ∧ s.toC = []) :
      Moved s .quit { s with looping := false }

theorem moved_of_next {e : ShutdownEvent} (moved : s.next e = some s') : Moved s e s' := by
  cases e with
  | sendMessage msg =>
    cases moved
    exact .called msg
  | rlock i =>
    obtain ⟨msg, at_, moved⟩ := Option.bind_eq_some_iff.mp moved
    split at moved
    · cases moved
      exact .rlocked at_ ‹_›
    · cases moved
  | check i =>
    obtain ⟨msg, at_, rfl⟩ := Option.map_eq_some_iff.mp moved
    by_cases closed : s.stopped = true
    · rw [if_pos closed]
      exact .refused at_ closed
    · rw [if_neg closed]
      exact .checked at_ (Bool.eq_false_iff.mpr closed)
  | offer i seesStop =>
    obtain ⟨msg, at_, moved⟩ := Option.bind_eq_some_iff.mp moved
    cases seesStop with
    | true =>
      rw [if_pos rfl] at moved
      split at moved
      · cases moved
        exact .dropped at_
      · cases moved
    | false =>
      rw [if_neg Bool.false_ne_true] at moved
      split_ifs at moved with closed room blocked
      · cases moved
        exact .panicked at_ closed
      · cases moved
        exact .sent at_ (Bool.eq_false_iff.mpr closed) room
      · cases moved
        exact .dropped at_
  | stop =>
    cases moved
    exact .stopCalled
  | enterOnce =>
    simp only [next, Option.ite_none_right_eq_some, Option.some.injEq] at moved
    obtain ⟨⟨some_, free, first⟩, rfl⟩ := moved
    exact .onceEntered some_ free first
  | passOnce =>
    simp only [next, Option.ite_none_right_eq_some, Option.some.injEq] at moved
    obtain ⟨⟨some_, done⟩, rfl⟩ := moved
    exact .oncePassed some_ done
  | lock =>
    simp only [next, Option.ite_none_right_eq_some, Option.some.injEq] at moved
    obtain ⟨⟨at_, noReader⟩, rfl⟩ := moved
    exact .lockTaken at_ noReader
  | flag =>
    simp only [next, Option.ite_none_right_eq_some, Option.some.injEq] at moved
    obtain ⟨at_, rfl⟩ := moved
    exact .flagSet at_
  | closeStop =>
    simp only [next, Option.ite_none_right_eq_some, Option.some.injEq] at moved
    obtain ⟨at_, rfl⟩ := moved
    exact .stopClosed at_
  | closeToC =>
    simp only [next, Option.ite_none_right_eq_some, Option.some.injEq] at moved
    obtain ⟨at_, rfl⟩ := moved
    exact .toCClosed at_
  | unlock =>
    simp only [next, Option.ite_none_right_eq_some, Option.some.injEq] at moved
    obtain ⟨at_, rfl⟩ := moved
    exact .unlocked at_
  | closeClients =>
    simp only [next, Option.ite_none_right_eq_some, Option.some.injEq] at moved
    obtain ⟨some_, rfl⟩ := moved
    exact .clientsClosed some_
  | take =>
    simp only [next] at moved
    split at moved
    · cases moved
      exact .taken ‹_› ‹_›
    · cases moved
  | quit =>
    simp only [next, Option.ite_none_right_eq_some, Option.some.injEq] at moved
    obtain ⟨⟨runs, ends⟩, rfl⟩ := moved
    exact .returned runs ends

def phase (s : IpcShutdown) : Bool × Bool × Bool :=
  match s.body with
  | none => (s.onceDone, s.onceDone, s.onceDone)
  | some .pending | some .locked => (false, false, false)
  | some .flagged => (true, false, false)
  | some .stopClosed => (true, true, false)
  | some .bothClosed => (true, true, true)

structure Safe (s : IpcShutdown) : Prop where
  phase : (s.stopped, s.stopChanClosed, s.toCClosed) = s.phase
  once : s.body ≠ none → s.onceDone = false
  alone : ∀ stage, s.body = some stage → stage ≠ .pending → s.locked = [] ∧ s.checked = []
  early : s.checked ≠ [] → s.stopped = false
  room : s.toC.length ≤ IpcServer.capacity
  calm : s.panics = 0
  line : s.accepted = s.dispatched ++ s.toC
  loop : s.looping = false → s.stopChanClosed = true

theorem safe_new : new.Safe where
  phase := rfl
  once none := absurd rfl none
  alone _ none := by cases none
  early none := absurd rfl none
  room := Nat.zero_le _
  calm := rfl
  line := rfl
  loop runs := by cases runs

theorem Safe.channelsOpen (safe : s.Safe) (some_ : s.checked ≠ []) :
    s.stopChanClosed = false ∧ s.toCClosed = false := by
  have phase := safe.phase
  have early := safe.early some_
  cases body : s.body with
  | none =>
    simp only [IpcShutdown.phase, body, Prod.mk.injEq] at phase
    obtain ⟨done, stop, toC⟩ := phase
    rw [← done, early] at stop toC
    exact ⟨stop, toC⟩
  | some stage =>
    by_cases waits : stage = .pending
    · subst waits
      simp only [IpcShutdown.phase, body, Prod.mk.injEq] at phase
      exact phase.2
    · exact absurd (safe.alone stage body waits).2 some_

theorem Safe.flags (safe : s.Safe) {flags : Bool × Bool × Bool} (value : s.phase = flags) :
    s.stopped = flags.1 ∧ s.stopChanClosed = flags.2.1 ∧ s.toCClosed = flags.2.2 := by
  have phase := safe.phase.trans value
  subst phase
  exact ⟨rfl, rfl, rfl⟩

theorem Safe.order (safe : s.Safe) (closed : s.toCClosed = true) : s.stopChanClosed = true := by
  have phase := safe.phase
  cases body : s.body with
  | none =>
    simp only [IpcShutdown.phase, body, Prod.mk.injEq] at phase
    rw [phase.2.1, ← phase.2.2, closed]
  | some stage =>
    cases stage <;> simp_all [IpcShutdown.phase]

theorem ne_nil_of_eraseIdx {l : List Nat} {i : Nat} (some_ : l.eraseIdx i ≠ []) : l ≠ [] := by
  rintro rfl
  exact some_ rfl

theorem Safe.returns (safe : s.Safe) (i : Nat) {toC accepted : List Nat}
    (room : toC.length ≤ IpcServer.capacity) (line : accepted = s.dispatched ++ toC) :
    (s.returns i toC accepted).Safe where
  phase := safe.phase
  once := safe.once
  alone stage at_ held := by
    obtain ⟨none, none'⟩ := safe.alone stage at_ held
    refine ⟨none, ?_⟩
    simp only [IpcShutdown.returns, none', List.eraseIdx_nil]
  early some_ := safe.early (ne_nil_of_eraseIdx some_)
  room := room
  calm := safe.calm
  line := line
  loop := safe.loop

theorem safe_next {e : ShutdownEvent} (safe : s.Safe) (moved : s.next e = some s') : s'.Safe := by
  cases moved_of_next moved with
  | called | stopCalled | oncePassed | clientsClosed => exact { safe with }
  | rlocked at_ free =>
    exact { safe with alone := fun stage other _ => absurd (free.symm.trans other) nofun }
  | refused at_ =>
    refine { safe with alone := fun stage other held => ?_ }
    obtain ⟨none, none'⟩ := safe.alone stage other held
    exact ⟨by simp only [none, List.eraseIdx_nil], none'⟩
  | checked at_ open_ =>
    refine { safe with
      alone := fun stage other held => ?_
      early := fun _ => open_ }
    rw [(safe.alone stage other held).1] at at_
    cases at_
  | sent at_ open_ room =>
    refine safe.returns _ ?_ ?_
    · rw [List.length_append]
      exact room
    · rw [safe.line, List.append_assoc]
  | dropped => exact safe.returns _ safe.room safe.line
  | panicked at_ closed =>
    have some_ : s.checked ≠ [] := by
      intro none
      rw [none] at at_
      cases at_
    rw [(safe.channelsOpen some_).2] at closed
    cases closed
  | onceEntered some_ free first =>
    have phase := safe.phase
    simp only [IpcShutdown.phase, free, first] at phase
    exact { safe with
      phase := phase
      once := fun _ => first
      alone := fun stage own held => absurd (Option.some.inj own).symm held }
  | lockTaken at_ noReader =>
    have phase := safe.phase
    simp only [IpcShutdown.phase, at_] at phase
    exact { safe with
      phase := phase
      once := fun _ => safe.once (by rw [at_]; nofun)
      alone := fun _ _ _ => noReader }
  | flagSet at_ =>
    obtain ⟨-, stop, toC⟩ := safe.flags (by rw [IpcShutdown.phase, at_])
    have alone := safe.alone _ at_ nofun
    exact { safe with
      phase := by rw [stop, toC]; rfl
      once := fun _ => safe.once (by rw [at_]; nofun)
      alone := fun _ _ _ => alone
      early := fun some_ => absurd alone.2 some_ }
  | stopClosed at_ =>
    obtain ⟨flag, stop, toC⟩ := safe.flags (by rw [IpcShutdown.phase, at_])
    exact { safe with
      phase := by rw [flag, toC]; rfl
      once := fun _ => safe.once (by rw [at_]; nofun)
      alone := fun _ _ _ => safe.alone _ at_ nofun
      calm := by rw [stop]; exact safe.calm
      loop := fun _ => rfl }
  | toCClosed at_ =>
    obtain ⟨flag, stop, toC⟩ := safe.flags (by rw [IpcShutdown.phase, at_])
    exact { safe with
      phase := by rw [flag, stop]; rfl
      once := fun _ => safe.once (by rw [at_]; nofun)
      alone := fun _ _ _ => safe.alone _ at_ nofun
      calm := by rw [toC]; exact safe.calm }
  | unlocked at_ =>
    obtain ⟨flag, stop, toC⟩ := safe.flags (by rw [IpcShutdown.phase, at_])
    exact { safe with
      phase := by rw [flag, stop, toC]; rfl
      once := fun none => absurd rfl none
      alone := fun _ none => by cases none }
  | taken runs head =>
    have room := safe.room
    rw [head] at room
    exact { safe with
      room := Nat.le_of_succ_le room
      line := by rw [safe.line, head, List.append_assoc]; rfl }
  | returned runs ends =>
    refine { safe with loop := fun _ => ?_ }
    rcases ends with stop | ⟨toC, -⟩
    · exact stop
    · exact safe.order toC

theorem safe_reach (reached : Reach Initial (Runs next) s) : s.Safe := by
  refine reach_invariant Safe ?_ ?_ reached
  · rintro s rfl
    exact safe_new
  · intro s e s' safe moved
    exact safe_next safe moved

theorem frozen_next {e : ShutdownEvent} (safe : s.Safe) (closed : s.stopped = true)
    (moved : s.next e = some s') : s'.stopped = true ∧ s'.accepted = s.accepted := by
  cases moved_of_next moved with
  | sent at_ =>
    have none : s.checked = [] := by
      by_contra some_
      rw [safe.early some_] at closed
      cases closed
    rw [none] at at_
    cases at_
  | flagSet => exact ⟨rfl, rfl⟩
  | _ => exact ⟨closed, rfl⟩

section Working

def StopStage.work : StopStage → Nat
  | .pending => 6
  | .locked => 5
  | .flagged => 4
  | .stopClosed => 3
  | .bothClosed => 2

def work (s : IpcShutdown) : Nat :=
  4 * s.entered.length + 3 * s.locked.length + 2 * s.checked.length + 7 * s.waiting +
    (s.body.elim 0 StopStage.work) + s.closing + s.toC.length + s.looping.toNat

def Works : IpcShutdown → ShutdownEvent → IpcShutdown → Prop :=
  Guarded (Runs next) (fun _ e => e.works = true)

theorem length_at {l : List Nat} {i msg : Nat} (at_ : l[i]? = some msg) :
    (l.eraseIdx i).length + 1 = l.length := by
  obtain ⟨bound, -⟩ := List.getElem?_eq_some_iff.mp at_
  rw [List.length_eraseIdx_of_lt bound]
  omega

theorem work_next {e : ShutdownEvent} (moved : Works s e s') : s'.work < s.work := by
  obtain ⟨moved, works⟩ := moved
  unfold work
  cases moved_of_next moved with
  | called | stopCalled => cases works
  | rlocked at_ | refused at_ | checked at_ =>
    have one := length_at at_
    simp only [List.length_append, List.length_singleton]
    omega
  | sent at_ | dropped at_ | panicked at_ =>
    have one := length_at at_
    simp only [returns, List.length_append, List.length_singleton]
    omega
  | onceEntered some_ free =>
    simp only [free, Option.elim_none, Option.elim_some, StopStage.work]
    omega
  | oncePassed some_ =>
    simp only
    omega
  | lockTaken at_ | flagSet at_ | stopClosed at_ | toCClosed at_ | unlocked at_ =>
    simp only [at_, Option.elim_none, Option.elim_some, StopStage.work]
    omega
  | clientsClosed some_ =>
    simp only
    omega
  | taken runs head =>
    simp only [head, List.length_cons]
    omega
  | returned runs =>
    simp only [runs, Bool.toNat_true, Bool.toNat_false]
    omega

theorem works_of_isSome (e : ShutdownEvent) (works : e.works = true)
    (enabled : (s.next e).isSome) : ∃ e s', Works s e s' := by
  obtain ⟨s', moved⟩ := Option.isSome_iff_exists.mp enabled
  exact ⟨e, s', moved, works⟩

structure Done (s : IpcShutdown) : Prop where
  sends : s.entered = [] ∧ s.locked = [] ∧ s.checked = []
  stops : s.waiting = 0 ∧ s.body = none ∧ s.closing = 0
  loop : s.looping = !s.onceDone
  queue : s.onceDone = false → s.toC = []

theorem sends_work (safe : s.Safe) (some_ : s.locked ≠ [] ∨ s.checked ≠ []) :
    ∃ e s', Works s e s' := by
  rcases some_ with locked | checked
  · obtain ⟨msg, rest, head⟩ := List.exists_cons_of_ne_nil locked
    exact works_of_isSome (.check 0) rfl (by simp [next, head])
  · obtain ⟨msg, rest, head⟩ := List.exists_cons_of_ne_nil checked
    obtain ⟨stop, toC⟩ := safe.channelsOpen checked
    refine works_of_isSome (.offer 0 false) rfl ?_
    by_cases room : s.toC.length < IpcServer.capacity <;> simp [next, head, stop, toC, room]

theorem body_works {stage : StopStage} (at_ : s.body = some stage)
    (noReader : s.locked = [] ∧ s.checked = []) : ∃ e s', Works s e s' := by
  cases stage with
  | pending => exact works_of_isSome .lock rfl (by simp [next, at_, noReader])
  | locked => exact works_of_isSome .flag rfl (by simp [next, at_])
  | flagged => exact works_of_isSome .closeStop rfl (by simp [next, at_])
  | stopClosed => exact works_of_isSome .closeToC rfl (by simp [next, at_])
  | bothClosed => exact works_of_isSome .unlock rfl (by simp [next, at_])

theorem done_of_stuck (safe : s.Safe) (stuck : ∀ e s', ¬ Works s e s') : s.Done := by
  have idle : ∀ (e : ShutdownEvent), e.works = true → s.next e = none := by
    intro e works
    by_contra some_
    obtain ⟨e, s', moved⟩ := works_of_isSome e works (Option.isSome_iff_ne_none.mpr some_)
    exact stuck e s' moved
  have noReader : s.locked = [] ∧ s.checked = [] := by
    by_contra some_
    obtain ⟨e, s', moved⟩ := sends_work safe (Decidable.not_and_iff_not_or_not.mp some_)
    exact stuck e s' moved
  have noBody : s.body = none := by
    cases at_ : s.body with
    | none => rfl
    | some stage =>
      obtain ⟨e, s', moved⟩ := body_works at_ noReader
      exact absurd moved (stuck e s')
  have noCall : s.entered = [] := by
    cases head : s.entered with
    | nil => rfl
    | cons msg rest => exact absurd (idle (.rlock 0) rfl) (by simp [next, head, noBody])
  have noWaiting : s.waiting = 0 := by
    by_contra some_
    have pos := Nat.pos_of_ne_zero some_
    cases done : s.onceDone with
    | true => exact absurd (idle .passOnce rfl) (by simp [next, pos, done])
    | false => exact absurd (idle .enterOnce rfl) (by simp [next, pos, done, noBody])
  have noClosing : s.closing = 0 := by
    by_contra some_
    exact absurd (idle .closeClients rfl) (by simp [next, Nat.pos_of_ne_zero some_])
  have closed : s.stopChanClosed = s.onceDone := by
    have phase := safe.phase
    simp only [IpcShutdown.phase, noBody, Prod.mk.injEq] at phase
    exact phase.2.1
  refine ⟨⟨noCall, noReader⟩, ⟨noWaiting, noBody, noClosing⟩, ?_, ?_⟩
  · cases runs : s.looping with
    | true =>
      cases done : s.onceDone with
      | true => exact absurd (idle .quit rfl) (by simp [next, runs, closed, done])
      | false => rfl
    | false =>
      rw [← closed, safe.loop runs]
      rfl
  · intro notDone
    have runs : s.looping = true := by
      by_contra ended
      have stop := safe.loop (Bool.eq_false_iff.mpr ended)
      rw [closed, notDone] at stop
      cases stop
    cases head : s.toC with
    | nil => rfl
    | cons msg rest => exact absurd (idle .take rfl) (by simp [next, runs, head])

end Working

end IpcShutdown

section Results

variable {s : IpcShutdown}

/-- However many calls of SendMessage and Stop overlap, nothing is sent on a closed channel,
no channel is closed twice, and what went into it is what came out and what is in it. -/
theorem ipc_shutdown_safe (reached : Reach IpcShutdown.Initial (Runs IpcShutdown.next) s) :
    s.panics = 0 ∧ s.toC.length ≤ 100 ∧ s.accepted = s.dispatched ++ s.toC ∧
      (s.stopped = true → ∀ events s', Path (Runs IpcShutdown.next) s events s' →
        s'.accepted = s.accepted) := by
  have safe := IpcShutdown.safe_reach reached
  refine ⟨safe.calm, safe.room, safe.line, fun closed events s' path => ?_⟩
  have frozen : s'.Safe ∧ s'.stopped = true ∧ s'.accepted = s.accepted := by
    refine path.invariant (I := fun t => t.Safe ∧ t.stopped = true ∧ t.accepted = s.accepted) ?_
      ⟨safe, closed, rfl⟩
    rintro t e t' ⟨safe, closed, same⟩ moved
    obtain ⟨closed', same'⟩ := IpcShutdown.frozen_next safe closed moved
    exact ⟨IpcShutdown.safe_next safe moved, closed', same'.trans same⟩
  exact frozen.2.2

def crowdedStop : List ShutdownEvent :=
  [.sendMessage 1, .rlock 0, .check 0, .offer 0 false, .sendMessage 2, .rlock 0, .check 0,
    .sendMessage 3, .stop, .stop, .enterOnce]

def stoppedRun : List ShutdownEvent :=
  crowdedStop ++ [.offer 0 false, .lock, .flag, .closeStop, .closeToC, .unlock, .rlock 0, .check 0]

theorem ipc_shutdown_safe_stoppedRun : ∃ s : IpcShutdown, s.stopped = true ∧
    s.accepted = [1, 2] ∧ s.panics = 0 := by
  obtain ⟨s, reached, closed, accepted⟩ := reach_of_replay IpcShutdown.next
    (fun _ _ => True) (.start IpcShutdown.new_initial) stoppedRun
    (fun s => s.stopped = true ∧ s.accepted = [1, 2]) (by decide)
  exact ⟨s, closed, accepted,
    (ipc_shutdown_safe (reach_mono (fun _ _ _ step => step.1) reached)).1⟩

/-- Where nothing new is called, the steps that are left are bounded, and they lead to a
state in which all calls have returned, and the loop if and only if the server was stopped;
if it was not, every message that was accepted has been handed on. -/
theorem ipc_shutdown_completes (reached : Reach IpcShutdown.Initial (Runs IpcShutdown.next) s) :
    (∃ events s', Path IpcShutdown.Works s events s' ∧
      ∀ e s'', ¬ IpcShutdown.Works s' e s'') ∧
    ∀ events s', Path IpcShutdown.Works s events s' →
      events.length ≤ s.work ∧ ((∀ e s'', ¬ IpcShutdown.Works s' e s'') → s'.Done) := by
  have keep : ∀ s e t, s.Safe → IpcShutdown.Works s e t → t.Safe :=
    fun _ _ _ safe moved => IpcShutdown.safe_next safe moved.1
  have lower : ∀ s e t, s.Safe → IpcShutdown.Works s e t → t.work < s.work :=
    fun _ _ _ _ moved => IpcShutdown.work_next moved
  have safe := IpcShutdown.safe_reach reached
  refine ⟨Path.exists_stuck keep IpcShutdown.work lower safe, fun events s' path => ?_⟩
  refine ⟨path.length_le keep IpcShutdown.work lower safe, fun stuck => ?_⟩
  exact IpcShutdown.done_of_stuck (path.invariant keep safe) stuck

theorem ipc_shutdown_completes_crowdedStop : ∃ s s' : IpcShutdown, s.waiting = 1 ∧
    s.checked = [2] ∧ s.entered = [3] ∧ s'.Done := by
  obtain ⟨s, reached, facts⟩ := reach_of_replay IpcShutdown.next
    (fun _ _ => True) (.start IpcShutdown.new_initial) crowdedStop
    (fun s => s.waiting = 1 ∧ s.checked = [2] ∧ s.entered = [3]) (by decide)
  obtain ⟨⟨events, s', path, stuck⟩, all⟩ :=
    ipc_shutdown_completes (reach_mono (fun _ _ _ step => step.1) reached)
  exact ⟨s, s', facts.1, facts.2.1, facts.2.2, (all events s' path).2 stuck⟩

end Results

end P2PSync
