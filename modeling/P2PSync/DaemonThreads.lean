import Mathlib.Data.List.Nodup
import P2PSync.Library.Progress

/-! The threads of the daemon and the three mutexes of its IPC client. A call of connect
locks for sending before it locks for receiving, and a receive that fails locks the
other way round. A section under the mutex of the state is one step, except in connect,
which opens the socket there. -/
namespace P2PSync

open Transition

inductive DaemonThread where
  | ipc | watcher | main
  deriving DecidableEq, Repr

/-- Where the IPC thread is; the name of a stage that ends in a mutex says what it waits for. -/
inductive IpcStage where
  | outer | check | inner
  | connectSend | connectRecv | connectState | connectOpen
  | receiveRecv | receiveState | reading (fd : Nat)
  /-- Inside disconnectOnError. -/
  | errorSend | errorState
  | exited
  deriving DecidableEq, Repr

inductive WatcherStage where
  | idle | sendSend | sendState | writing (fd : Nat) | stopped
  deriving DecidableEq, Repr

inductive MainStage where
  | waiting | stopWatcher | joinIpc
  | disconnectSend | disconnectRecv | disconnectState | done
  deriving DecidableEq, Repr

namespace IpcStage

def holdsSend : IpcStage → Bool
  | .connectRecv | .connectState | .connectOpen | .errorState => true
  | _ => false

def holdsRecv : IpcStage → Bool
  | .connectState | .connectOpen | .receiveState | .reading _ | .errorSend | .errorState => true
  | _ => false

end IpcStage

def WatcherStage.holdsSend : WatcherStage → Bool
  | .sendState | .writing _ => true
  | _ => false

namespace MainStage

def holdsSend : MainStage → Bool
  | .disconnectRecv | .disconnectState => true
  | _ => false

def afterWatcher : MainStage → Bool
  | .waiting | .stopWatcher => false
  | _ => true

def afterIpc : MainStage → Bool
  | .waiting | .stopWatcher | .joinIpc => false
  | _ => true

theorem afterIpc_of_afterWatcher {m : MainStage} (before : m.afterWatcher = false) :
    m.afterIpc = false := by
  cases m <;> first | rfl | cases before

theorem early {m : MainStage} (early : m.afterIpc = false) :
    m.holdsSend = false ∧ m ≠ .disconnectState := by
  cases m <;> first | exact ⟨rfl, nofun⟩ | cases early

end MainStage

structure DaemonThreads where
  sendMutex : Option DaemonThread
  recvMutex : Option DaemonThread
  stateMutex : Option DaemonThread
  socketFd : Option Nat
  opened : Nat
  closed : List Nat
  shutdown : Bool
  ipc : IpcStage
  watcher : WatcherStage
  batch : Nat
  main : MainStage
  deriving DecidableEq, Repr

inductive DaemonEvent where
  | signal
  /-- The IPC thread goes on; its call of the operating system succeeds or fails. -/
  | ipc (ok : Bool)
  /-- The watcher's thread goes on; where it reads events, it gets one and so many more. -/
  | watcher (more : Nat)
  | main
  deriving DecidableEq, Repr

namespace DaemonThreads

def new : DaemonThreads := ⟨none, none, none, none, 0, [], false, .outer, .idle, 0, .waiting⟩

def disconnectLocked (s : DaemonThreads) : DaemonThreads :=
  { s with socketFd := none, closed := s.socketFd.toList ++ s.closed }

def stepIpc (s : DaemonThreads) (ok : Bool) : Option DaemonThreads :=
  match s.ipc with
  | .outer => if s.shutdown then some { s with ipc := .exited } else some { s with ipc := .check }
  | .check =>
    if s.stateMutex = none then
      match s.socketFd with
      | some _ => some { s with ipc := .inner }
      | none => some { s with ipc := .connectSend }
    else none
  | .inner =>
    if s.stateMutex = none then
      if s.socketFd.isSome && !s.shutdown then some { s with ipc := .receiveRecv }
      else some { s with ipc := .outer }
    else none
  | .connectSend =>
    if s.sendMutex = none then some { s with sendMutex := some .ipc, ipc := .connectRecv } else none
  | .connectRecv =>
    if s.recvMutex = none then some { s with recvMutex := some .ipc, ipc := .connectState } else none
  | .connectState =>
    if s.stateMutex = none then
      some { s.disconnectLocked with stateMutex := some .ipc, ipc := .connectOpen }
    else none
  | .connectOpen =>
    let s' := { s with sendMutex := none, recvMutex := none, stateMutex := none }
    if ok then some { s' with socketFd := some s.opened, opened := s.opened + 1, ipc := .inner }
    else some { s' with opened := s.opened + 1, closed := s.opened :: s.closed, ipc := .outer }
  | .receiveRecv =>
    if s.recvMutex = none then some { s with recvMutex := some .ipc, ipc := .receiveState } else none
  | .receiveState =>
    if s.stateMutex = none then
      match s.socketFd with
      | some fd => some { s with ipc := .reading fd }
      | none => some { s with recvMutex := none, ipc := .inner }
    else none
  -- a message, a time limit and a bad length all leave the connection as it is
  | .reading _ =>
    if ok then some { s with recvMutex := none, ipc := .inner } else some { s with ipc := .errorSend }
  | .errorSend =>
    if s.sendMutex = none then some { s with sendMutex := some .ipc, ipc := .errorState } else none
  | .errorState =>
    if s.stateMutex = none then
      some { s.disconnectLocked with sendMutex := none, recvMutex := none, ipc := .inner }
    else none
  | .exited => none

def stepWatcher (s : DaemonThreads) (more : Nat) : Option DaemonThreads :=
  match s.watcher with
  | .idle =>
    if 0 < s.batch then
      if s.stateMutex = none then
        match s.socketFd with
        | some _ => some { s with batch := s.batch - 1, watcher := .sendSend }
        | none => some { s with batch := s.batch - 1 }
      else none
    else if s.main = .waiting then some { s with batch := more + 1 }
    else some { s with watcher := .stopped }
  | .sendSend =>
    if s.sendMutex = none then some { s with sendMutex := some .watcher, watcher := .sendState }
    else none
  | .sendState =>
    if s.stateMutex = none then
      match s.socketFd with
      | some fd => some { s with watcher := .writing fd }
      | none => some { s with sendMutex := none, watcher := .idle }
    else none
  | .writing _ => some { s with sendMutex := none, watcher := .idle }
  | .stopped => none

def stepMain (s : DaemonThreads) : Option DaemonThreads :=
  match s.main with
  | .waiting => if s.shutdown then some { s with main := .stopWatcher } else none
  | .stopWatcher => if s.watcher = .stopped then some { s with main := .joinIpc } else none
  | .joinIpc => if s.ipc = .exited then some { s with main := .disconnectSend } else none
  | .disconnectSend =>
    if s.sendMutex = none then some { s with sendMutex := some .main, main := .disconnectRecv }
    else none
  | .disconnectRecv =>
    if s.recvMutex = none then some { s with recvMutex := some .main, main := .disconnectState }
    else none
  | .disconnectState =>
    if s.stateMutex = none then
      some { s.disconnectLocked with sendMutex := none, recvMutex := none, main := .done }
    else none
  | .done => none

def next (s : DaemonThreads) : DaemonEvent → Option DaemonThreads
  | .signal => some { s with shutdown := true }
  | .ipc ok => s.stepIpc ok
  | .watcher more => s.stepWatcher more
  | .main => s.stepMain

def Initial (s : DaemonThreads) : Prop := s = new

theorem new_initial : new.Initial := rfl

inductive Moved (s : DaemonThreads) : DaemonEvent → DaemonThreads → Prop where
  | signal : Moved s .signal { s with shutdown := true }
  | exits {ok : Bool} (at_ : s.ipc = .outer) (flag : s.shutdown = true) :
      Moved s (.ipc ok) { s with ipc := .exited }
  | goesOn {ok : Bool} (at_ : s.ipc = .outer) (flag : s.shutdown = false) :
      Moved s (.ipc ok) { s with ipc := .check }
  | connected {ok : Bool} {fd : Nat} (at_ : s.ipc = .check) (free : s.stateMutex = none)
      (socket : s.socketFd = some fd) : Moved s (.ipc ok) { s with ipc := .inner }
  | connects {ok : Bool} (at_ : s.ipc = .check) (free : s.stateMutex = none)
      (socket : s.socketFd = none) : Moved s (.ipc ok) { s with ipc := .connectSend }
  | receives {ok : Bool} (at_ : s.ipc = .inner) (free : s.stateMutex = none)
      (flag : s.shutdown = false) : Moved s (.ipc ok) { s with ipc := .receiveRecv }
  | leaves {ok : Bool} (at_ : s.ipc = .inner) (free : s.stateMutex = none) :
      Moved s (.ipc ok) { s with ipc := .outer }
  | connectLocksSend {ok : Bool} (at_ : s.ipc = .connectSend) (free : s.sendMutex = none) :
      Moved s (.ipc ok) { s with sendMutex := some .ipc, ipc := .connectRecv }
  | connectLocksRecv {ok : Bool} (at_ : s.ipc = .connectRecv) (free : s.recvMutex = none) :
      Moved s (.ipc ok) { s with recvMutex := some .ipc, ipc := .connectState }
  | connectLocksState {ok : Bool} (at_ : s.ipc = .connectState) (free : s.stateMutex = none) :
      Moved s (.ipc ok)
        { s.disconnectLocked with stateMutex := some .ipc, ipc := .connectOpen }
  | opens (at_ : s.ipc = .connectOpen) : Moved s (.ipc true)
      { s with
        sendMutex := none, recvMutex := none, stateMutex := none
        socketFd := some s.opened, opened := s.opened + 1, ipc := .inner }
  | refused (at_ : s.ipc = .connectOpen) : Moved s (.ipc false)
      { s with
        sendMutex := none, recvMutex := none, stateMutex := none
        opened := s.opened + 1, closed := s.opened :: s.closed, ipc := .outer }
  | receiveLocks {ok : Bool} (at_ : s.ipc = .receiveRecv) (free : s.recvMutex = none) :
      Moved s (.ipc ok) { s with recvMutex := some .ipc, ipc := .receiveState }
  | reads {ok : Bool} {fd : Nat} (at_ : s.ipc = .receiveState) (free : s.stateMutex = none)
      (socket : s.socketFd = some fd) : Moved s (.ipc ok) { s with ipc := .reading fd }
  | noSocket {ok : Bool} (at_ : s.ipc = .receiveState) (free : s.stateMutex = none) :
      Moved s (.ipc ok) { s with recvMutex := none, ipc := .inner }
  | received {fd : Nat} (at_ : s.ipc = .reading fd) :
      Moved s (.ipc true) { s with recvMutex := none, ipc := .inner }
  | readFailed {fd : Nat} (at_ : s.ipc = .reading fd) :
      Moved s (.ipc false) { s with ipc := .errorSend }
  | errorLocks {ok : Bool} (at_ : s.ipc = .errorSend) (free : s.sendMutex = none) :
      Moved s (.ipc ok) { s with sendMutex := some .ipc, ipc := .errorState }
  | errorCloses {ok : Bool} (at_ : s.ipc = .errorState) (free : s.stateMutex = none) :
      Moved s (.ipc ok)
        { s.disconnectLocked with sendMutex := none, recvMutex := none, ipc := .inner }
  | reports {more fd : Nat} (at_ : s.watcher = .idle) (some_ : 0 < s.batch)
      (free : s.stateMutex = none) (socket : s.socketFd = some fd) :
      Moved s (.watcher more) { s with batch := s.batch - 1, watcher := .sendSend }
  | drops {more : Nat} (at_ : s.watcher = .idle) (some_ : 0 < s.batch)
      (free : s.stateMutex = none) : Moved s (.watcher more) { s with batch := s.batch - 1 }
  | watches {more : Nat} (at_ : s.watcher = .idle) (main : s.main = .waiting) :
      Moved s (.watcher more) { s with batch := more + 1 }
  | stops {more : Nat} (at_ : s.watcher = .idle) (main : s.main ≠ .waiting) :
      Moved s (.watcher more) { s with watcher := .stopped }
  | sendLocks {more : Nat} (at_ : s.watcher = .sendSend) (free : s.sendMutex = none) :
      Moved s (.watcher more) { s with sendMutex := some .watcher, watcher := .sendState }
  | writes {more fd : Nat} (at_ : s.watcher = .sendState) (free : s.stateMutex = none)
      (socket : s.socketFd = some fd) : Moved s (.watcher more) { s with watcher := .writing fd }
  | sendEnds {more : Nat} (at_ : s.watcher.holdsSend = true) :
      Moved s (.watcher more) { s with sendMutex := none, watcher := .idle }
  | stopsWatcher (at_ : s.main = .waiting) (flag : s.shutdown = true) :
      Moved s .main { s with main := .stopWatcher }
  | joinsWatcher (at_ : s.main = .stopWatcher) (ended : s.watcher = .stopped) :
      Moved s .main { s with main := .joinIpc }
  | joinsIpc (at_ : s.main = .joinIpc) (ended : s.ipc = .exited) :
      Moved s .main { s with main := .disconnectSend }
  | disconnectLocksSend (at_ : s.main = .disconnectSend) (free : s.sendMutex = none) :
      Moved s .main { s with sendMutex := some .main, main := .disconnectRecv }
  | disconnectLocksRecv (at_ : s.main = .disconnectRecv) (free : s.recvMutex = none) :
      Moved s .main { s with recvMutex := some .main, main := .disconnectState }
  | disconnects (at_ : s.main = .disconnectState) (free : s.stateMutex = none) :
      Moved s .main
        { s.disconnectLocked with sendMutex := none, recvMutex := none, main := .done }

variable {s s' : DaemonThreads} {event : DaemonEvent}

theorem moved_of_stepIpc {ok : Bool} (moved : s.stepIpc ok = some s') : Moved s (.ipc ok) s' := by
  unfold stepIpc at moved
  split at moved
  case h_1 at_ =>
    split at moved <;> cases moved
    · exact .exits at_ ‹_›
    · exact .goesOn at_ (Bool.eq_false_iff.mpr ‹_›)
  case h_2 at_ =>
    split at moved
    · split at moved <;> cases moved
      · exact .connected at_ ‹_› ‹_›
      · exact .connects at_ ‹_› ‹_›
    · cases moved
  case h_3 at_ =>
    split at moved
    · split at moved <;> cases moved
      · rename_i able
        exact .receives at_ ‹_› (by simpa using (Bool.and_eq_true_iff.mp able).2)
      · exact .leaves at_ ‹_›
    · cases moved
  case h_4 at_ =>
    split at moved <;> cases moved
    exact .connectLocksSend at_ ‹_›
  case h_5 at_ =>
    split at moved <;> cases moved
    exact .connectLocksRecv at_ ‹_›
  case h_6 at_ =>
    split at moved <;> cases moved
    exact .connectLocksState at_ ‹_›
  case h_7 at_ =>
    cases ok <;> cases moved
    · exact .refused at_
    · exact .opens at_
  case h_8 at_ =>
    split at moved <;> cases moved
    exact .receiveLocks at_ ‹_›
  case h_9 at_ =>
    split at moved
    · split at moved <;> cases moved
      · exact .reads at_ ‹_› ‹_›
      · exact .noSocket at_ ‹_›
    · cases moved
  case h_10 at_ =>
    cases ok <;> cases moved
    · exact .readFailed at_
    · exact .received at_
  case h_11 at_ =>
    split at moved <;> cases moved
    exact .errorLocks at_ ‹_›
  case h_12 at_ =>
    split at moved <;> cases moved
    exact .errorCloses at_ ‹_›
  case h_13 => cases moved

theorem moved_of_stepWatcher {more : Nat} (moved : s.stepWatcher more = some s') :
    Moved s (.watcher more) s' := by
  unfold stepWatcher at moved
  split at moved
  case h_1 at_ =>
    split at moved
    · split at moved
      · split at moved <;> cases moved
        · exact .reports at_ ‹_› ‹_› ‹_›
        · exact .drops at_ ‹_› ‹_›
      · cases moved
    · split at moved <;> cases moved
      · exact .watches at_ ‹_›
      · exact .stops at_ ‹_›
  case h_2 at_ =>
    split at moved <;> cases moved
    exact .sendLocks at_ ‹_›
  case h_3 at_ =>
    split at moved
    · split at moved <;> cases moved
      · exact .writes at_ ‹_› ‹_›
      · exact .sendEnds (by rw [at_]; rfl)
    · cases moved
  case h_4 at_ =>
    cases moved
    exact .sendEnds (by rw [at_]; rfl)
  case h_5 => cases moved

theorem moved_of_stepMain (moved : s.stepMain = some s') : Moved s .main s' := by
  unfold stepMain at moved
  split at moved
  case h_1 at_ =>
    split at moved <;> cases moved
    exact .stopsWatcher at_ ‹_›
  case h_2 at_ =>
    split at moved <;> cases moved
    exact .joinsWatcher at_ ‹_›
  case h_3 at_ =>
    split at moved <;> cases moved
    exact .joinsIpc at_ ‹_›
  case h_4 at_ =>
    split at moved <;> cases moved
    exact .disconnectLocksSend at_ ‹_›
  case h_5 at_ =>
    split at moved <;> cases moved
    exact .disconnectLocksRecv at_ ‹_›
  case h_6 at_ =>
    split at moved <;> cases moved
    exact .disconnects at_ ‹_›
  case h_7 => cases moved

theorem moved_of_next (moved : s.next event = some s') : Moved s event s' := by
  cases event with
  | signal =>
    cases moved
    exact .signal
  | ipc ok => exact moved_of_stepIpc moved
  | watcher more => exact moved_of_stepWatcher moved
  | main => exact moved_of_stepMain moved

structure Owned (s : DaemonThreads) : Prop where
  send : s.sendMutex = if s.ipc.holdsSend then some .ipc else if s.watcher.holdsSend then
    some .watcher else if s.main.holdsSend then some .main else none
  recv : s.recvMutex = if s.ipc.holdsRecv then some .ipc else if s.main = .disconnectState then
    some .main else none
  state : s.stateMutex = if s.ipc = .connectOpen then some .ipc else none
  alone : s.ipc.holdsSend = true → s.watcher.holdsSend = false
  stopping : s.main ≠ .waiting → s.shutdown = true
  stopped : s.main.afterWatcher = true → s.watcher = .stopped
  exited : s.main.afterIpc = true → s.ipc = .exited

theorem Owned.early (owned : s.Owned) (active : s.ipc ≠ .exited) : s.main.afterIpc = false :=
  Bool.eq_false_iff.mpr fun late => active (owned.exited late)

structure Locks (s : DaemonThreads) : Prop where
  send : s.sendMutex = if s.ipc.holdsSend then some .ipc else if s.watcher.holdsSend then
    some .watcher else none
  recv : s.recvMutex = if s.ipc.holdsRecv then some .ipc else none
  state : s.stateMutex = if s.ipc = .connectOpen then some .ipc else none
  alone : s.ipc.holdsSend = true → s.watcher.holdsSend = false

theorem Owned.locks (owned : s.Owned) (early : s.main.afterIpc = false) : s.Locks := by
  obtain ⟨idle, other⟩ := MainStage.early early
  obtain ⟨send, recv, state, alone⟩ := owned
  simp only [idle, other, if_false, Bool.false_eq_true] at send recv
  exact ⟨send, recv, state, alone⟩

theorem Locks.owned (locks : s.Locks) (early : s.main.afterIpc = false)
    (stopping : s.main ≠ .waiting → s.shutdown = true)
    (stopped : s.main.afterWatcher = true → s.watcher = .stopped) : s.Owned := by
  obtain ⟨idle, other⟩ := MainStage.early early
  refine ⟨?_, ?_, locks.state, locks.alone, stopping, stopped, fun late => ?_⟩
  · simp only [idle, if_false, Bool.false_eq_true]
    exact locks.send
  · simp only [other, if_false]
    exact locks.recv
  · cases early.symm.trans late

theorem locks_ipc {ok : Bool} (locks : s.Locks) (moved : s.Moved (.ipc ok) s') : s'.Locks := by
  obtain ⟨send, recv, state, alone⟩ := locks
  cases moved <;> constructor <;>
    simp_all [IpcStage.holdsSend, IpcStage.holdsRecv, disconnectLocked]

theorem locks_watcher {more : Nat} (locks : s.Locks) (moved : s.Moved (.watcher more) s') :
    s'.Locks := by
  obtain ⟨send, recv, state, alone⟩ := locks
  cases moved <;> constructor <;> simp_all [WatcherStage.holdsSend]

theorem ipc_frame {ok : Bool} (moved : s.Moved (.ipc ok) s') : s.ipc ≠ .exited ∧
    s'.main = s.main ∧ s'.watcher = s.watcher ∧ s'.shutdown = s.shutdown ∧ s'.batch = s.batch := by
  cases moved <;> refine ⟨?_, rfl, rfl, rfl, rfl⟩ <;> simp_all

theorem watcher_frame {more : Nat} (moved : s.Moved (.watcher more) s') : s.watcher ≠ .stopped ∧
    s'.main = s.main ∧ s'.ipc = s.ipc ∧ s'.shutdown = s.shutdown ∧ s'.socketFd = s.socketFd ∧
    s'.opened = s.opened ∧ s'.closed = s.closed := by
  cases moved <;> refine ⟨?_, rfl, rfl, rfl, rfl, rfl, rfl⟩ <;> simp_all [WatcherStage.holdsSend]
  rintro stopped
  simp_all

theorem owned_main (owned : s.Owned) (moved : s.Moved .main s') : s'.Owned := by
  obtain ⟨send, recv, state, alone, stopping, stopped, exited⟩ := owned
  cases moved <;> constructor <;>
    simp_all [MainStage.holdsSend, MainStage.afterWatcher, MainStage.afterIpc, disconnectLocked,
      IpcStage.holdsSend, IpcStage.holdsRecv, WatcherStage.holdsSend]

theorem owned_next (owned : s.Owned) (moved : s.next event = some s') : s'.Owned := by
  cases event with
  | signal =>
    cases moved
    exact { owned with stopping := fun _ => rfl }
  | ipc ok =>
    have moved := moved_of_next moved
    obtain ⟨active, main, watcher, shutdown, -⟩ := ipc_frame moved
    have early := owned.early active
    refine (locks_ipc (owned.locks early) moved).owned (main ▸ early) ?_ ?_
    · rw [main, shutdown]
      exact owned.stopping
    · rw [main, watcher]
      exact owned.stopped
  | watcher more =>
    have moved := moved_of_next moved
    obtain ⟨active, main, ipc, shutdown, -⟩ := watcher_frame moved
    have before : s.main.afterWatcher = false :=
      Bool.eq_false_iff.mpr fun late => active (owned.stopped late)
    have early : s.main.afterIpc = false := MainStage.afterIpc_of_afterWatcher before
    refine (locks_watcher (owned.locks early) moved).owned (main ▸ early) ?_ ?_
    · rw [main, shutdown]
      exact owned.stopping
    · rw [main, before]
      exact nofun
  | main => exact owned_main owned (moved_of_next moved)

structure Tally (s : DaemonThreads) : Prop where
  known : ∀ fd, fd < s.opened ↔ fd ∈ s.closed ∨ s.socketFd = some fd
  live : ∀ fd, s.socketFd = some fd → fd ∉ s.closed
  once : s.closed.Nodup

theorem Tally.disconnectLocked (tally : s.Tally) : s.disconnectLocked.Tally := by
  obtain ⟨known, live, once⟩ := tally
  cases socket : s.socketFd with
  | none =>
    refine ⟨?_, fun fd none => (by cases none), ?_⟩
    · simpa [DaemonThreads.disconnectLocked, socket] using known
    · simpa [DaemonThreads.disconnectLocked, socket] using once
  | some open_ =>
    refine ⟨fun fd => ?_, fun fd none => (by cases none), ?_⟩
    · change fd < s.opened ↔ _
      rw [known fd, socket]
      simp [DaemonThreads.disconnectLocked, socket, or_comm, eq_comm]
    · simpa [DaemonThreads.disconnectLocked, socket] using ⟨live open_ socket, once⟩

structure Descriptors (s : DaemonThreads) : Prop where
  tally : s.Tally
  reading : ∀ fd, s.ipc = .reading fd → s.socketFd = some fd
  writing : ∀ fd, s.watcher = .writing fd → s.socketFd = some fd
  opening : s.ipc = .connectOpen → s.socketFd = none
  done : s.main = .done → s.socketFd = none

theorem Descriptors.quiet {fd : Nat} (quiet : s.watcher.holdsSend = false)
    (writing : s.watcher = .writing fd) : False := by
  rw [writing] at quiet
  cases quiet

theorem descriptors_ipc {ok : Bool} (owned : s.Owned) (descriptors : s.Descriptors)
    (moved : s.Moved (.ipc ok) s') : s'.Descriptors := by
  have late : s'.main ≠ .done := by
    obtain ⟨active, main, -⟩ := ipc_frame moved
    have early := owned.early active
    rw [main]
    intro done
    rw [done] at early
    cases early
  obtain ⟨tally, reading, writing, opening, -⟩ := descriptors
  cases moved with
  | exits | goesOn | connected | connects | receives | leaves | connectLocksSend | connectLocksRecv
  | receiveLocks | noSocket | received | readFailed | errorLocks =>
    exact ⟨⟨tally.known, tally.live, tally.once⟩, nofun, writing, nofun, fun done => absurd done late⟩
  | connectLocksState at_ free =>
    have quiet := owned.alone (by rw [at_]; rfl)
    have closed := tally.disconnectLocked
    exact ⟨⟨closed.known, closed.live, closed.once⟩, nofun,
      fun fd writes => (Descriptors.quiet quiet writes).elim, fun _ => rfl, fun _ => rfl⟩
  | opens at_ =>
    have quiet := owned.alone (by rw [at_]; rfl)
    have none := opening at_
    refine ⟨⟨fun fd => ?_, fun fd new member => ?_, tally.once⟩, nofun,
      fun fd writes => (Descriptors.quiet quiet writes).elim, nofun, fun done => absurd done late⟩
    · have known := tally.known fd
      simp only [none, reduceCtorEq, or_false] at known
      simp only [Option.some.injEq, ← known]
      omega
    · cases new
      have known := (tally.known s.opened).mpr (.inl member)
      omega
  | refused at_ =>
    have none := opening at_
    refine ⟨⟨fun fd => ?_, fun fd open_ => ?_, ?_⟩, nofun, writing, nofun, fun _ => none⟩
    · have known := tally.known fd
      simp only [List.mem_cons, or_assoc, ← known]
      omega
    · rw [none] at open_
      cases open_
    · refine List.nodup_cons.mpr ⟨fun member => ?_, tally.once⟩
      have known := (tally.known s.opened).mpr (.inl member)
      omega
  | reads at_ free socket =>
    refine ⟨⟨tally.known, tally.live, tally.once⟩, fun fd same => ?_, writing, nofun,
      fun done => absurd done late⟩
    cases same
    exact socket
  | errorCloses at_ free =>
    have quiet := owned.alone (by rw [at_]; rfl)
    have closed := tally.disconnectLocked
    exact ⟨⟨closed.known, closed.live, closed.once⟩, nofun,
      fun fd writes => (Descriptors.quiet quiet writes).elim, nofun, fun _ => rfl⟩

theorem descriptors_next (owned : s.Owned) (descriptors : s.Descriptors)
    (moved : s.next event = some s') : s'.Descriptors := by
  cases event with
  | signal =>
    cases moved
    exact ⟨⟨descriptors.tally.known, descriptors.tally.live, descriptors.tally.once⟩,
      descriptors.reading, descriptors.writing, descriptors.opening, descriptors.done⟩
  | ipc ok => exact descriptors_ipc owned descriptors (moved_of_next moved)
  | watcher more =>
    obtain ⟨tally, reading, writing, opening, done⟩ := descriptors
    cases moved_of_next moved with
    | reports | stops | sendLocks | sendEnds =>
      exact ⟨⟨tally.known, tally.live, tally.once⟩, reading, nofun, opening, done⟩
    | drops | watches =>
      exact ⟨⟨tally.known, tally.live, tally.once⟩, reading, writing, opening, done⟩
    | writes at_ free socket =>
      refine ⟨⟨tally.known, tally.live, tally.once⟩, reading, fun fd same => ?_, opening, done⟩
      cases same
      exact socket
  | main =>
    obtain ⟨tally, reading, writing, opening, done⟩ := descriptors
    cases moved_of_next moved with
    | stopsWatcher | joinsWatcher | joinsIpc | disconnectLocksSend | disconnectLocksRecv =>
      exact ⟨⟨tally.known, tally.live, tally.once⟩, reading, writing, opening, nofun⟩
    | disconnects at_ free =>
      have ended := owned.exited (by rw [at_]; rfl)
      have stopped := owned.stopped (by rw [at_]; rfl)
      have closed := tally.disconnectLocked
      refine ⟨⟨closed.known, closed.live, closed.once⟩, fun fd reads => ?_, fun fd writes => ?_,
        fun opens => ?_, fun _ => rfl⟩
      · cases ended.symm.trans reads
      · cases stopped.symm.trans writes
      · cases ended.symm.trans opens

theorem sound_reach (reached : Reach Initial (Runs next) s) : s.Owned ∧ s.Descriptors := by
  refine reach_invariant (fun s => s.Owned ∧ s.Descriptors) ?_ ?_ reached
  · rintro s rfl
    refine ⟨⟨rfl, rfl, rfl, nofun, fun ne => absurd rfl ne, nofun, nofun⟩, ?_⟩
    refine ⟨⟨fun fd => ?_, nofun, List.nodup_nil⟩, nofun, nofun, nofun, nofun⟩
    simp [new]
  · rintro s event s' ⟨owned, descriptors⟩ moved
    exact ⟨owned_next owned moved, descriptors_next owned descriptors moved⟩

def Works (s : DaemonThreads) (event : DaemonEvent) (s' : DaemonThreads) : Prop :=
  s.next event = some s' ∧ event ≠ .signal

end DaemonThreads

/-! The steps that are left to a thread once the flag is set. -/

def IpcStage.work : IpcStage → Nat
  | .exited => 0
  | .outer => 1
  | .inner => 2
  | .errorState | .connectOpen => 3
  | .errorSend | .connectState => 4
  | .reading _ | .connectRecv => 5
  | .receiveState | .connectSend => 6
  | .receiveRecv | .check => 7

def WatcherStage.work : WatcherStage → Nat
  | .stopped => 0
  | .idle => 1
  | .writing _ => 2
  | .sendState => 3
  | .sendSend => 4

theorem WatcherStage.work_of_holdsSend {w : WatcherStage} (holds : w.holdsSend = true) :
    1 < w.work := by
  cases w <;> first | exact of_decide_eq_true rfl | cases holds

def MainStage.work : MainStage → Nat
  | .done => 0
  | .disconnectState => 1
  | .disconnectRecv => 2
  | .disconnectSend => 3
  | .joinIpc => 4
  | .stopWatcher => 5
  | .waiting => 6

namespace DaemonThreads

variable {s s' : DaemonThreads} {event : DaemonEvent}

def work (s : DaemonThreads) : Nat :=
  s.ipc.work + s.watcher.work + 5 * s.batch + s.main.work

def Stopping (s : DaemonThreads) : Prop := s.Owned ∧ s.main ≠ .waiting

theorem stopping_works (stopping : s.Stopping) (moved : s.Works event s') : s'.Stopping := by
  refine ⟨owned_next stopping.1 moved.1, ?_⟩
  cases moved_of_next moved.1 <;> simp_all [Stopping, disconnectLocked]

theorem work_works (stopping : s.Stopping) (moved : s.Works event s') : s'.work < s.work := by
  obtain ⟨owned, main⟩ := stopping
  have flag := owned.stopping main
  obtain ⟨moved, own⟩ := moved
  cases moved_of_next moved with
  | signal => exact absurd rfl own
  | goesOn at_ off | receives at_ free off => cases flag.symm.trans off
  | watches at_ waiting => exact absurd waiting main
  | exits at_ | connected at_ | connects at_ | leaves at_ | connectLocksSend at_
  | connectLocksRecv at_ | connectLocksState at_ | opens at_ | refused at_ | receiveLocks at_
  | reads at_ | noSocket at_ | received at_ | readFailed at_ | errorLocks at_ | errorCloses at_ =>
    simp only [work, at_, IpcStage.work, disconnectLocked]
    omega
  | reports at_ some_ | drops at_ some_ =>
    simp only [work, at_, WatcherStage.work]
    omega
  | stops at_ | sendLocks at_ | writes at_ =>
    simp only [work, at_, WatcherStage.work]
    omega
  | sendEnds at_ =>
    have holds := WatcherStage.work_of_holdsSend at_
    have idle : WatcherStage.idle.work = 1 := rfl
    simp only [work, idle]
    omega
  | stopsWatcher at_ | joinsWatcher at_ | joinsIpc at_ | disconnectLocksSend at_
  | disconnectLocksRecv at_ | disconnects at_ =>
    simp only [work, at_, MainStage.work, disconnectLocked]
    omega

def Ended (s : DaemonThreads) : Prop :=
  s.ipc = .exited ∧ s.watcher = .stopped ∧ s.main = .done

theorem stuck_state (owned : s.Owned) (ipc : s.stepIpc true = none) : s.stateMutex = none := by
  rw [owned.state, if_neg]
  intro opening
  simp [stepIpc, opening] at ipc

theorem stuck_watcher (main : s.main ≠ .waiting) (free : s.stateMutex = none)
    (watcher : s.stepWatcher 0 = none) :
    s.watcher = .stopped ∨ s.watcher = .sendSend ∧ s.sendMutex ≠ none := by
  unfold stepWatcher at watcher
  split at watcher
  case h_1 =>
    rw [if_pos free, if_neg main] at watcher
    split at watcher
    · split at watcher <;> cases watcher
    · cases watcher
  case h_2 at_ =>
    refine .inr ⟨at_, fun none => ?_⟩
    rw [if_pos none] at watcher
    cases watcher
  case h_3 =>
    rw [if_pos free] at watcher
    split at watcher <;> cases watcher
  case h_4 => cases watcher
  case h_5 at_ => exact .inl at_

theorem stuck_ipc (locks : s.Locks) (free : s.stateMutex = none)
    (quiet : s.watcher.holdsSend = false) (ipc : s.stepIpc true = none) : s.ipc = .exited := by
  obtain ⟨send, recv, -, -⟩ := locks
  rw [quiet] at send
  unfold stepIpc at ipc
  cases at_ : s.ipc with
  | exited => rfl
  | outer =>
    simp only [at_] at ipc
    split at ipc <;> cases ipc
  | check | inner | receiveState =>
    simp only [at_, if_pos free] at ipc
    split at ipc <;> cases ipc
  | connectState | errorState =>
    simp only [at_, if_pos free] at ipc
    cases ipc
  | connectOpen | reading =>
    simp only [at_] at ipc
    cases ipc
  | connectSend | errorSend =>
    rw [at_] at send
    have none : s.sendMutex = .none := send
    simp only [at_, if_pos none] at ipc
    cases ipc
  | connectRecv | receiveRecv =>
    rw [at_] at recv
    have none : s.recvMutex = .none := recv
    simp only [at_, if_pos none] at ipc
    cases ipc

theorem stuck_main (owned : s.Owned) (main : s.main ≠ .waiting) (ipc : s.ipc = .exited)
    (watcher : s.watcher = .stopped) (last : s.stepMain = none) : s.main = .done := by
  obtain ⟨send, recv, state, -⟩ := owned
  rw [ipc, watcher] at send
  rw [ipc] at recv state
  unfold stepMain at last
  cases at_ : s.main with
  | waiting => exact absurd at_ main
  | done => rfl
  | stopWatcher | joinIpc =>
    simp only [at_, ipc, watcher, if_true] at last
    cases last
  | disconnectSend =>
    rw [at_] at send
    have none : s.sendMutex = .none := send
    simp only [at_, if_pos none] at last
    cases last
  | disconnectRecv =>
    rw [at_] at recv
    have none : s.recvMutex = .none := recv
    simp only [at_, if_pos none] at last
    cases last
  | disconnectState =>
    have none : s.stateMutex = .none := state
    simp only [at_, if_pos none] at last
    cases last

/-- A thread that cannot go on waits for another one that can. -/
theorem ended_of_stuck (stopping : s.Stopping) (stuck : ∀ event t, ¬ s.Works event t) :
    s.Ended := by
  obtain ⟨owned, main⟩ := stopping
  have idle : ∀ event, event ≠ .signal → s.next event = none := by
    intro event own
    cases moved : s.next event with
    | none => rfl
    | some t => exact absurd ⟨moved, own⟩ (stuck event t)
  have ipc : s.stepIpc true = none := idle (.ipc true) nofun
  have free := stuck_state owned ipc
  have waits := stuck_watcher main free (idle (.watcher 0) nofun)
  have quiet : s.watcher.holdsSend = false := by
    rcases waits with at_ | ⟨at_, -⟩ <;> rw [at_] <;> rfl
  have ended : s.ipc = .exited := by
    by_contra active
    exact active (stuck_ipc (owned.locks (owned.early active)) free quiet ipc)
  have stopped : s.watcher = .stopped := by
    rcases waits with at_ | ⟨at_, held⟩
    · exact at_
    · have before : s.main.afterWatcher = false :=
        Bool.eq_false_iff.mpr fun late => nomatch at_.symm.trans (owned.stopped late)
      have locks := owned.locks (MainStage.afterIpc_of_afterWatcher before)
      refine absurd ?_ held
      rw [locks.send, ended, at_]
      rfl
  exact ⟨ended, stopped, stuck_main owned main ended stopped (idle .main nofun)⟩

end DaemonThreads

section Results

variable {s : DaemonThreads}

/-- Whatever the threads do at once, the client reads and writes no byte on a descriptor that
has been closed or is not that of its socket, closes none twice, and has closed all of them
when the daemon has ended. -/
theorem daemon_descriptors_safe
    (reached : Reach DaemonThreads.Initial (Runs DaemonThreads.next) s) :
    (∀ fd, s.ipc = .reading fd ∨ s.watcher = .writing fd →
      s.socketFd = some fd ∧ fd ∉ s.closed) ∧
    s.closed.Nodup ∧ (s.main = .done → ∀ fd, fd < s.opened ↔ fd ∈ s.closed) := by
  obtain ⟨-, descriptors⟩ := DaemonThreads.sound_reach reached
  refine ⟨fun fd used => ?_, descriptors.tally.once, fun done fd => ?_⟩
  · have socket : s.socketFd = some fd := by
      rcases used with reads | writes
      · exact descriptors.reading fd reads
      · exact descriptors.writing fd writes
    exact ⟨socket, descriptors.tally.live fd socket⟩
  · rw [descriptors.tally.known fd, descriptors.done done]
    simp

def lostConnection : List DaemonEvent :=
  [.ipc true, .ipc true, .ipc true, .ipc true, .ipc true, .ipc true, .ipc true, .ipc true,
    .ipc true, .watcher 0, .watcher 0, .watcher 0, .watcher 0, .ipc false]

theorem daemon_descriptors_safe_lostConnection : ∃ s : DaemonThreads,
    s.ipc = .errorSend ∧ s.watcher = .writing 0 ∧ s.socketFd = some 0 ∧ 0 ∉ s.closed := by
  obtain ⟨s, reached, waits, writes⟩ := reach_of_replay DaemonThreads.next
    (fun _ _ => True) (.start DaemonThreads.new_initial) lostConnection
    (fun s => s.ipc = .errorSend ∧ s.watcher = .writing 0) (by decide)
  have safe := daemon_descriptors_safe (reach_mono (fun _ _ _ step => step.1) reached)
  exact ⟨s, waits, writes, safe.1 0 (.inr writes)⟩

/-- Once the main thread has told the watcher to stop, the steps that are left are bounded and
the threads never wait for each other: they come to a state without a further step, and in
every such state all three have ended. -/
theorem daemon_shutdown_completes
    (reached : Reach DaemonThreads.Initial (Runs DaemonThreads.next) s) (told : s.main ≠ .waiting) :
    (∃ events s', Path DaemonThreads.Works s events s' ∧
      ∀ event t, ¬ s'.Works event t) ∧
    ∀ events s', Path DaemonThreads.Works s events s' →
      events.length ≤ s.work ∧ ((∀ event t, ¬ s'.Works event t) → s'.Ended) := by
  have stopping : s.Stopping := ⟨(DaemonThreads.sound_reach reached).1, told⟩
  have keep : ∀ s event t, DaemonThreads.Stopping s → s.Works event t → t.Stopping :=
    fun _ _ _ stopping moved => DaemonThreads.stopping_works stopping moved
  have lower : ∀ s event t, DaemonThreads.Stopping s → s.Works event t → t.work < s.work :=
    fun _ _ _ stopping moved => DaemonThreads.work_works stopping moved
  refine ⟨Path.exists_stuck keep DaemonThreads.work lower stopping, ?_⟩
  intro events s' path
  refine ⟨path.length_le keep DaemonThreads.work lower stopping, fun stuck => ?_⟩
  exact DaemonThreads.ended_of_stuck (path.invariant keep stopping) stuck

theorem daemon_shutdown_completes_lostConnection : ∃ s s' : DaemonThreads,
    s.ipc = .errorSend ∧ s.watcher = .writing 0 ∧ s.main = .stopWatcher ∧ s'.Ended := by
  obtain ⟨s, reached, facts⟩ := reach_of_replay DaemonThreads.next
    (fun _ _ => True) (.start DaemonThreads.new_initial) (lostConnection ++ [.signal, .main])
    (fun s => s.ipc = .errorSend ∧ s.watcher = .writing 0 ∧ s.main = .stopWatcher) (by decide)
  obtain ⟨⟨events, s', path, stuck⟩, all⟩ := daemon_shutdown_completes
    (reach_mono (fun _ _ _ step => step.1) reached) (by rw [facts.2.2]; nofun)
  exact ⟨s, s', facts.1, facts.2.1, facts.2.2, (all events s' path).2 stuck⟩

end Results

end P2PSync
