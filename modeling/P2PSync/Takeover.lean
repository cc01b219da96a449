import Mathlib.Data.List.AList
import P2PSync.Library.Decimal
import P2PSync.Library.Progress

/-! One coordinator a machine. A coordinator that starts reads the process ID in the PID
file, asks that process to end, kills it if it lives half a second later, and writes its
own ID. The ID of a process that ended may be given to another program. -/
namespace P2PSync

open Transition

def isSpace (c : Char) : Bool :=
  [0x09, 0x0a, 0x0b, 0x0c, 0x0d, 0x20, 0x85, 0xa0, 0x1680, 0x2028, 0x2029, 0x202f, 0x205f,
    0x3000].contains c.toNat || decide (0x2000 ≤ c.toNat ∧ c.toNat ≤ 0x200a)

def trimSpace (text : List Char) : List Char :=
  ((text.dropWhile isSpace).reverse.dropWhile isSpace).reverse

def pidText (pid : Int) : String := toString pid ++ "\n"

def readPID (text : String) : Option Int := Decimal.parseInt (trimSpace text.toList)

/-- How far a coordinator is in main; the process that it found is `old`. -/
inductive BootStage where
  | reading
  | checking (old : Int)
  | terminating (old : Int)
  | waiting (old : Int)
  | killing (old : Int)
  | clearing
  | writing
  | starting
  | running
  | stopping
  | leaving
  deriving DecidableEq, Repr

namespace BootStage

def early : BootStage → Bool
  | .reading | .checking _ | .terminating _ | .waiting _ | .killing _ | .clearing | .writing => true
  | .starting | .running | .stopping | .leaving => false

def serves : BootStage → Bool
  | .starting | .running | .stopping => true
  | _ => false

def Allows : BootStage → Int → Prop
  | .checking old, pid | .terminating old, pid | .waiting old, pid | .killing old, pid => pid = old
  | .clearing, _ | .writing, _ => False
  | _, _ => True

def Fades (stage later : BootStage) : Prop :=
  later = stage ∨ stage.serves = true ∧ later.serves = true ∨ later = .leaving

def rank : BootStage → Nat
  | .reading => 7
  | .checking _ => 6
  | .terminating _ => 5
  | .waiting _ => 4
  | .killing _ => 3
  | .clearing => 2
  | .writing => 1
  | _ => 0

theorem not_serves_of_early {stage : BootStage} (early : stage.early = true) :
    stage.serves = false := by
  cases stage <;> first | rfl | cases early

theorem allows_of_not_early {stage : BootStage} (late : stage.early = false) (pid : Int) :
    stage.Allows pid := by
  cases stage <;> trivial

theorem Fades.eq_of_early {stage later : BootStage} (fades : stage.Fades later)
    (early : later.early = true) : later = stage := by
  rcases fades with same | ⟨-, serves⟩ | rfl
  · exact same
  · rw [not_serves_of_early early] at serves
    cases serves
  · cases early

theorem Fades.serves {stage later : BootStage} (fades : stage.Fades later)
    (serves : later.serves = true) : stage.serves = true := by
  rcases fades with rfl | ⟨before, -⟩ | rfl
  · exact serves
  · exact before
  · cases serves

end BootStage

inductive Program where
  | coordinator (stage : BootStage)
  | other
  deriving DecidableEq, Repr

def Program.early : Program → Bool
  | .coordinator stage => stage.early
  | .other => false

def Program.serves : Program → Bool
  | .coordinator stage => stage.serves
  | .other => false

structure Processes where
  live : AList fun _ : Int => Program
  pidFile : Option String

inductive PIDWrite where
  | whole
  | refused
  /-- The file is open and empty by then. -/
  | torn (n : Nat)
  deriving DecidableEq, Repr

structure StepEnv where
  /-- The PID file can be read, written, removed. -/
  reads : Bool
  writes : PIDWrite
  removes : Bool
  /-- It may signal the process that the file named: one of the same user, or it is root. -/
  signals : Bool
  deriving DecidableEq, Repr

inductive ProcessEvent where
  | launch (pid : Int)
  | program (pid : Int)
  /-- The next step of a coordinator, and a failure to open its sockets or its database. -/
  | step (pid : Int) (env : StepEnv)
  | fail (pid : Int) (env : StepEnv)
  /-- SIGTERM from elsewhere, and the end of a process by itself or by SIGKILL. -/
  | terminate (pid : Int)
  | exit (pid : Int)
  | cleanUp
  deriving DecidableEq, Repr

namespace Processes

def At (s : Processes) (pid : Int) (stage : BootStage) : Prop :=
  s.live.lookup pid = some (.coordinator stage)

def Serves (s : Processes) (pid : Int) : Prop := ∃ stage, s.At pid stage ∧ stage.serves = true

def move (s : Processes) (pid : Int) (stage : BootStage) : Processes :=
  { s with live := s.live.insert pid (.coordinator stage) }

def remove (s : Processes) (pid : Int) : Processes := { s with live := s.live.erase pid }

def writePIDFile (s : Processes) (pid : Int) (env : StepEnv) : Processes :=
  match env.writes with
  | .whole => { s with pidFile := some (pidText pid) }
  | .refused => s
  | .torn n => { s with pidFile := some (String.ofList ((pidText pid).toList.take n)) }

def removePIDFile (s : Processes) (env : StepEnv) : Processes :=
  if env.removes then { s with pidFile := none } else s

/-- SIGTERM ends a coordinator at once before its call of signal.Notify; what another program
does with it is up to that program. -/
def sigterm (s : Processes) (pid : Int) : Processes :=
  match s.live.lookup pid with
  | some (.coordinator .running) => s.move pid .stopping
  | some (.coordinator .stopping) | some (.coordinator .leaving) | some .other | none => s
  | some (.coordinator _) => s.remove pid

/-- Signal 0 to the process: every error is taken for its end. -/
def answers (s : Processes) (old : Int) (env : StepEnv) : Bool := env.signals && old ∈ s.live

/-- One step of main, whose calls of checkAndKillStaleProcess are the stages up to `clearing`.
Where the PID file cannot be written main goes on without it. -/
def advance (s : Processes) (pid : Int) (env : StepEnv) : BootStage → Option Processes
  | .reading =>
    match (if env.reads then s.pidFile else none).bind readPID with
    | none => some (s.move pid .writing)
    | some old => some (s.move pid (if old = pid then .writing else .checking old))
  | .checking old => some (s.move pid (if s.answers old env then .terminating old else .clearing))
  | .terminating old =>
    some ((if env.signals then s.sigterm old else s).move pid (.waiting old))
  | .waiting old => some (s.move pid (if s.answers old env then .killing old else .clearing))
  | .killing old => some ((if env.signals then s.remove old else s).move pid .clearing)
  | .clearing => some ((s.removePIDFile env).move pid .writing)
  | .writing => some ((s.writePIDFile pid env).move pid .starting)
  | .starting => some (s.move pid .running)
  | .running => none
  | .stopping => some ((s.removePIDFile env).move pid .leaving)
  | .leaving => some (s.remove pid)

def Unused (s : Processes) (pid : Int) : Prop := 0 < pid ∧ pid < 2 ^ 31 ∧ pid ∉ s.live

instance (s : Processes) (pid : Int) : Decidable (s.Unused pid) :=
  inferInstanceAs (Decidable (_ ∧ _ ∧ _))

def next (s : Processes) : ProcessEvent → Option Processes
  | .launch pid => if s.Unused pid then some (s.move pid .reading) else none
  | .program pid => if s.Unused pid then some { s with live := s.live.insert pid .other } else none
  | .step pid env =>
    match s.live.lookup pid with
    | some (.coordinator stage) => s.advance pid env stage
    | _ => none
  | .fail pid env =>
    if s.live.lookup pid = some (.coordinator .starting) then
      some ((s.removePIDFile env).move pid .leaving)
    else none
  | .terminate pid => some (s.sigterm pid)
  | .exit pid => some (s.remove pid)
  | .cleanUp => some { s with pidFile := none }

/-- No coordinator runs; a PID file may be left, with anything in it but the number of a
process group. -/
def Initial (s : Processes) : Prop :=
  s.live = ∅ ∧ ∀ old, s.pidFile.bind readPID = some old → -1 ≤ old

def idle : Processes := ⟨∅, none⟩

theorem idle_initial : idle.Initial := ⟨rfl, fun _ none => by cases none⟩

def able : StepEnv := ⟨true, .whole, true, true⟩

/-- Coordinators are started one after another; they can read and write the PID file and may
signal the process that it names. A user interface that quits has had the last one. -/
def Orderly (s : Processes) : ProcessEvent → Prop
  | .launch _ => ∀ e ∈ s.live.entries, e.2.early = false
  | .step _ env => env.reads = true ∧ env.writes = .whole ∧ env.signals = true
  | .cleanUp => ∀ e ∈ s.live.entries, e.2.serves = false
  | _ => True

instance (s : Processes) (event : ProcessEvent) : Decidable (s.Orderly event) := by
  cases event <;> unfold Orderly <;> infer_instance

theorem digit_not_space {c : Char} (plain : c.isDigit = true ∨ c = '-' ∨ c = '+') :
    isSpace c = false := by
  have low : 43 ≤ c.toNat ∧ c.toNat ≤ 57 := by
    rcases plain with digit | rfl | rfl
    · simp only [Char.isDigit, Bool.and_eq_true, decide_eq_true_eq] at digit
      have lower : 48 ≤ c.toNat := digit.1
      have upper : c.toNat ≤ 57 := digit.2
      omega
    · decide
    · decide
  simp only [isSpace, List.contains_eq_mem, List.mem_cons, List.not_mem_nil, or_false,
    Bool.or_eq_false_iff, decide_eq_false_iff_not]
  omega

theorem dropWhile_plain {text : List Char} (plain : ∀ c ∈ text, isSpace c = false) :
    text.dropWhile isSpace = text := by
  cases text with
  | nil => rfl
  | cons c rest => exact List.dropWhile_cons_of_neg (by simp [plain c List.mem_cons_self])

theorem trimSpace_line {text : List Char} (plain : ∀ c ∈ text, isSpace c = false) :
    trimSpace (text ++ ['\n']) = text := by
  cases text with
  | nil => decide
  | cons c rest =>
    have first : isSpace c = false := plain c List.mem_cons_self
    have back : ∀ d ∈ (c :: rest).reverse, isSpace d = false := fun d member =>
      plain d (List.mem_reverse.mp member)
    rw [trimSpace, List.cons_append, List.dropWhile_cons_of_neg (by simp [first]),
      ← List.cons_append, List.reverse_append, List.reverse_singleton, List.singleton_append,
      List.dropWhile_cons_of_pos (by decide), dropWhile_plain back, List.reverse_reverse]

theorem readPID_pidText {pid : Int} (low : 0 < pid) (high : pid < 2 ^ 31) :
    readPID (pidText pid) = some pid := by
  have number : Decimal.parseInt (toString pid).toList = some pid :=
    Decimal.parseInt_toString (by omega) (by omega)
  have line : (pidText pid).toList = (toString pid).toList ++ ['\n'] := String.toList_append
  rw [readPID, line, trimSpace_line, number]
  exact fun c member => digit_not_space (Decimal.mem_parseInt number member)

inductive Moved (s : Processes) : ProcessEvent → Processes → Prop where
  | launch {pid : Int} (unused : s.Unused pid) : Moved s (.launch pid) (s.move pid .reading)
  | program {pid : Int} (unused : s.Unused pid) :
      Moved s (.program pid) { s with live := s.live.insert pid .other }
  | proceed {pid : Int} {env : StepEnv} (at_ : s.At pid .reading)
      (unnamed : env.reads = true → ∀ old, s.pidFile.bind readPID = some old → old = pid) :
      Moved s (.step pid env) (s.move pid .writing)
  | found {pid old : Int} {env : StepEnv} (at_ : s.At pid .reading)
      (named : s.pidFile.bind readPID = some old) :
      Moved s (.step pid env) (s.move pid (.checking old))
  | lives {pid old : Int} {env : StepEnv} (at_ : s.At pid (.checking old)) :
      Moved s (.step pid env) (s.move pid (.terminating old))
  | term {pid old : Int} {env : StepEnv} (at_ : s.At pid (.terminating old)) :
      Moved s (.step pid env) ((if env.signals then s.sigterm old else s).move pid (.waiting old))
  | outlived {pid old : Int} {env : StepEnv} (at_ : s.At pid (.waiting old)) :
      Moved s (.step pid env) (s.move pid (.killing old))
  | gone {pid old : Int} {env : StepEnv} {stage : BootStage} (at_ : s.At pid stage)
      (stages : stage = .checking old ∨ stage = .waiting old)
      (dead : env.signals = true → old ∉ s.live) :
      Moved s (.step pid env) (s.move pid .clearing)
  | killed {pid old : Int} {env : StepEnv} (at_ : s.At pid (.killing old)) :
      Moved s (.step pid env) ((if env.signals then s.remove old else s).move pid .clearing)
  | cleared {pid : Int} {env : StepEnv} (at_ : s.At pid .clearing) :
      Moved s (.step pid env) ((s.removePIDFile env).move pid .writing)
  | wrote {pid : Int} {env : StepEnv} (at_ : s.At pid .writing) :
      Moved s (.step pid env) ((s.writePIDFile pid env).move pid .starting)
  | ready {pid : Int} {env : StepEnv} (at_ : s.At pid .starting) :
      Moved s (.step pid env) (s.move pid .running)
  | ended {pid : Int} {env : StepEnv} {stage : BootStage} {event : ProcessEvent}
      (at_ : s.At pid stage) (served : stage.serves = true) :
      Moved s event ((s.removePIDFile env).move pid .leaving)
  | terminate {pid : Int} : Moved s (.terminate pid) (s.sigterm pid)
  | removed {pid : Int} {event : ProcessEvent} : Moved s event (s.remove pid)
  | cleanUp : Moved s .cleanUp { s with pidFile := none }

variable {s s' : Processes} {event : ProcessEvent} {pid : Int} {env : StepEnv}

theorem not_mem_of_answers {old : Int} (silent : ¬ s.answers old env = true)
    (signals : env.signals = true) : old ∉ s.live := by
  simpa [answers, signals] using silent

section

variable {stage later : BootStage} {other : Int}

theorem moved_of_advance (at_ : s.At pid stage) (moved : s.advance pid env stage = some s') :
    s.Moved (.step pid env) s' := by
  cases stage <;> simp only [advance, Option.some.injEq, reduceCtorEq] at moved
  case reading =>
    split at moved
    · rename_i none
      cases moved
      refine .proceed at_ fun reads old named => ?_
      rw [if_pos reads, named] at none
      cases none
    · rename_i old named
      cases moved
      obtain ⟨reads, named⟩ : env.reads = true ∧ s.pidFile.bind readPID = some old := by
        split at named
        · exact ⟨‹_›, named⟩
        · cases named
      split
      · rename_i own
        exact .proceed at_ fun _ found same => Option.some.inj (same.symm.trans named) ▸ own
      · exact .found at_ named
  case checking old =>
    split at moved
    · exact moved ▸ .lives at_
    · rename_i silent
      exact moved ▸ .gone at_ (.inl rfl) (not_mem_of_answers silent)
  case waiting old =>
    split at moved
    · exact moved ▸ .outlived at_
    · rename_i silent
      exact moved ▸ .gone at_ (.inr rfl) (not_mem_of_answers silent)
  all_goals subst moved
  case terminating => exact .term at_
  case killing => exact .killed at_
  case clearing => exact .cleared at_
  case writing => exact .wrote at_
  case starting => exact .ready at_
  case stopping => exact .ended at_ rfl
  case leaving => exact .removed

theorem moved_of_next (moved : s.next event = some s') : s.Moved event s' := by
  cases event <;> simp only [next, Option.ite_none_right_eq_some, Option.some.injEq] at moved
  case launch => exact moved.2 ▸ .launch moved.1
  case program => exact moved.2 ▸ .program moved.1
  case step pid env =>
    split at moved
    · rename_i stage at_
      exact moved_of_advance at_ moved
    · cases moved
  case fail => exact moved.2 ▸ .ended moved.1 rfl
  case terminate => exact moved ▸ .terminate
  case exit => exact moved ▸ .removed
  case cleanUp => exact moved ▸ .cleanUp

theorem at_move : (s.move pid stage).At other later ↔
      if other = pid then later = stage else s.At other later := by
  split
  · rename_i same
    subst same
    simp only [At, move, AList.lookup_insert, Option.some.injEq, Program.coordinator.injEq, eq_comm]
  · rename_i ne
    simp only [At, move, AList.lookup_insert_ne ne]

theorem at_move_self (stage : BootStage) : (s.move pid stage).At pid stage :=
  AList.lookup_insert _

theorem at_remove (at_ : (s.remove pid).At other later) : s.At other later ∧ other ≠ pid := by
  rcases eq_or_ne other pid with rfl | ne
  · rw [At, remove, AList.lookup_erase] at at_
    cases at_
  · rw [At, remove, AList.lookup_erase_ne ne] at at_
    exact ⟨at_, ne⟩

theorem mem_live_of_at (at_ : s.At pid stage) : pid ∈ s.live :=
  AList.lookup_isSome.mp (Option.isSome_iff_exists.mpr ⟨_, at_⟩)

def Fading (s s' : Processes) : Prop :=
  ∀ pid later, s'.At pid later → ∃ stage, s.At pid stage ∧ stage.Fades later

theorem fading_move (at_ : s.At pid stage) (fades : stage.Fades later) :
    s.Fading (s.move pid later) := by
  intro other final after
  rw [at_move] at after
  split at after
  · rename_i same
    subst same
    subst after
    exact ⟨stage, at_, fades⟩
  · exact ⟨final, after, .inl rfl⟩

theorem fading_remove : s.Fading (s.remove pid) :=
  fun _ later after => ⟨later, (at_remove after).1, .inl rfl⟩

theorem fading_refl : s.Fading s := fun _ later after => ⟨later, after, .inl rfl⟩

theorem fading_sigterm : s.Fading (s.sigterm pid) := by
  unfold sigterm
  split
  · rename_i at_
    exact fading_move at_ (.inr (.inl ⟨rfl, rfl⟩))
  · exact fading_refl
  · exact fading_refl
  · exact fading_refl
  · exact fading_refl
  · exact fading_remove

theorem pidFile_sigterm : (s.sigterm pid).pidFile = s.pidFile := by
  unfold sigterm
  split <;> rfl

theorem live_removePIDFile : (s.removePIDFile env).live = s.live := by
  unfold removePIDFile
  split <;> rfl

theorem at_removePIDFile : (s.removePIDFile env).At pid stage ↔ s.At pid stage := by
  rw [At, live_removePIDFile, At]

theorem serves_removePIDFile : (s.removePIDFile env).Serves pid ↔ s.Serves pid := by
  simp only [Serves, at_removePIDFile]

theorem removePIDFile_move :
    (s.move pid stage).removePIDFile env = (s.removePIDFile env).move pid stage := by
  unfold removePIDFile
  split <;> rfl

end

structure Safe (s : Processes) : Prop where
  range : ∀ pid stage, s.At pid stage → 0 < pid ∧ pid < 2 ^ 31
  named : ∀ pid stage, s.At pid stage → stage.serves = true → s.pidFile = some (pidText pid)
  single : ∀ pid stage other stage', s.At pid stage → s.At other stage' → stage.early = true →
    stage'.early = true → pid = other
  allowed : ∀ pid stage other stage', s.At pid stage → s.At other stage' →
    stage'.serves = true → stage.Allows other

namespace Safe

variable (safe : s.Safe) {stage later : BootStage}

include safe

theorem fade (file : s'.pidFile = s.pidFile) (fading : s.Fading s') : s'.Safe := by
  refine ⟨?_, ?_, ?_, ?_⟩
  · intro pid later after
    obtain ⟨stage, before, -⟩ := fading pid later after
    exact safe.range pid stage before
  · intro pid later after serves
    obtain ⟨stage, before, fades⟩ := fading pid later after
    rw [file]
    exact safe.named pid stage before (fades.serves serves)
  · intro pid later other later' after after' early early'
    obtain ⟨stage, before, fades⟩ := fading pid later after
    obtain ⟨stage', before', fades'⟩ := fading other later' after'
    exact safe.single pid stage other stage' before before' (fades.eq_of_early early ▸ early)
      (fades'.eq_of_early early' ▸ early')
  · intro pid later other later' after after' serves
    obtain ⟨stage, before, fades⟩ := fading pid later after
    obtain ⟨stage', before', fades'⟩ := fading other later' after'
    cases early : later.early with
    | false => exact BootStage.allows_of_not_early early other
    | true =>
      rw [fades.eq_of_early early]
      exact safe.allowed pid stage other stage' before before' (fades'.serves serves)

theorem change (idle : ∀ pid, ¬ s.Serves pid) (file : Option String) :
    Safe { s with pidFile := file } :=
  ⟨safe.range, fun pid stage at_ serves => absurd ⟨stage, at_, serves⟩ (idle pid), safe.single,
    safe.allowed⟩

theorem unnamed (idle : ∀ pid, ¬ s.Serves pid) : (s.removePIDFile env).Safe := by
  unfold removePIDFile
  split
  · exact safe.change idle none
  · exact safe

theorem serves_unique {other : Int} (serves : s.Serves pid) (serves' : s.Serves other) :
    pid = other := by
  obtain ⟨stage, at_, serves⟩ := serves
  obtain ⟨stage', at_', serves'⟩ := serves'
  have text := safe.named pid stage at_ serves
  rw [safe.named other stage' at_' serves', Option.some.injEq] at text
  have range := safe.range pid stage at_
  have range' := safe.range other stage' at_'
  have read := readPID_pidText range.1 range.2
  rw [← text, readPID_pidText range'.1 range'.2] at read
  exact (Option.some.inj read).symm

theorem restage (range : 0 < pid ∧ pid < 2 ^ 31)
    (only : ∀ other stage, s.At other stage → stage.early = true → other = pid)
    (early : later.early = true)
    (allows : ∀ other, other ≠ pid → s.Serves other → later.Allows other) :
    (s.move pid later).Safe := by
  have late := BootStage.not_serves_of_early early
  have others : ∀ {other final}, (s.move pid later).At other final → final.serves = true →
      other ≠ pid ∧ s.At other final := by
    intro other final after serves
    rw [at_move] at after
    split at after
    · rw [after, late] at serves
      cases serves
    · rename_i ne
      exact ⟨ne, after⟩
  have own : ∀ {other final}, (s.move pid later).At other final → final.early = true →
      other = pid := by
    intro other final after first
    rw [at_move] at after
    split at after
    · assumption
    · exact only other final after first
  refine ⟨?_, ?_, ?_, ?_⟩
  · intro other final after
    rw [at_move] at after
    split at after
    · rename_i same
      exact same ▸ range
    · exact safe.range other final after
  · intro other final after serves
    exact safe.named other final (others after serves).2 serves
  · intro one stage other stage' after after' first first'
    rw [own after first, own after' first']
  · intro one stage other stage' after after' serves
    obtain ⟨ne, before'⟩ := others after' serves
    rw [at_move] at after
    split at after
    · exact after ▸ allows other ne ⟨stage', before', serves⟩
    · exact safe.allowed one stage other stage' after before' serves

theorem serve (at_ : s.At pid .writing) :
    (Processes.move { s with pidFile := some (pidText pid) } pid .starting).Safe := by
  have range := safe.range pid _ at_
  have idle : ∀ other, ¬ s.Serves other := by
    rintro other ⟨stage, at_', serves⟩
    exact safe.allowed pid _ other stage at_ at_' serves
  have late : ∀ {other stage}, other ≠ pid → s.At other stage → stage.early = false := by
    intro other stage ne at_'
    refine Bool.eq_false_iff.mpr fun early => ne ?_
    exact safe.single other stage pid _ at_' at_ early rfl
  refine ⟨?_, ?_, ?_, ?_⟩
  · intro other stage after
    rw [at_move] at after
    split at after
    · rename_i same
      exact same ▸ range
    · exact safe.range other stage after
  · intro other stage after serves
    rw [at_move] at after
    split at after
    · rename_i same
      exact same ▸ rfl
    · exact absurd ⟨stage, after, serves⟩ (idle other)
  · intro one stage other stage' after after' early early'
    rw [at_move] at after after'
    split at after
    · rw [after] at early
      cases early
    · rename_i ne
      rw [late ne after] at early
      cases early
  · intro one stage other stage' after after' serves
    rw [at_move] at after
    split at after
    · exact after ▸ trivial
    · rename_i ne
      exact BootStage.allows_of_not_early (late ne after) other

theorem progress (at_ : s.At pid stage) (before : stage.early = true) (early : later.early = true)
    (allows : ∀ other, other ≠ pid → s.Serves other → later.Allows other) :
    (s.move pid later).Safe :=
  safe.restage (safe.range pid stage at_)
    (fun other stage' at_' early' => safe.single other stage' pid stage at_' at_ early' before)
    early allows

theorem progress_fading (at_ : s.At pid stage) (before : stage.early = true)
    (file : s'.pidFile = s.pidFile) (fading : s.Fading s') (early : later.early = true)
    (allows : ∀ other, other ≠ pid → s'.Serves other → later.Allows other) :
    (s'.move pid later).Safe := by
  refine (safe.fade file fading).restage (safe.range pid stage at_) ?_ early allows
  intro other final after early'
  obtain ⟨stage', at_', fades⟩ := fading other final after
  exact safe.single other stage' pid stage at_' at_ (fades.eq_of_early early' ▸ early') before

theorem allows_of_serves (at_ : s.At pid stage) {other : Int} (serves : s.Serves other) :
    stage.Allows other := by
  obtain ⟨stage', at_', serves⟩ := serves
  exact safe.allowed pid stage other stage' at_ at_' serves

theorem read_of_serves (serves : s.Serves pid) : s.pidFile.bind readPID = some pid := by
  obtain ⟨stage, at_, serves⟩ := serves
  have range := safe.range pid stage at_
  rw [safe.named pid stage at_ serves]
  exact readPID_pidText range.1 range.2

end Safe

theorem Fading.serves (fading : s.Fading s') (serves : s'.Serves pid) : s.Serves pid := by
  obtain ⟨later, after, serves⟩ := serves
  obtain ⟨stage, before, fades⟩ := fading pid later after
  exact ⟨stage, before, fades.serves serves⟩

theorem not_early_of_orderly (orderly : s.Orderly (.launch pid)) {other : Int} {stage : BootStage}
    (at_ : s.At other stage) : stage.early = false :=
  orderly ⟨other, .coordinator stage⟩ (AList.mem_lookup_iff.mp at_)

theorem not_serves_of_orderly (orderly : s.Orderly .cleanUp) (pid : Int) : ¬ s.Serves pid := by
  rintro ⟨stage, at_, serves⟩
  have idle : stage.serves = false :=
    orderly ⟨pid, .coordinator stage⟩ (AList.mem_lookup_iff.mp at_)
  rw [idle] at serves
  cases serves

theorem safe_next (safe : s.Safe) (orderly : s.Orderly event) (moved : s.next event = some s') :
    s'.Safe := by
  cases moved_of_next moved with
  | launch unused =>
    refine safe.restage ⟨unused.1, unused.2.1⟩ ?_ rfl fun _ _ _ => trivial
    intro other stage at_ early
    rw [not_early_of_orderly orderly at_] at early
    cases early
  | @program pid unused =>
    refine safe.fade rfl fun other later after => ⟨later, ?_, .inl rfl⟩
    rcases eq_or_ne other pid with rfl | ne
    · rw [At, AList.lookup_insert] at after
      cases after
    · rwa [At, AList.lookup_insert_ne ne] at after
  | proceed at_ unnamed =>
    refine safe.progress at_ rfl rfl ?_
    intro other ne serves
    exact ne (unnamed orderly.1 other (safe.read_of_serves serves))
  | found at_ named =>
    refine safe.progress at_ rfl rfl ?_
    intro other ne serves
    exact Option.some.inj ((safe.read_of_serves serves).symm.trans named)
  | lives at_ | outlived at_ =>
    exact safe.progress at_ rfl rfl fun other ne serves => safe.allows_of_serves at_ serves
  | term at_ =>
    rw [if_pos orderly.2.2]
    refine safe.progress_fading at_ rfl pidFile_sigterm fading_sigterm rfl ?_
    intro other ne serves
    exact safe.allows_of_serves at_ (fading_sigterm.serves serves)
  | gone at_ stages dead =>
    rcases stages with rfl | rfl
    all_goals
      refine safe.progress at_ rfl rfl fun other ne serves => ?_
      have target := safe.allows_of_serves at_ serves
      obtain ⟨stage, at_', -⟩ := serves
      exact dead orderly.2.2 (target ▸ mem_live_of_at at_')
  | killed at_ =>
    rw [if_pos orderly.2.2]
    refine safe.progress_fading at_ rfl rfl fading_remove rfl ?_
    intro other ne serves
    have target := safe.allows_of_serves at_ (fading_remove.serves serves)
    obtain ⟨stage, at_', -⟩ := serves
    exact (at_remove at_').2 target
  | cleared at_ =>
    have idle : ∀ other, ¬ s.Serves other := fun other serves => safe.allows_of_serves at_ serves
    exact (safe.unnamed idle).progress (at_removePIDFile.mpr at_) rfl rfl fun other ne serves =>
      idle other (serves_removePIDFile.mp serves)
  | wrote at_ =>
    rw [writePIDFile, orderly.2.1]
    exact safe.serve at_
  | ready at_ => exact safe.fade rfl (fading_move at_ (.inr (.inl ⟨rfl, rfl⟩)))
  | @ended pid env stage event at_ served =>
    have fading : s.Fading (s.move pid .leaving) := fading_move at_ (.inr (.inr rfl))
    have left : (s.move pid .leaving).Safe := safe.fade rfl fading
    have idle : ∀ other, ¬ (s.move pid .leaving).Serves other := ?_
    · exact removePIDFile_move ▸ left.unnamed idle
    intro other serves
    have same := safe.serves_unique (fading.serves serves) ⟨stage, at_, served⟩
    obtain ⟨final, after, serves⟩ := serves
    rw [at_move, if_pos same] at after
    rw [after] at serves
    cases serves
  | terminate => exact safe.fade pidFile_sigterm fading_sigterm
  | removed => exact safe.fade rfl fading_remove
  | cleanUp => exact safe.change (not_serves_of_orderly orderly) none

theorem safe_initial (initial : s.Initial) : s.Safe := by
  have none : ∀ pid stage, ¬ s.At pid stage := by
    intro pid stage at_
    have member := mem_live_of_at at_
    rw [initial.1] at member
    exact AList.notMem_empty _ member
  exact ⟨fun pid stage at_ => absurd at_ (none pid stage),
    fun pid stage at_ => absurd at_ (none pid stage),
    fun pid stage _ _ at_ => absurd at_ (none pid stage),
    fun pid stage _ _ at_ => absurd at_ (none pid stage)⟩

theorem safe_reach (reached : Reach Initial
    (Guarded (Runs next) Orderly) s) : s.Safe := by
  refine reach_invariant Safe ?_ ?_ reached
  · exact fun s initial => safe_initial initial
  · exact fun s event s' safe moved => safe_next safe moved.2 moved.1

theorem next_step {stage : BootStage} (at_ : s.At pid stage) :
    s.next (.step pid able) = s.advance pid able stage := by
  rw [At] at at_
  simp only [next, at_]

theorem exists_step {stage : BootStage} (at_ : s.At pid stage) (early : stage.early = true) :
    ∃ t later, s.next (.step pid able) = some t ∧ t.At pid later ∧ later.rank < stage.rank ∧
      (later.early = true ∨ later = .starting) := by
  rw [next_step at_]
  have arrive : ∀ {u : Processes} {later : BootStage},
      s.advance pid able stage = some (u.move pid later) → later.rank < stage.rank →
      (later.early = true ∨ later = .starting) → ∃ t later, s.advance pid able stage = some t ∧
        t.At pid later ∧ later.rank < stage.rank ∧ (later.early = true ∨ later = .starting) :=
    fun step less rest => ⟨_, _, step, at_move_self _, less, rest⟩
  cases stage with
  | reading =>
    cases named : s.pidFile.bind readPID with
    | none =>
      have step : s.advance pid able .reading = some (s.move pid .writing) := by
        simp only [advance, able, if_true, named]
      exact arrive step (by decide) (.inl rfl)
    | some old =>
      refine arrive (by simp only [advance, able, if_true, named]; rfl) ?_ (.inl ?_)
      · split <;> simp [BootStage.rank]
      · split <;> rfl
  | checking old | waiting old =>
    refine arrive rfl ?_ (.inl ?_)
    · split <;> simp [BootStage.rank]
    · split <;> rfl
  | terminating old | killing old => exact arrive rfl (by simp [BootStage.rank]) (.inl rfl)
  | clearing => exact arrive rfl (by decide) (.inl rfl)
  | writing => exact arrive rfl (by decide) (.inr rfl)
  | starting | running | stopping | leaving => cases early

theorem exists_start {stage : BootStage} (at_ : s.At pid stage) (early : stage.early = true) :
    ∃ n t, n ≤ stage.rank ∧
      Path (Guarded (Runs next) Orderly) s
        (List.replicate n (.step pid able)) t ∧ t.At pid .starting := by
  induction bound : stage.rank using Nat.strongRecOn generalizing s stage with
  | ind rank ih =>
    obtain ⟨u, later, first, after, less, rest⟩ := exists_step at_ early
    rcases rest with early' | rfl
    · obtain ⟨n, t, few, path, started⟩ := ih later.rank (bound ▸ less) after early' rfl
      exact ⟨n + 1, t, by omega, .cons ⟨first, rfl, rfl, rfl⟩ path, started⟩
    · exact ⟨1, u, by omega, .cons ⟨first, rfl, rfl, rfl⟩ (.nil u), after⟩

def Beside (s u : Processes) (pid : Int) : Prop :=
  ∀ other, other ≠ pid → u.live.lookup other = s.live.lookup other

theorem Beside.move {u : Processes} (beside : s.Beside u pid) (stage : BootStage) :
    s.Beside (u.move pid stage) pid := fun other ne =>
  (AList.lookup_insert_ne ne).trans (beside other ne)

theorem Beside.step {u : Processes} (beside : s.Beside u pid) {stage : BootStage}
    (at_ : u.At pid stage) (u' : Processes) (later : BootStage) (same : u'.live = u.live)
    (step : u.advance pid able stage = some (u'.move pid later)) :
    ∃ t, u.next (.step pid able) = some t ∧ t.At pid later ∧ s.Beside t pid ∧
      t.pidFile = u'.pidFile := by
  refine ⟨_, (next_step at_).trans step, at_move_self _, Beside.move ?_ later, rfl⟩
  intro other ne
  rw [same, beside other ne]

theorem exists_launch (unused : s.Unused pid) :
    ∃ t, s.next (.launch pid) = some t ∧ t.At pid .reading ∧ s.Beside t pid ∧
      t.pidFile = s.pidFile := by
  refine ⟨s.move pid .reading, if_pos unused, at_move_self _, ?_, rfl⟩
  exact Beside.move (fun _ _ => rfl) _

theorem exists_kill {u : Processes} {victim : Int} (beside : s.Beside u pid)
    (at_ : u.At pid (.checking victim)) (ne : victim ≠ pid)
    (lives : s.live.lookup victim = some .other) :
    ∃ t, Path (Runs next) u (List.replicate 4 (.step pid able)) t ∧
      t.At pid .clearing ∧ (s.remove victim).Beside t pid := by
  have answered : ∀ {u : Processes}, s.Beside u pid → u.answers victim able = true := by
    intro u beside
    have present : victim ∈ u.live := AList.lookup_isSome.mp (by rw [beside victim ne, lives]; rfl)
    simpa [answers, able] using present
  obtain ⟨u₁, first, at₁, beside₁, -⟩ := beside.step at_ u (.terminating victim) rfl
    (by simp only [advance, answered beside, if_true])
  have ignored : u₁.sigterm victim = u₁ := by
    simp only [sigterm, beside₁ victim ne, lives]
  obtain ⟨u₂, second, at₂, beside₂, -⟩ := beside₁.step at₁ u₁ (.waiting victim) rfl
    (by simp only [advance, able, if_true, ignored])
  obtain ⟨u₃, third, at₃, beside₃, -⟩ := beside₂.step at₂ u₂ (.killing victim) rfl
    (by simp only [advance, answered beside₂, if_true])
  refine ⟨(u₃.remove victim).move pid .clearing, ?_, at_move_self _, ?_⟩
  · exact .cons first (.cons second (.cons third (.cons (next_step at₃) (.nil _))))
  · refine Beside.move ?_ _
    intro other apart
    rcases eq_or_ne other victim with rfl | ne'
    · simp only [remove, AList.lookup_erase]
    · simp only [remove, AList.lookup_erase_ne ne', beside₃ other apart]

end Processes

section Results

open Processes

variable {s : Processes}

/-- Where coordinators are started one after another and can replace the one before, at most
one serves, the PID file names it, and one that starts comes to serve in place of the others,
by at most seven steps of its own. -/
theorem one_coordinator_serves (reached : Reach Initial
    (Guarded (Runs next) Orderly) s) : (∀ pid other, s.Serves pid → s.Serves other → pid = other) ∧
    (∀ pid, s.Serves pid → s.pidFile = some (pidText pid)) ∧
    ∀ pid stage, s.At pid stage → stage.early = true →
      ∃ n t, n ≤ 7 ∧ Path (Runs next) s (List.replicate n (.step pid able)) t ∧
        ∀ other, t.Serves other ↔ other = pid := by
  have safe := safe_reach reached
  refine ⟨fun pid other => safe.serves_unique, ?_, ?_⟩
  · rintro pid ⟨stage, at_, serves⟩
    exact safe.named pid stage at_ serves
  · intro pid stage at_ early
    obtain ⟨n, t, few, path, started⟩ := exists_start at_ early
    have most : stage.rank ≤ 7 := by cases stage <;> simp [BootStage.rank]
    refine ⟨n, t, few.trans most, path.weaken fun _ _ _ moved => moved.1, ?_⟩
    have serves : t.Serves pid := ⟨.starting, started, rfl⟩
    intro other
    constructor
    · exact fun serves' => (safe_reach (path.reach reached)).serves_unique serves' serves
    · rintro rfl
      exact serves

def takeoverRun : List ProcessEvent :=
  [.launch 7, .step 7 able, .step 7 able, .step 7 able, .launch 8, .step 8 able, .step 8 able, .step 8 able]

theorem one_coordinator_serves_takeoverRun : ∃ s : Processes, s.Serves 7 ∧
    s.pidFile = some (pidText 7) ∧ ∃ n t, n ≤ 7 ∧
      Path (Runs next) s (List.replicate n (.step 8 able)) t ∧
        ∀ other, t.Serves other ↔ other = 8 := by
  obtain ⟨s, reached, old, new⟩ := reach_of_replay next Orderly
    (.start idle_initial) takeoverRun
    (fun s => s.live.lookup 7 = some (.coordinator .stopping) ∧
      s.live.lookup 8 = some (.coordinator (.waiting 7))) (by decide +kernel)
  obtain ⟨-, named, starts⟩ := one_coordinator_serves reached
  have serves : s.Serves 7 := ⟨.stopping, old, rfl⟩
  exact ⟨s, serves, named 7 serves, starts 8 _ new rfl⟩

/-- The file of a coordinator that crashed outlives it. If its process ID has come to another
program that may be signalled, the next coordinator kills that program, and no other. -/
theorem reused_pid_killed {victim pid : Int} (lives : s.live.lookup victim = some .other)
    (named : s.pidFile.bind readPID = some victim) (unused : s.Unused pid) : ∃ t, Path (Runs next) s
        (.launch pid :: List.replicate 7 (.step pid able)) t ∧
      t.At pid .starting ∧ ∀ other, other ≠ pid →
        t.live.lookup other = if other = victim then none else s.live.lookup other := by
  have ne : victim ≠ pid := by
    rintro rfl
    exact unused.2.2 (AList.lookup_isSome.mp (by rw [lives]; rfl))
  obtain ⟨u, launched, reading, beside, file⟩ := exists_launch unused
  obtain ⟨u₁, read, checking, beside₁, -⟩ := beside.step reading u (.checking victim) rfl
    (by simp only [advance, able, if_true, file, named, ne, if_false])
  obtain ⟨u₂, killed, clearing, beside₂⟩ := exists_kill beside₁ checking ne lives
  obtain ⟨u₃, cleared, writing, beside₃, -⟩ :=
    beside₂.step clearing (u₂.removePIDFile able) .writing rfl rfl
  obtain ⟨t, wrote, starting, beside₄, -⟩ :=
    beside₃.step writing (u₃.writePIDFile pid able) .starting rfl rfl
  refine ⟨t, ?_, starting, ?_⟩
  · exact .cons launched (.cons read (killed.append (.cons cleared (.cons wrote (.nil t)))))
  · intro other apart
    rw [beside₄ other apart]
    split
    · rename_i same
      rw [same, remove, AList.lookup_erase]
    · rename_i ne'
      rw [remove, AList.lookup_erase_ne ne']

theorem reused_pid_killed_editor : ∃ s t : Processes,
    s.live.lookup 7 = some .other ∧ t.live.lookup 7 = none ∧ t.At 8 .starting := by
  -- coordinator 7 crashes, an editor gets its ID
  obtain ⟨s, -, lives, named, unused⟩ := reach_of_replay next (fun _ _ => True)
    (.start idle_initial)
    [.launch 7, .step 7 able, .step 7 able, .step 7 able, .exit 7, .program 7]
    (fun s => s.live.lookup 7 = some .other ∧ s.pidFile.bind readPID = some 7 ∧ s.Unused 8)
    (by decide +kernel)
  obtain ⟨t, -, starting, others⟩ := reused_pid_killed lives named unused
  exact ⟨s, t, lives, others 7 (by decide), starting⟩

/-- A user interface that quits removes the PID file, whosever it is: the coordinator that runs
is not found by the next one, and both run. -/
theorem quit_leaves_two_coordinators {pid other : Int} (runs : s.At pid .running)
    (unused : s.Unused other) : ∃ t, Path (Runs next) s
        (.cleanUp :: .launch other :: List.replicate 3 (.step other able)) t ∧
      t.At pid .running ∧ t.At other .running ∧ t.pidFile = some (pidText other) := by
  have ne : pid ≠ other := by
    rintro rfl
    exact unused.2.2 (mem_live_of_at runs)
  have unused' : Unused { s with pidFile := none } other := unused
  obtain ⟨u, launched, reading, beside, file⟩ := exists_launch unused'
  obtain ⟨u₁, read, writing, beside₁, -⟩ := beside.step reading u .writing rfl
    (by simp only [advance, able, if_true, file, Option.bind_none])
  obtain ⟨u₂, wrote, starting, beside₂, file₂⟩ :=
    beside₁.step writing (u₁.writePIDFile other able) .starting rfl rfl
  obtain ⟨t, ready, running, beside₃, file₃⟩ := beside₂.step starting u₂ .running rfl rfl
  refine ⟨t, ?_, (beside₃ pid ne).trans runs, running, file₃.trans file₂⟩
  exact .cons rfl (.cons launched (.cons read (.cons wrote (.cons ready (.nil t)))))

theorem quit_leaves_two_coordinators_replaced : ∃ s t : Processes,
    Reach Initial (Runs next) s ∧ s.live.lookup 7 = none ∧
      t.At 8 .running ∧ t.At 9 .running := by
  -- the user interface that started coordinator 7 quits after 8 has taken its place
  obtain ⟨s, reached, gone, runs, unused⟩ := reach_of_replay next (fun _ _ => True)
    (.start idle_initial)
    (takeoverRun ++ [.step 7 able, .step 7 able, .step 8 able, .step 8 able, .step 8 able, .step 8 able])
    (fun s => s.live.lookup 7 = none ∧ s.live.lookup 8 = some (.coordinator .running) ∧
      s.Unused 9) (by decide +kernel)
  obtain ⟨t, -, old, new, -⟩ := quit_leaves_two_coordinators runs unused
  exact ⟨s, t, reach_mono (fun _ _ _ moved => moved.1) reached, gone, old, new⟩

end Results

end P2PSync
