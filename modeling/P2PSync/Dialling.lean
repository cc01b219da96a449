import Mathlib.Data.List.AList
import Mathlib.Logic.Function.Basic
import P2PSync.Library.Transition

/-! Two connection managers that dial each other. A connection is named by the side that
dials it. What stands under the manager's lock is one step. -/
namespace P2PSync

open Transition

inductive Side where
  | left | right
  deriving DecidableEq, Repr

def Side.other : Side → Side
  | .left => .right
  | .right => .left

inductive DialState where
  | entry | dialing | greeted | answered | registered | skipped | failed
  deriving DecidableEq, Repr

inductive AcceptState where
  | waiting
  | heard (peerID : String)
  | replied (peerID : String)
  | registered
  | refused
  deriving DecidableEq, Repr

inductive ReadState where
  | idle
  | running (peerID : String)
  | done
  deriving DecidableEq, Repr

structure ConnectionManager where
  localPeerID : String
  connections : AList fun _ : String => Side
  target : String
  dial : DialState
  accept : AcceptState
  reading : Side → ReadState
  closed : Side → Bool

namespace ConnectionManager

def closeEnd (m : ConnectionManager) (c : Side) : ConnectionManager :=
  { m with closed := Function.update m.closed c true }

/-- The registration that Connect and handleIncomingConnection share: an older
connection of the peer is closed and replaced, and the read loop starts. -/
def register (m : ConnectionManager) (peerID : String) (c : Side) : ConnectionManager :=
  let m := match m.connections.lookup peerID with
    | some old => m.closeEnd old
    | none => m
  { m with
    connections := m.connections.insert peerID c
    reading := Function.update m.reading c (.running peerID) }

def closeConnectionIfMatch (m : ConnectionManager) (peerID : String) (c : Side) :
    ConnectionManager :=
  if m.connections.lookup peerID = some c then
    { m.closeEnd c with connections := m.connections.erase peerID }
  else m

end ConnectionManager

structure Dialling where
  manager : Side → ConnectionManager
  hello : Side → Option String
  reply : Side → Option String

inductive DialMove where
  | check (s : Side)
  | greet (s : Side)
  | hear (s : Side)
  | answer (s : Side)
  | accept (s : Side)
  | read (s : Side)
  | register (s : Side)
  | exit (s c : Side)

namespace Dialling

def set (w : Dialling) (s : Side) (m : ConnectionManager) : Dialling :=
  { w with manager := Function.update w.manager s m }

def broken (w : Dialling) (c : Side) : Bool :=
  (w.manager .left).closed c || (w.manager .right).closed c

def next (w : Dialling) : DialMove → Option Dialling
  | .check s =>
    let m := w.manager s
    if m.dial = .entry then
      some (w.set s { m with dial := if m.target ∈ m.connections then .skipped else .dialing })
    else none
  | .greet s =>
    let m := w.manager s
    if m.dial = .dialing then
      some { w.set s { m with dial := .greeted } with
        hello := Function.update w.hello s (some m.localPeerID) }
    else none
  | .hear s =>
    let m := w.manager s
    match m.accept, w.hello s.other with
    | .waiting, some peerID =>
      some (w.set s (if peerID = "" then { m.closeEnd s.other with accept := .refused }
        else { m with accept := .heard peerID }))
    | _, _ => none
  | .answer s =>
    let m := w.manager s
    match m.accept with
    | .heard peerID =>
      some { w.set s { m with accept := .replied peerID } with
        reply := Function.update w.reply s.other (some m.localPeerID) }
    | _ => none
  | .accept s =>
    let m := w.manager s
    match m.accept with
    | .replied peerID => some (w.set s { m.register peerID s.other with accept := .registered })
    | _ => none
  | .read s =>
    let m := w.manager s
    match m.dial, w.reply s with
    | .greeted, some peerID =>
      some (w.set s (if peerID = m.target then { m with dial := .answered }
        else { m.closeEnd s with dial := .failed }))
    | _, _ => none
  | .register s =>
    let m := w.manager s
    if m.dial = .answered then
      some (w.set s { m.register m.target s with dial := .registered })
    else none
  | .exit s c =>
    let m := w.manager s
    match m.reading c with
    | .running peerID =>
      if w.broken c then
        some (w.set s { m.closeConnectionIfMatch peerID c with
          reading := Function.update m.reading c .done })
      else none
    | _ => none

def start (ids : Side → String) : Dialling where
  manager := fun s => ⟨ids s, ∅, ids s.other, .entry, .waiting, fun _ => .idle, fun _ => false⟩
  hello := fun _ => none
  reply := fun _ => none

def Settled (ids : Side → String) (w : Dialling) : Prop :=
  ∃ c, w.broken c = false ∧ ∀ s, (w.manager s).connections.lookup (ids s.other) = some c

end Dialling

def registrations (s : Side) (moves : List DialMove) : List Side :=
  moves.filterMap fun
    | .accept t => if t = s then some t.other else none
    | .register t => if t = s then some t else none
    | _ => none

/-! Only registrations decide which connection survives. -/

def Superseded (log : Side → List Side) (s c : Side) : Prop :=
  c ∈ log s ∧ (log s).getLast? ≠ some c

section Invariant

variable (ids : Side → String) (log : Side → List Side) (hello reply : Side → Option String)

structure Kept (s : Side) (m : ConnectionManager) : Prop where
  ident : m.localPeerID = ids s
  target : m.target = ids s.other
  heard : ∀ p, m.accept = .heard p ∨ m.accept = .replied p → p = ids s.other
  running : ∀ c p, m.reading c = .running p → p = ids s.other
  alive : m.dial ≠ .failed ∧ m.accept ≠ .refused
  dialed : s ∈ log s ↔ m.dial = .registered
  accepted : s.other ∈ log s ↔ m.accept = .registered
  once : (log s).Nodup
  stored : ∀ c, m.connections.lookup (ids s.other) = some c → (log s).getLast? = some c
  lost : ∀ c, m.connections.lookup (ids s.other) = none → (log s).getLast? = some c →
    m.closed c = true
  replaced : ∀ c, Superseded log s c → m.closed c = true
  closed : ∀ c, m.closed c = true → ∃ t, Superseded log t c
  greeted : m.dial = .greeted ∨ m.dial = .answered ∨ m.dial = .registered ↔ (hello s).isSome
  hears : m.accept ≠ .waiting → (hello s.other).isSome
  replies : m.accept = .registered ∨ (∃ p, m.accept = .replied p) → (reply s.other).isSome
  skipped : m.dial = .skipped → log s ≠ []

structure Invariant (w : Dialling) : Prop where
  kept : ∀ s, Kept ids log w.hello w.reply s (w.manager s)
  hello : ∀ c p, w.hello c = some p → p = ids c
  reply : ∀ c p, w.reply c = some p → p = ids c.other

end Invariant

section Steps

variable {ids : Side → String} {log : Side → List Side} {hello reply : Side → Option String}
  {s : Side} {m : ConnectionManager} {w : Dialling}

theorem Side.other_ne (s : Side) : s.other ≠ s := by
  cases s <;> decide

theorem Side.eq_or_other (s c : Side) : c = s ∨ c = s.other := by
  cases s <;> cases c <;> decide

theorem superseded_append {s t c : Side} (old : Superseded log t c) (d : Side) (fresh : d ∉ log s) :
    Superseded (Function.update log s (log s ++ [d])) t c := by
  by_cases same : t = s
  · subst same
    refine ⟨by simp [old.1], ?_⟩
    rw [Function.update_self, List.getLast?_concat]
    rintro ⟨⟩
    exact fresh old.1
  · simpa [Superseded, Function.update_of_ne same] using old

theorem Kept.mono (kept : Kept ids log hello reply s m) {log' : Side → List Side}
    {hello' reply' : Side → Option String} (own : log' s = log s)
    (grows : ∀ t c, Superseded log t c → Superseded log' t c) (said : hello' s = hello s)
    (hears : (hello s.other).isSome → (hello' s.other).isSome)
    (replies : (reply s.other).isSome → (reply' s.other).isSome) :
    Kept ids log' hello' reply' s m where
  ident := kept.ident
  target := kept.target
  heard := kept.heard
  running := kept.running
  alive := kept.alive
  dialed := own ▸ kept.dialed
  accepted := own ▸ kept.accepted
  once := own ▸ kept.once
  stored := own ▸ kept.stored
  lost := own ▸ kept.lost
  replaced c old := kept.replaced c (by simpa [Superseded, own] using old)
  closed c shut := (kept.closed c shut).imp (fun t => grows t c)
  greeted := said ▸ kept.greeted
  hears far := hears (kept.hears far)
  replies far := replies (kept.replies far)
  skipped := own ▸ kept.skipped

theorem register_closed (m : ConnectionManager) (p : String) (c d : Side) :
    (m.register p c).closed d = (m.closed d || decide (m.connections.lookup p = some d)) := by
  unfold ConnectionManager.register
  cases m.connections.lookup p with
  | none => simp
  | some old =>
    by_cases same : d = old
    · simp [ConnectionManager.closeEnd, same]
    · simp [ConnectionManager.closeEnd, Function.update_of_ne same, Ne.symm same]

theorem register_fields (m : ConnectionManager) (p : String) (c : Side) :
    (m.register p c).localPeerID = m.localPeerID ∧ (m.register p c).target = m.target ∧
      (m.register p c).dial = m.dial ∧ (m.register p c).accept = m.accept ∧
      (m.register p c).connections = m.connections.insert p c ∧
      (m.register p c).reading = Function.update m.reading c (.running p) := by
  unfold ConnectionManager.register
  cases m.connections.lookup p <;> exact ⟨rfl, rfl, rfl, rfl, rfl, rfl⟩

theorem register_kept (kept : Kept ids log hello reply s m) {c : Side} (fresh : c ∉ log s) :
    let log' := Function.update log s (log s ++ [c])
    (∀ d, Superseded log' s d → (m.register (ids s.other) c).closed d = true) ∧
      ∀ d, (m.register (ids s.other) c).closed d = true → ∃ t, Superseded log' t d := by
  intro log'
  have own : log' s = log s ++ [c] := Function.update_self ..
  constructor
  · rintro d ⟨member, last⟩
    rw [own, List.getLast?_concat] at last
    rw [own] at member
    have older : d ∈ log s := by
      rcases List.mem_append.mp member with older | newest
      · exact older
      · exact absurd (congrArg some (List.mem_singleton.mp newest)).symm last
    rw [register_closed]
    by_cases latest : (log s).getLast? = some d
    · -- the connection that was current is closed now, or was when it was dropped
      cases found : m.connections.lookup (ids s.other) with
      | none => simp [kept.lost d found latest]
      | some old =>
        have same := (kept.stored old found).symm.trans latest
        simp [Option.some.inj same]
    · simp [kept.replaced d ⟨older, latest⟩]
  · intro d shut
    rw [register_closed, Bool.or_eq_true, decide_eq_true_eq] at shut
    rcases shut with shut | current
    · obtain ⟨t, old⟩ := kept.closed d shut
      exact ⟨t, superseded_append old c fresh⟩
    · have latest := kept.stored d current
      refine ⟨s, ?_, ?_⟩
      · rw [own]
        exact List.mem_append_left _ (List.mem_of_getLast? latest)
      · rw [own, List.getLast?_concat]
        rintro ⟨⟩
        exact fresh (List.mem_of_getLast? latest)

theorem Invariant.replace (inv : Invariant ids log w) {log' : Side → List Side}
    {hello' reply' : Side → Option String} (own : Kept ids log' hello' reply' s m)
    (logs : ∀ t, t ≠ s → log' t = log t) (grows : ∀ t c, Superseded log t c → Superseded log' t c)
    (said : ∀ t, t ≠ s → hello' t = w.hello t) (hears : ∀ c, (w.hello c).isSome → (hello' c).isSome)
    (replies : ∀ c, (w.reply c).isSome → (reply' c).isSome)
    (hello : ∀ c p, hello' c = some p → p = ids c)
    (reply : ∀ c p, reply' c = some p → p = ids c.other) :
    Invariant ids log' ⟨Function.update w.manager s m, hello', reply'⟩ where
  kept t := by
    by_cases same : t = s
    · subst same
      simpa using own
    · simp only [Function.update_of_ne same]
      exact (inv.kept t).mono (logs t same) grows (said t same) (hears _) (replies _)
  hello := hello
  reply := reply

theorem Invariant.set (inv : Invariant ids log w)
    (own : Kept ids log w.hello w.reply s m) : Invariant ids log (w.set s m) :=
  inv.replace own (fun _ _ => rfl) (fun _ _ => id) (fun _ _ => rfl) (fun _ => id) (fun _ => id)
    inv.hello inv.reply

theorem invariant_start (ids : Side → String) :
    Invariant ids (fun _ => []) (Dialling.start ids) where
  kept s := by constructor <;> simp [Dialling.start, Superseded]
  hello c p said := by cases said
  reply c p said := by cases said

theorem Kept.redial (kept : Kept ids log hello reply s m) {d : DialState}
    {hello' : Side → Option String} (before : m.dial ≠ .registered)
    (now : d ≠ .registered ∧ d ≠ .failed)
    (greeted : d = .greeted ∨ d = .answered ∨ d = .registered ↔ (hello' s).isSome)
    (hears : hello' s.other = hello s.other) (skipped : d = .skipped → log s ≠ []) :
    Kept ids log hello' reply s { m with dial := d } :=
  { kept with
    alive := ⟨now.2, kept.alive.2⟩
    dialed := by
      rw [kept.dialed]
      exact iff_of_false before now.1
    greeted := greeted
    hears := hears ▸ kept.hears
    skipped := skipped }

theorem Kept.reaccept (kept : Kept ids log hello reply s m) {a : AcceptState}
    {reply' : Side → Option String} (before : m.accept ≠ .registered)
    (now : a ≠ .registered ∧ a ≠ .refused)
    (heard : ∀ p, a = .heard p ∨ a = .replied p → p = ids s.other) (hears : (hello s.other).isSome)
    (replies : (∃ p, a = .replied p) → (reply' s.other).isSome) :
    Kept ids log hello reply' s { m with accept := a } :=
  { kept with
    heard := heard
    alive := ⟨kept.alive.1, now.2⟩
    accepted := by
      rw [kept.accepted]
      exact iff_of_false before now.1
    hears := fun _ => hears
    replies := fun far => replies (far.resolve_left now.1) }

section

variable (inv : Invariant ids log w) {c : Side} {w' : Dialling}

include inv

theorem invariant_check (moved : w.next (.check s) = some w') : Invariant ids log w' := by
  simp only [Dialling.next, Option.ite_none_right_eq_some, Option.some.injEq] at moved
  obtain ⟨entry, rfl⟩ := moved
  have kept := inv.kept s
  have silent : ¬ (w.hello s).isSome = true := by
    rw [← kept.greeted, entry]
    simp
  apply inv.set
  split
  · rename_i known
    obtain ⟨c, found⟩ := Option.isSome_iff_exists.mp (AList.lookup_isSome.mpr known)
    have latest := kept.stored c (kept.target ▸ found)
    apply kept.redial (by simp [entry]) (by simp) (by simp [silent]) rfl
    rintro - empty
    rw [empty] at latest
    cases latest
  · exact kept.redial (by simp [entry]) (by simp) (by simp [silent]) rfl (by simp)

theorem invariant_greet (moved : w.next (.greet s) = some w') : Invariant ids log w' := by
  simp only [Dialling.next, Option.ite_none_right_eq_some, Option.some.injEq] at moved
  obtain ⟨dialing, rfl⟩ := moved
  have kept := inv.kept s
  apply inv.replace (kept.redial (by simp [dialing]) (by simp) (by simp) _ (by simp))
    (fun _ _ => rfl) (fun _ _ => id) (fun t ne => Function.update_of_ne ne ..) _ (fun _ => id) _
    inv.reply
  · exact Function.update_of_ne s.other_ne ..
  · intro c there
    by_cases same : c = s
    · simp [same]
    · rwa [Function.update_of_ne same]
  · intro c p said
    by_cases same : c = s
    · subst same
      rw [Function.update_self] at said
      exact (Option.some.inj said).symm.trans kept.ident
    · rw [Function.update_of_ne same] at said
      exact inv.hello c p said

theorem invariant_hear (named : ∀ s, ids s ≠ "") {w' : Dialling}
    (moved : w.next (.hear s) = some w') : Invariant ids log w' := by
  simp only [Dialling.next] at moved
  split at moved
  · rename_i peerID waiting said
    cases moved
    have from_ := inv.hello _ _ said
    rw [if_neg (from_ ▸ named _)]
    apply inv.set
    apply (inv.kept s).reaccept (by simp [waiting]) (by simp) _ (by simp [said]) (by simp)
    rintro p (same | same) <;> cases same
    exact from_
  · cases moved

theorem invariant_answer (moved : w.next (.answer s) = some w') : Invariant ids log w' := by
  simp only [Dialling.next] at moved
  split at moved
  · rename_i peerID heard
    cases moved
    have kept := inv.kept s
    apply inv.replace (kept.reaccept (by simp [heard]) (by simp) _ _ (by simp))
      (fun _ _ => rfl) (fun _ _ => id) (fun _ _ => rfl) (fun _ => id) _ inv.hello
    · intro c p said
      by_cases same : c = s.other
      · subst same
        rw [Function.update_self] at said
        have back : s.other.other = s := by cases s <;> rfl
        rw [back]
        exact (Option.some.inj said).symm.trans kept.ident
      · rw [Function.update_of_ne same] at said
        exact inv.reply c p said
    · rintro p (same | same) <;> cases same
      exact kept.heard _ (Or.inl heard)
    · exact kept.hears (by simp [heard])
    · intro c there
      by_cases same : c = s.other
      · simp [same]
      · rwa [Function.update_of_ne same]
  · cases moved

theorem invariant_read (moved : w.next (.read s) = some w') : Invariant ids log w' := by
  simp only [Dialling.next] at moved
  split at moved
  · rename_i peerID greeted said
    cases moved
    have kept := inv.kept s
    have spoken : (w.hello s).isSome = true := kept.greeted.mp (Or.inl greeted)
    rw [if_pos ((inv.reply _ _ said).trans kept.target.symm)]
    apply inv.set
    exact kept.redial (by simp [greeted]) (by simp) (by simp [spoken]) rfl (by simp)
  · cases moved

omit inv in
theorem Kept.registered (kept : Kept ids log hello reply s m) {c : Side} (fresh : c ∉ log s)
    {d : DialState} {a : AcceptState} (dialed : s ∈ log s ++ [c] ↔ d = .registered)
    (accepted : s.other ∈ log s ++ [c] ↔ a = .registered) (alive : d ≠ .failed ∧ a ≠ .refused)
    (heard : ∀ p, a = .heard p ∨ a = .replied p → p = ids s.other)
    (greeted : d = .greeted ∨ d = .answered ∨ d = .registered ↔ (hello s).isSome)
    (hears : a ≠ .waiting → (hello s.other).isSome)
    (replies : a = .registered ∨ (∃ p, a = .replied p) → (reply s.other).isSome) :
    Kept ids (Function.update log s (log s ++ [c])) hello reply s
      { m.register (ids s.other) c with dial := d, accept := a } := by
  obtain ⟨ident, target, -, -, connections, reading⟩ := register_fields m (ids s.other) c
  obtain ⟨replaced, closed⟩ := register_kept kept fresh
  have own : Function.update log s (log s ++ [c]) s = log s ++ [c] := Function.update_self ..
  constructor
  case ident => exact ident.trans kept.ident
  case target => exact target.trans kept.target
  case heard => exact heard
  case running =>
    intro e p run
    simp only [reading] at run
    by_cases same : e = c
    · subst same
      rw [Function.update_self] at run
      exact (ReadState.running.inj run).symm
    · rw [Function.update_of_ne same] at run
      exact kept.running e p run
  case alive => exact alive
  case dialed => rw [own]; exact dialed
  case accepted => rw [own]; exact accepted
  case once =>
    rw [own]
    apply kept.once.append (List.nodup_singleton c)
    simpa using fresh
  case stored =>
    intro e found
    simp only [connections, AList.lookup_insert] at found
    rw [own, List.getLast?_concat, ← found]
  case lost =>
    intro e none
    simp [connections] at none
  case replaced => exact replaced
  case closed => exact closed
  case greeted => exact greeted
  case hears => exact hears
  case replies => exact replies
  case skipped => rw [own]; simp

theorem invariant_register (moved : w.next (.register s) = some w') :
    Invariant ids (Function.update log s (log s ++ [s])) w' := by
  simp only [Dialling.next, Option.ite_none_right_eq_some, Option.some.injEq] at moved
  obtain ⟨answered, rfl⟩ := moved
  have kept := inv.kept s
  have fresh : s ∉ log s := by
    rw [kept.dialed, answered]
    simp
  have accept := (register_fields (w.manager s) (ids s.other) s).2.2.2.1
  have spoken : (w.hello s).isSome = true := kept.greeted.mp (Or.inr (Or.inl answered))
  refine inv.replace ?_ (fun t ne => Function.update_of_ne ne ..)
    (fun t c old => superseded_append old s fresh) (fun _ _ => rfl) (fun _ => id) (fun _ => id)
    inv.hello inv.reply
  rw [kept.target]
  have new := kept.registered fresh (d := .registered) (a := (w.manager s).accept) (by simp)
    (by simp [kept.accepted, s.other_ne]) ⟨by simp, kept.alive.2⟩ kept.heard (by simp [spoken])
    kept.hears kept.replies
  rwa [← accept] at new

theorem invariant_accept (moved : w.next (.accept s) = some w') :
    Invariant ids (Function.update log s (log s ++ [s.other])) w' := by
  simp only [Dialling.next] at moved
  split at moved
  · rename_i peerID replied
    cases moved
    have kept := inv.kept s
    have fresh : s.other ∉ log s := by
      rw [kept.accepted, replied]
      simp
    have dial := (register_fields (w.manager s) (ids s.other) s.other).2.2.1
    refine inv.replace ?_ (fun t ne => Function.update_of_ne ne ..)
      (fun t c old => superseded_append old s.other fresh) (fun _ _ => rfl) (fun _ => id)
      (fun _ => id) inv.hello inv.reply
    rw [kept.heard peerID (Or.inr replied)]
    have new := kept.registered fresh (d := (w.manager s).dial) (a := .registered)
      (by simp [kept.dialed, s.other_ne.symm]) (by simp) ⟨kept.alive.1, by simp⟩ (by simp)
      kept.greeted (fun _ => kept.hears (by simp [replied]))
      (fun _ => kept.replies (Or.inr ⟨_, replied⟩))
    rwa [← dial] at new
  · cases moved

omit inv in
theorem Kept.dropped (kept : Kept ids log hello reply s m) {c : Side}
    (dead : ∃ t, Superseded log t c) :
    Kept ids log hello reply s (m.closeConnectionIfMatch (ids s.other) c) := by
  unfold ConnectionManager.closeConnectionIfMatch
  split
  · rename_i current
    have latest := kept.stored c current
    refine { kept with stored := ?_, lost := ?_, replaced := ?_, closed := ?_ }
    · intro e found
      simp at found
    · intro e _ last
      rw [← Option.some.inj (latest.symm.trans last)]
      exact Function.update_self ..
    · intro e old
      by_cases same : e = c
      · rw [same]
        exact Function.update_self ..
      · exact (Function.update_of_ne same ..).trans (kept.replaced e old)
    · intro e shut
      by_cases same : e = c
      · rw [same]
        exact dead
      · exact kept.closed e ((Function.update_of_ne same ..).symm.trans shut)
  · exact kept

theorem invariant_exit (moved : w.next (.exit s c) = some w') : Invariant ids log w' := by
  simp only [Dialling.next] at moved
  split at moved
  · rename_i peerID run
    simp only [Option.ite_none_right_eq_some, Option.some.injEq] at moved
    obtain ⟨broken, rfl⟩ := moved
    have kept := inv.kept s
    have dead : ∃ t, Superseded log t c := by
      rcases Bool.or_eq_true_iff.mp broken with shut | shut
      · exact (inv.kept .left).closed c shut
      · exact (inv.kept .right).closed c shut
    have own := kept.running c peerID run
    subst own
    apply inv.set
    refine { kept.dropped dead with running := ?_ }
    intro e p still
    simp only at still
    by_cases same : e = c
    · simp [same] at still
    · rw [Function.update_of_ne same] at still
      exact kept.running e p still
  · cases moved

theorem invariant_next (named : ∀ s, ids s ≠ "") {w' : Dialling} {move : DialMove}
    (moved : w.next move = some w') :
    Invariant ids (fun s => log s ++ registrations s [move]) w' := by
  have quiet : (∀ s, registrations s [move] = []) → Invariant ids log w' →
      Invariant ids (fun s => log s ++ registrations s [move]) w' := by
    intro none later
    simpa [none] using later
  have one : ∀ t c, (∀ s, registrations s [move] = if t = s then [c] else []) →
      Invariant ids (Function.update log t (log t ++ [c])) w' →
      Invariant ids (fun s => log s ++ registrations s [move]) w' := by
    intro t c single later
    have same : (fun s => log s ++ registrations s [move]) =
        Function.update log t (log t ++ [c]) := by
      funext s
      by_cases same : t = s
      · simp [single, same]
      · simp [single, same, Function.update_of_ne (Ne.symm same)]
    rwa [same]
  cases move with
  | check s => exact quiet (fun _ => rfl) (invariant_check inv moved)
  | greet s => exact quiet (fun _ => rfl) (invariant_greet inv moved)
  | hear s => exact quiet (fun _ => rfl) (invariant_hear inv named moved)
  | answer s => exact quiet (fun _ => rfl) (invariant_answer inv moved)
  | read s => exact quiet (fun _ => rfl) (invariant_read inv moved)
  | exit s c => exact quiet (fun _ => rfl) (invariant_exit inv moved)
  | accept s =>
    apply one s s.other _ (invariant_accept inv moved)
    intro t
    by_cases same : s = t <;> simp [registrations, same]
  | register s =>
    apply one s s _ (invariant_register inv moved)
    intro t
    by_cases same : s = t <;> simp [registrations, same]

omit inv in
theorem invariant_run (named : ∀ s, ids s ≠ "") {moves : List DialMove} {w' : Dialling}
    (inv : Invariant ids log w)
    (followed : replay Dialling.next (fun _ _ => True) w moves = some w') :
    Invariant ids (fun s => log s ++ registrations s moves) w' := by
  induction moves generalizing w log with
  | nil =>
    cases followed
    simpa [registrations] using inv
  | cons move rest ih =>
    simp only [replay, if_true] at followed
    obtain ⟨u, first, later⟩ := Option.bind_eq_some_iff.mp followed
    have more := ih (invariant_next inv named first) later
    have glue : ∀ s, registrations s (move :: rest) =
        registrations s [move] ++ registrations s rest := by
      intro s
      exact List.filterMap_append (l := [move])
    simpa [glue, List.append_assoc] using more

theorem quiet_accepted (done : ∀ move, w.next move = none) (spoken : (w.hello s).isSome = true) :
    (w.manager s.other).accept = .registered := by
  have back : s.other.other = s := by cases s <;> rfl
  cases state : (w.manager s.other).accept with
  | waiting =>
    obtain ⟨p, said⟩ := Option.isSome_iff_exists.mp spoken
    have stuck := done (.hear s.other)
    simp [Dialling.next, state, back, said] at stuck
  | heard p =>
    have stuck := done (.answer s.other)
    simp [Dialling.next, state] at stuck
  | replied p =>
    have stuck := done (.accept s.other)
    simp [Dialling.next, state] at stuck
  | registered => rfl
  | refused => exact absurd state (inv.kept s.other).alive.2

theorem quiet_registered (done : ∀ move, w.next move = none) (s : Side) :
    s ∈ log s ∧ s ∈ log s.other ∨ s ∉ log s ∧ s ∉ log s.other ∧ log s ≠ [] := by
  have kept := inv.kept s
  have far := inv.kept s.other
  have back : s.other.other = s := by cases s <;> rfl
  have accepted := far.accepted
  have hears := far.hears
  have replies := far.replies
  rw [back] at accepted hears replies
  cases state : (w.manager s).dial with
  | entry =>
    have stuck := done (.check s)
    simp [Dialling.next, state] at stuck
  | dialing =>
    have stuck := done (.greet s)
    simp [Dialling.next, state] at stuck
  | greeted =>
    -- the reply is there to be read, or the other side can still move
    have answered := quiet_accepted inv done (kept.greeted.mp (Or.inl state))
    obtain ⟨p, said⟩ := Option.isSome_iff_exists.mp (replies (Or.inl answered))
    have stuck := done (.read s)
    simp [Dialling.next, state, said] at stuck
  | answered =>
    have stuck := done (.register s)
    simp [Dialling.next, state] at stuck
  | registered =>
    have answered := quiet_accepted inv done (kept.greeted.mp (Or.inr (Or.inr state)))
    exact Or.inl ⟨kept.dialed.mpr state, accepted.mpr answered⟩
  | skipped =>
    have silent : ¬ (w.hello s).isSome = true := by
      rw [← kept.greeted, state]
      simp
    have waiting : (w.manager s.other).accept = .waiting := by
      by_contra moved
      exact silent (hears moved)
    refine Or.inr ⟨?_, ?_, kept.skipped state⟩
    · rw [kept.dialed, state]
      simp
    · rw [accepted, waiting]
      simp
  | failed => exact absurd state kept.alive.1

end

end Steps

theorem nodup_of_last {l : List Side} {c : Side} (once : l.Nodup) (last : l.getLast? = some c) :
    l = if c.other ∈ l then [c.other, c] else [c] := by
  match l with
  | [] => cases last
  | [x] =>
    cases last
    simp [x.other_ne]
  | [x, y] =>
    cases last
    have ne : x ≠ y := by simpa using once
    rcases y.eq_or_other x with same | rfl
    · exact absurd same ne
    · simp
  | x :: y :: z :: rest =>
    revert once
    cases x <;> cases y <;> cases z <;> simp

/-- Once nothing is left to do, two managers that dialled each other share one
open connection exactly if they registered their connections in the same order. -/
theorem dialling_settles_iff {ids : Side → String} (named : ∀ s, ids s ≠ "") {moves : List DialMove}
    {w : Dialling} (followed : replay Dialling.next (fun _ _ => True) (.start ids) moves = some w)
    (done : ∀ move, w.next move = none) :
    w.Settled ids ↔ registrations .left moves = registrations .right moves := by
  have inv := invariant_run named (invariant_start ids) followed
  simp only [List.nil_append] at inv
  have ended := quiet_registered inv done
  constructor
  · rintro ⟨c, -, stored⟩
    have last := fun s => (inv.kept s).stored c (stored s)
    have shared : c.other ∈ registrations .left moves ↔ c.other ∈ registrations .right moves := by
      cases c with
      | left =>
        rcases ended .right with ⟨own, far⟩ | ⟨own, far, -⟩
        · exact iff_of_true far own
        · exact iff_of_false far own
      | right =>
        rcases ended .left with ⟨own, far⟩ | ⟨own, far, -⟩
        · exact iff_of_true own far
        · exact iff_of_false own far
    rw [nodup_of_last (inv.kept .left).once (last .left),
      nodup_of_last (inv.kept .right).once (last .right)]
    simp only [shared]
  · intro same
    have some_ : registrations .left moves ≠ [] := by
      rcases ended .left with ⟨own, -⟩ | ⟨-, -, some_⟩
      · exact List.ne_nil_of_mem own
      · exact some_
    obtain ⟨c, last⟩ := Option.isSome_iff_exists.mp (List.getLast?_isSome.mpr some_)
    have latest : ∀ s, (registrations s moves).getLast? = some c := by
      intro s
      cases s with
      | left => exact last
      | right => exact same ▸ last
    have open_ : ∀ s, (w.manager s).closed c = false := by
      intro s
      rw [Bool.eq_false_iff]
      intro shut
      obtain ⟨t, -, older⟩ := (inv.kept s).closed c shut
      exact older (latest t)
    refine ⟨c, by simp [Dialling.broken, open_], fun s => ?_⟩
    cases found : (w.manager s).connections.lookup (ids s.other) with
    | none =>
      have shut := (inv.kept s).lost c found (latest s)
      rw [open_ s] at shut
      cases shut
    | some d => exact ((inv.kept s).stored d found).symm.trans (latest s)

def twoIds : Side → String
  | .left => "a"
  | .right => "b"

def alignedDials : List DialMove :=
  [.check .left, .check .right, .greet .left, .hear .right, .answer .right, .accept .right,
    .read .left, .register .left, .greet .right, .hear .left, .answer .left, .accept .left,
    .read .right, .register .right, .exit .left .left, .exit .right .left]

def crossedDials : List DialMove :=
  [.check .left, .check .right, .greet .left, .greet .right, .hear .left, .hear .right,
    .answer .left, .answer .right, .read .left, .read .right, .register .left, .register .right,
    .accept .left, .accept .right, .exit .left .left, .exit .right .right, .exit .left .right,
    .exit .right .left]

def Dialling.ended (w : Dialling) : Bool :=
  [Side.left, .right].all fun s =>
    ([.check s, .greet s, .hear s, .answer s, .accept s, .read s, .register s, .exit s .left,
      .exit s .right] : List DialMove).all (fun move => (w.next move).isNone)

theorem Dialling.ended_next {w : Dialling} (ended : w.ended = true) (move : DialMove) :
    w.next move = none := by
  simp only [Dialling.ended, List.all_cons, List.all_nil, Bool.and_true, Bool.and_eq_true,
    Option.isNone_iff_eq_none] at ended
  cases move with
  | exit s c => cases s <;> cases c <;> simp only [ended]
  | _ s => cases s <;> simp only [ended]

theorem dialling_settles_iff_alignedDials : ∃ w, replay Dialling.next (fun _ _ => True)
    (.start twoIds) alignedDials = some w ∧ w.Settled twoIds := by
  obtain ⟨w, followed, ended⟩ := (Option.any_eq_true Dialling.ended _).mp
    (by decide : (replay Dialling.next (fun _ _ => True) (.start twoIds)
      alignedDials).any Dialling.ended = true)
  refine ⟨w, followed, ?_⟩
  apply (dialling_settles_iff _ followed (Dialling.ended_next ended)).mpr
  · decide
  · intro s
    cases s <;> decide

theorem crossed_registrations_disconnect :
    ∃ w, replay Dialling.next (fun _ _ => True) (.start twoIds) crossedDials = some w ∧
      (∀ move, w.next move = none) ∧ ¬ w.Settled twoIds := by
  obtain ⟨w, followed, ended⟩ := (Option.any_eq_true (fun w => Dialling.ended w &&
      decide ((w.manager .left).connections.lookup "b" = none)) _).mp
    (by decide : (replay Dialling.next (fun _ _ => True) (.start twoIds)
      crossedDials).any (fun w => Dialling.ended w &&
        decide ((w.manager .left).connections.lookup "b" = none)) = true)
  obtain ⟨ended, missing⟩ := (Bool.and_eq_true _ _).mp ended
  refine ⟨w, followed, Dialling.ended_next ended, ?_⟩
  rintro ⟨c, -, stored⟩
  have found := stored .left
  rw [show (w.manager .left).connections.lookup (twoIds Side.left.other) = none from
    of_decide_eq_true missing] at found
  cases found

end P2PSync
