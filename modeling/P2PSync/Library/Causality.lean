import Mathlib.Data.List.Basic
import Mathlib.Logic.Relation
import Mathlib.Algebra.Order.Group.Nat
import Mathlib.Order.Lattice

/-! Events of several peers in the order in which they happened, each with the
vector clock of its peer afterwards. Happening before is defined from the events
and the messages alone. -/
namespace Causality

structure Event (P : Type) where
  peer : P
  /-- The event during which the processed message was sent. -/
  received : Option Nat
  ticked : Bool
  clock : P → Nat

variable {P : Type} {es : List (Event P)} {i j : Nat} {a b : Event P}

def Direct (es : List (Event P)) (i j : Nat) : Prop :=
  i < j ∧ ∃ a b, es[i]? = some a ∧ es[j]? = some b ∧ (a.peer = b.peer ∨ b.received = some i)

def HappensBefore (es : List (Event P)) : Nat → Nat → Prop := Relation.TransGen (Direct es)

structure Timed (es : List (Event P)) : Prop where
  grows : ∀ i j a b, Direct es i j → es[i]? = some a → es[j]? = some b → a.clock ≤ b.clock
  known : ∀ i j a b, es[i]? = some a → a.ticked = true → es[j]? = some b →
    a.clock a.peer ≤ b.clock a.peer →
    i = j ∨ ∃ k c, Direct es k j ∧ es[k]? = some c ∧ a.clock a.peer ≤ c.clock a.peer

theorem happensBefore_lt (before : HappensBefore es i j) : i < j := by
  induction before with
  | single direct => exact direct.1
  | tail _ direct ih => exact ih.trans direct.1

theorem Timed.clock_le (timed : Timed es) (before : HappensBefore es i j) (first : es[i]? = some a)
    (last : es[j]? = some b) : a.clock ≤ b.clock := by
  induction before generalizing b with
  | single direct => exact timed.grows _ _ _ _ direct first last
  | @tail k l _ direct ih =>
    obtain ⟨-, c, -, middle, -⟩ := id direct
    exact (ih middle).trans (timed.grows _ _ _ _ direct middle last)

theorem Timed.counted_iff (timed : Timed es) (first : es[i]? = some a) (ticked : a.ticked = true)
    (last : es[j]? = some b) : a.clock a.peer ≤ b.clock a.peer ↔ i = j ∨ HappensBefore es i j := by
  constructor
  · intro counted
    induction j using Nat.strong_induction_on generalizing b with
    | _ j ih =>
      rcases timed.known _ _ _ _ first ticked last counted with same | ⟨k, c, direct, at_, earlier⟩
      · exact Or.inl same
      · rcases ih k direct.1 at_ earlier with rfl | before
        · exact Or.inr (.single direct)
        · exact Or.inr (.tail before direct)
  · rintro (rfl | before)
    · rw [first] at last
      cases last
      exact le_refl _
    · exact timed.clock_le before first last a.peer

theorem Timed.clock_le_iff (timed : Timed es) (first : es[i]? = some a) (ticked : a.ticked = true)
    (last : es[j]? = some b) (distinct : i ≠ j) : a.clock ≤ b.clock ↔ HappensBefore es i j := by
  constructor
  · intro below
    exact ((timed.counted_iff first ticked last).mp (below a.peer)).resolve_left distinct
  · intro before
    exact timed.clock_le before first last

theorem getElem?_concat {e : Event P} (at_ : (es ++ [e])[i]? = some a) :
    es[i]? = some a ∨ i = es.length ∧ a = e := by
  rcases Nat.lt_or_ge i es.length with below | above
  · rw [List.getElem?_append_left below] at at_
    exact Or.inl at_
  · rw [List.getElem?_append_right above] at at_
    obtain ⟨zero, same⟩ := List.getElem?_eq_some_iff.mp at_
    simp only [List.length_singleton] at zero
    exact Or.inr ⟨by omega, by simpa using same.symm⟩

theorem lt_of_getElem? (at_ : es[i]? = some a) : i < es.length :=
  (List.getElem?_eq_some_iff.mp at_).1

structure Tracks (es : List (Event P)) (now : P → P → Nat) : Prop where
  timed : Timed es
  counted : ∀ a ∈ es, a.ticked = true → 0 < a.clock a.peer
  behind : ∀ a ∈ es, a.clock ≤ now a.peer
  /-- No clock is ahead of a peer's own count. -/
  owned : ∀ a ∈ es, ∀ q, a.clock q ≤ now q q
  last : ∀ p, (∀ q, now p q = 0) ∨ ∃ a ∈ es, a.peer = p ∧ a.clock = now p

variable {now : P → P → Nat} {e : Event P}

theorem tracks_nil : Tracks ([] : List (Event P)) (fun _ _ => 0) where
  timed := { grows := by simp, known := by simp }
  counted := by simp
  behind := by simp
  owned := by simp
  last := by simp

theorem Tracks.own (tracks : Tracks es now) (p q : P) : now p q ≤ now q q := by
  rcases tracks.last p with zero | ⟨a, mem, -, clock⟩
  · simp [zero]
  · exact clock ▸ tracks.owned a mem q

theorem direct_concat (direct : Direct es i j) : Direct (es ++ [e]) i j := by
  obtain ⟨lt, a, b, first, last, why⟩ := direct
  refine ⟨lt, a, b, ?_, ?_, why⟩
  · rwa [List.getElem?_append_left (lt_of_getElem? first)]
  · rwa [List.getElem?_append_left (lt_of_getElem? last)]

theorem direct_of_concat (direct : Direct (es ++ [e]) i j) (old : j < es.length) :
    Direct es i j := by
  obtain ⟨lt, a, b, first, last, why⟩ := direct
  rw [List.getElem?_append_left (lt.trans old)] at first
  rw [List.getElem?_append_left old] at last
  exact ⟨lt, a, b, first, last, why⟩

theorem direct_last (first : es[i]? = some a) (why : a.peer = e.peer ∨ e.received = some i) :
    Direct (es ++ [e]) i es.length :=
  ⟨lt_of_getElem? first, a, e, by rwa [List.getElem?_append_left (lt_of_getElem? first)],
    by simp, why⟩

variable [DecidableEq P]

/-- What a peer with the clock `before` does to it: count an event of its own, or
take the larger counts of a message, or nothing. -/
inductive Advances (es : List (Event P)) (before : P → Nat) : Event P → Prop where
  | tick (p : P) :
    Advances es before ⟨p, none, true, Function.update before p (before p + 1)⟩
  | merge (p : P) (k : Nat) (a : Event P) : es[k]? = some a →
    Advances es before ⟨p, some k, false, before ⊔ a.clock⟩
  | idle (p : P) : Advances es before ⟨p, none, false, before⟩

theorem Advances.before_le {before : P → Nat} (advances : Advances es before e) :
    before ≤ e.clock := by
  cases advances with
  | tick p =>
    intro q
    by_cases same : q = p
    · subst same
      simp
    · simp [same]
  | merge p k a at_ => exact le_sup_left
  | idle p => exact le_refl _

section

variable (tracks : Tracks es now) (advances : Advances es (now e.peer) e) (q : P)

include tracks advances

theorem Tracks.advanced : e.clock q ≤ Function.update now e.peer e.clock q q := by
  by_cases same : q = e.peer
  · subst same
    simp
  · rw [Function.update_of_ne same]
    generalize from_ : now e.peer = before at advances
    cases advances with
    | tick p =>
      simp only at same from_ ⊢
      rw [Function.update_of_ne same, ← from_]
      exact tracks.own p q
    | merge p k a at_ =>
      simp only at from_ ⊢
      rw [Pi.sup_apply, ← from_]
      exact max_le (tracks.own p q) (tracks.owned a (List.mem_of_getElem? at_) q)
    | idle p =>
      simp only at from_ ⊢
      rw [← from_]
      exact tracks.own p q

omit tracks in
theorem Advances.own_le : now q q ≤ Function.update now e.peer e.clock q q := by
  by_cases same : q = e.peer
  · subst same
    rw [Function.update_self]
    exact advances.before_le e.peer
  · rw [Function.update_of_ne same]

theorem Tracks.counts (first : es[i]? = some a) (ticked : a.ticked = true)
    (counted : a.clock a.peer ≤ e.clock a.peer) :
    ∃ k c, Direct (es ++ [e]) k es.length ∧ es[k]? = some c ∧ a.clock a.peer ≤ c.clock a.peer := by
  have mem := List.mem_of_getElem? first
  -- The peer's last event will do as soon as its clock counts the event.
  have through : a.clock a.peer ≤ now e.peer a.peer → ∃ k c,
      Direct (es ++ [e]) k es.length ∧ es[k]? = some c ∧ a.clock a.peer ≤ c.clock a.peer := by
    intro held
    rcases tracks.last e.peer with zero | ⟨c, c_mem, same, clock⟩
    · have positive := tracks.counted a mem ticked
      rw [zero] at held
      omega
    · obtain ⟨k, at_⟩ := List.mem_iff_getElem?.mp c_mem
      exact ⟨k, c, direct_last at_ (Or.inl same), at_, by rwa [clock]⟩
  generalize from_ : now e.peer = before at advances through
  cases advances with
  | tick p =>
    by_cases same : a.peer = p
    · apply through
      have behind := tracks.behind a mem a.peer
      simp only at from_
      rwa [same, from_, ← same] at behind
    · simp only [Function.update_of_ne same] at counted
      exact through counted
  | merge p k c at_ =>
    simp only [Pi.sup_apply] at counted
    rcases le_max_iff.mp counted with held | sent
    · exact through held
    · exact ⟨k, c, direct_last at_ (Or.inr rfl), at_, sent⟩
  | idle p => exact through counted

theorem Tracks.fresh (ticked : e.ticked = true) (mem : b ∈ es) :
    b.clock e.peer < e.clock e.peer := by
  have owned := tracks.owned b mem e.peer
  generalize from_ : now e.peer = before at advances owned
  cases advances with
  | tick p =>
    simp only [Function.update_self]
    simp only at owned
    omega
  | merge p k a at_ => simp at ticked
  | idle p => simp at ticked

theorem Tracks.timed_concat : Timed (es ++ [e]) := by
  constructor
  · intro i j a b direct first last
    rcases getElem?_concat last with last | ⟨rfl, rfl⟩
    · have old := direct_of_concat direct (lt_of_getElem? last)
      obtain ⟨-, a', -, first', -⟩ := id old
      rcases getElem?_concat first with first | ⟨rfl, rfl⟩
      · exact tracks.timed.grows _ _ _ _ old first last
      · exact absurd (lt_of_getElem? first') (lt_irrefl _)
    · obtain ⟨lt, a', b', first', last', why⟩ := direct
      rcases getElem?_concat first with first'' | ⟨rfl, rfl⟩
      · rw [first] at first'
        cases first'
        simp only [List.getElem?_concat_length, Option.some.injEq] at last'
        subst last'
        rcases why with same | received
        · exact (same ▸ tracks.behind a (List.mem_of_getElem? first'')).trans advances.before_le
        · generalize now b.peer = before at advances
          cases advances with
          | tick p => simp at received
          | merge p k c at_ =>
            simp only [Option.some.injEq] at received
            subst received
            rw [first''] at at_
            cases at_
            exact le_sup_right
          | idle p => simp at received
      · exact absurd lt (lt_irrefl _)
  · intro i j a b first ticked last counted
    rcases getElem?_concat last with old | ⟨rfl, rfl⟩
    · rcases getElem?_concat first with first | ⟨rfl, rfl⟩
      · rcases tracks.timed.known _ _ _ _ first ticked old counted with
          same | ⟨k, c, direct, at_, le⟩
        · exact Or.inl same
        · refine Or.inr ⟨k, c, direct_concat direct, ?_, le⟩
          rwa [List.getElem?_append_left (lt_of_getElem? at_)]
      · have fresh := tracks.fresh advances ticked (List.mem_of_getElem? old)
        omega
    · rcases getElem?_concat first with first | ⟨rfl, rfl⟩
      · obtain ⟨k, c, direct, at_, le⟩ := tracks.counts advances first ticked counted
        refine Or.inr ⟨k, c, direct, ?_, le⟩
        rwa [List.getElem?_append_left (lt_of_getElem? at_)]
      · exact Or.inl rfl

theorem Tracks.concat : Tracks (es ++ [e]) (Function.update now e.peer e.clock) where
  timed := tracks.timed_concat advances
  counted := by
    intro a mem ticked
    rcases List.mem_append.mp mem with mem | mem
    · exact tracks.counted a mem ticked
    · obtain rfl := List.mem_singleton.mp mem
      generalize now a.peer = before at advances
      cases advances with
      | tick p => simp
      | merge p k c at_ => simp at ticked
      | idle p => simp at ticked
  behind := by
    intro a mem
    rcases List.mem_append.mp mem with mem | mem
    · by_cases same : a.peer = e.peer
      · rw [same, Function.update_self]
        exact (same ▸ tracks.behind a mem).trans advances.before_le
      · rw [Function.update_of_ne same]
        exact tracks.behind a mem
    · cases List.mem_singleton.mp mem
      rw [Function.update_self]
  owned := by
    intro a mem q
    rcases List.mem_append.mp mem with mem | mem
    · exact (tracks.owned a mem q).trans (advances.own_le q)
    · cases List.mem_singleton.mp mem
      exact tracks.advanced advances q
  last := by
    intro p
    by_cases same : p = e.peer
    · subst same
      exact Or.inr ⟨e, by simp, rfl, by simp⟩
    · rw [Function.update_of_ne same]
      rcases tracks.last p with zero | ⟨a, mem, at_, clock⟩
      · exact Or.inl zero
      · exact Or.inr ⟨a, List.mem_append_left _ mem, at_, clock⟩

end

end Causality
