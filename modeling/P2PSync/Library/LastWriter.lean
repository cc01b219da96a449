import Mathlib.Data.Set.Insert
import Mathlib.Order.Lattice
import P2PSync.Library.Transition

/-! A replicated register in which the greatest version wins. A new version is greater
than the one its author holds and is sent to every other replica. Versions arrive in any
order, and a replica may pass on what it holds at any time. The key of a version
determines its author. -/
namespace LastWriter

variable {P V K : Type} [LinearOrder K]

structure State (P V : Type) where
  row : P → Option V
  flight : Set (P × V)
  issued : Set V

def Covers (key : V → K) (held : Option V) (v : V) : Prop := ∃ w, held = some w ∧ key v ≤ key w

inductive Step [DecidableEq P] (peers : List P) (key : V → K) (author : V → P) :
    State P V → State P V → Prop where
  | idle (s : State P V) : Step peers key author s s
  | issue {s t : State P V} (p : P) (v : V) (own : author v = p)
      (above : ∀ w, s.row p = some w → key w < key v)
      (rows : t.row = Function.update s.row p (some v))
      (kept : ∀ x ∈ s.flight, x ∈ t.flight) (sent : ∀ q ∈ peers, q ≠ p → (q, v) ∈ t.flight)
      (only : ∀ x ∈ t.flight, x ∈ s.flight ∨ x.2 = v)
      (made : t.issued = insert v s.issued) : Step peers key author s t
  | receive {s t : State P V} (q : P) (v : V) (arrived : (q, v) ∈ s.flight)
      (others : ∀ p, p ≠ q → t.row p = s.row p)
      (merged : (t.row q = some v ∧ ∀ w, s.row q = some w → key w ≤ key v) ∨
        (t.row q = s.row q ∧ Covers key (s.row q) v))
      (kept : ∀ x ∈ s.flight, x ≠ (q, v) → x ∈ t.flight)
      (only : ∀ x ∈ t.flight, x ∈ s.flight ∨ s.row q = some x.2)
      (made : t.issued = s.issued) : Step peers key author s t

structure Invariant (peers : List P) (key : V → K) (author : V → P) (s : State P V) : Prop where
  held : ∀ p v, s.row p = some v → v ∈ s.issued
  carried : ∀ x ∈ s.flight, x.2 ∈ s.issued
  unique : ∀ v ∈ s.issued, ∀ w ∈ s.issued, key v = key w → v = w
  /-- The author of a version never falls behind it. -/
  kept : ∀ v ∈ s.issued, Covers key (s.row (author v)) v
  /-- A version that a replica lacks is still on its way there. -/
  due : ∀ v ∈ s.issued, ∀ q ∈ peers, Covers key (s.row q) v ∨ (q, v) ∈ s.flight

theorem Covers.mono {key : V → K} {a b : Option V} {v : V} (covers : Covers key a v)
    (grows : ∀ w, a = some w → Covers key b w) : Covers key b v := by
  obtain ⟨w, h, le⟩ := covers
  obtain ⟨x, hx, le'⟩ := grows w h
  exact ⟨x, hx, le.trans le'⟩

theorem invariant_empty (peers : List P) (key : V → K) (author : V → P) (s : State P V)
    (rows : ∀ p, s.row p = none) (flight : s.flight = ∅) (issued : s.issued = ∅) :
    Invariant peers key author s where
  held := fun p v h => by simp [rows p] at h
  carried := by simp [flight]
  unique := by simp [issued]
  kept := by simp [issued]
  due := by simp [issued]

variable [DecidableEq P] {peers : List P} {key : V → K} {author : V → P}

theorem Step.grows {s t : State P V} (step : Step peers key author s t) (p : P) (w : V)
    (held : s.row p = some w) : Covers key (t.row p) w := by
  cases step with
  | idle => exact ⟨w, held, le_rfl⟩
  | issue q v own above rows =>
    rw [rows]
    by_cases same : p = q
    · subst same
      exact ⟨v, Function.update_self .., (above w held).le⟩
    · exact ⟨w, by rw [Function.update_of_ne same, held], le_rfl⟩
  | receive q v arrived others merged =>
    by_cases same : p = q
    · subst same
      rcases merged with ⟨now, above⟩ | ⟨now, -⟩
      · exact ⟨v, now, above w held⟩
      · exact ⟨w, now.trans held, le_rfl⟩
    · exact ⟨w, (others p same).trans held, le_rfl⟩

section Step

variable {s t : State P V} (inv : Invariant peers key author s)
  (grows : ∀ p w, s.row p = some w → Covers key (t.row p) w)
include inv grows

theorem Invariant.issue (attributed : ∀ v w, key v = key w → author v = author w) {p : P} {v : V}
    (own : author v = p) (above : ∀ w, s.row p = some w → key w < key v)
    (rows : t.row = Function.update s.row p (some v)) (kept : ∀ x ∈ s.flight, x ∈ t.flight)
    (sent : ∀ q ∈ peers, q ≠ p → (q, v) ∈ t.flight) (only : ∀ x ∈ t.flight, x ∈ s.flight ∨ x.2 = v)
    (made : t.issued = insert v s.issued) : Invariant peers key author t := by
  -- the author already holds more than anything it made, so the key is new
  have fresh : ∀ w ∈ s.issued, key w ≠ key v := by
    intro w issued same
    obtain ⟨x, held, le⟩ := inv.kept w issued
    rw [attributed w v same, own] at held
    exact absurd (above x held) (not_lt.mpr (same ▸ le))
  have top : Covers key (t.row p) v := ⟨v, by rw [rows, Function.update_self], le_rfl⟩
  refine ⟨?_, ?_, ?_, ?_, ?_⟩
  · intro q w held
    rw [rows] at held
    rw [made]
    by_cases same : q = p
    · subst same
      rw [Function.update_self] at held
      exact Or.inl (Option.some.inj held).symm
    · rw [Function.update_of_ne same] at held
      exact Or.inr (inv.held q w held)
  · intro x member
    rw [made]
    exact (only x member).symm.imp id (inv.carried x)
  · rw [made]
    rintro a (rfl | ha) b (rfl | hb) same
    · rfl
    · exact absurd same.symm (fresh b hb)
    · exact absurd same (fresh a ha)
    · exact inv.unique a ha b hb same
  · rw [made]
    rintro a (rfl | ha)
    · rwa [own]
    · exact (inv.kept a ha).mono (grows _)
  · rw [made]
    rintro a (rfl | ha) q member
    · by_cases same : q = p
      · exact Or.inl (same ▸ top)
      · exact Or.inr (sent q member same)
    · exact (inv.due a ha q member).imp (·.mono (grows q)) (kept _)

omit [DecidableEq P] in
theorem Invariant.receive {q : P} {v : V} (arrived : (q, v) ∈ s.flight)
    (others : ∀ p, p ≠ q → t.row p = s.row p)
    (merged : (t.row q = some v ∧ ∀ w, s.row q = some w → key w ≤ key v) ∨
      (t.row q = s.row q ∧ Covers key (s.row q) v))
    (kept : ∀ x ∈ s.flight, x ≠ (q, v) → x ∈ t.flight)
    (only : ∀ x ∈ t.flight, x ∈ s.flight ∨ s.row q = some x.2) (made : t.issued = s.issued) :
    Invariant peers key author t := by
  have settled : Covers key (t.row q) v := by
    rcases merged with ⟨now, -⟩ | ⟨now, covers⟩
    · exact ⟨v, now, le_rfl⟩
    · exact now ▸ covers
  refine ⟨?_, ?_, ?_, ?_, ?_⟩
  · intro p w held
    rw [made]
    by_cases same : p = q
    · subst same
      rcases merged with ⟨now, -⟩ | ⟨now, -⟩
      · rw [now] at held
        exact Option.some.inj held ▸ inv.carried _ arrived
      · exact inv.held p w (now ▸ held)
    · exact inv.held p w (others p same ▸ held)
  · intro x member
    rw [made]
    exact (only x member).elim (inv.carried x) (inv.held q x.2)
  · rw [made]
    exact inv.unique
  · rw [made]
    exact fun a ha => (inv.kept a ha).mono (grows _)
  · rw [made]
    intro a ha p member
    rcases inv.due a ha p member with covers | flying
    · exact Or.inl (covers.mono (grows p))
    · by_cases same : (p, a) = (q, v)
      · cases same
        exact Or.inl settled
      · exact Or.inr (kept _ flying same)

end Step

theorem Step.keeps (attributed : ∀ v w, key v = key w → author v = author w) {s t : State P V}
    (step : Step peers key author s t) (inv : Invariant peers key author s) :
    Invariant peers key author t := by
  have grows := step.grows
  cases step with
  | idle => exact inv
  | issue p v own above rows kept sent only made =>
    exact inv.issue grows attributed own above rows kept sent only made
  | receive q v arrived others merged kept only made =>
    exact inv.receive grows arrived others merged kept only made

omit [DecidableEq P] in
theorem Invariant.agree {s : State P V} (inv : Invariant peers key author s)
    (quiet : s.flight = ∅) {p q : P} (hp : p ∈ peers) (hq : q ∈ peers) : s.row p = s.row q := by
  have behind : ∀ p ∈ peers, ∀ q ∈ peers, ∀ v, s.row p = some v → Covers key (s.row q) v := by
    intro p hp q hq v held
    refine (inv.due v (inv.held p v held) q hq).resolve_right ?_
    simp [quiet]
  have same : ∀ p ∈ peers, ∀ q ∈ peers, ∀ v, s.row p = some v → s.row q = some v := by
    intro p hp q hq v held
    obtain ⟨w, hw, le⟩ := behind p hp q hq v held
    obtain ⟨x, hx, le'⟩ := behind q hq p hp w hw
    cases Option.some.inj (held.symm.trans hx)
    rw [inv.unique v (inv.held p v held) w (inv.held q w hw) (le_antisymm le le')]
    exact hw
  cases h : s.row p with
  | some v => exact (same p hp q hq v h).symm
  | none =>
    cases h' : s.row q with
    | none => rfl
    | some w => exact absurd (h.symm.trans (same q hq p hp w h')) (by simp)

end LastWriter
