import Mathlib.Data.List.Perm.Basic

/-! Labelled transition systems. A run is any sequence of allowed steps. A condition on
steps is stated on the state before the step and on its label, never on the state it
leads to. -/
namespace Transition

variable {S A : Type}

/-- The states that runs from the initial states pass through. -/
inductive Reach (initial : S → Prop) (step : S → A → S → Prop) : S → Prop where
  | start {s : S} : initial s → Reach initial step s
  | next {s t : S} {a : A} : Reach initial step s → step s a t → Reach initial step t

/-- The steps that also meet a condition on the state they start from. -/
def Guarded (step : S → A → S → Prop) (ok : S → A → Prop) (s : S) (a : A) (t : S) : Prop :=
  step s a t ∧ ok s a

section

variable {T B : Type} {initial : S → Prop} {step : S → A → S → Prop}

theorem reach_invariant (I : S → Prop) (start : ∀ s, initial s → I s)
    (keep : ∀ s a t, I s → step s a t → I t) {s : S} (reached : Reach initial step s) : I s := by
  induction reached with
  | start h => exact start _ h
  | next _ h ih => exact keep _ _ _ ih h

theorem reach_mono {step' : S → A → S → Prop} (weaken : ∀ s a t, step s a t → step' s a t) {s : S}
    (reached : Reach initial step s) : Reach initial step' s := by
  induction reached with
  | start h => exact .start h
  | next _ h ih => exact .next ih (weaken _ _ _ h)

def Runs (next : S → A → Option S) (s : S) (a : A) (t : S) : Prop := next s a = some t

def replay (next : S → A → Option S) (ok : S → A → Prop) [∀ s a, Decidable (ok s a)] :
    S → List A → Option S
  | s, [] => some s
  | s, a :: rest => if ok s a then (next s a).bind (replay next ok · rest) else none

theorem reach_replay {next : S → A → Option S} {ok : S → A → Prop} [∀ s a, Decidable (ok s a)]
    {s t : S} (reached : Reach initial (Guarded (Runs next) ok) s) (labels : List A)
    (followed : replay next ok s labels = some t) : Reach initial (Guarded (Runs next) ok) t := by
  induction labels generalizing s with
  | nil => exact Option.some.inj followed ▸ reached
  | cons a rest ih =>
    unfold replay at followed
    split at followed
    · rename_i allowed
      obtain ⟨u, first, later⟩ := Option.bind_eq_some_iff.mp followed
      exact ih (.next reached ⟨first, allowed⟩) later
    · cases followed

/-- A property of the state that a list of labels leads to is a property of some
state that a run passes through. -/
theorem reach_of_replay (next : S → A → Option S) (ok : S → A → Prop) [∀ s a, Decidable (ok s a)]
    {s : S} (reached : Reach initial (Guarded (Runs next) ok) s) (labels : List A) (P : S → Prop)
    [DecidablePred P] (holds : (replay next ok s labels).any (fun t => decide (P t)) = true) :
    ∃ t, Reach initial (Guarded (Runs next) ok) t ∧ P t := by
  cases followed : replay next ok s labels with
  | none => simp [followed] at holds
  | some t => exact ⟨t, reach_replay reached labels followed, by simpa [followed] using holds⟩

theorem mem_eraseIdx_or {α : Type} {l : List α} {i : Nat} {a : α} (at_ : l[i]? = some a) {x : α} :
    x ∈ l ↔ x = a ∨ x ∈ l.eraseIdx i := by
  obtain ⟨bound, rfl⟩ := List.getElem?_eq_some_iff.mp at_
  have whole := (List.getElem_cons_eraseIdx_perm bound).mem_iff (a := x)
  rw [← whole, List.mem_cons]

theorem perm_at {α : Type} {l : List α} {i : Nat} {a : α} (at_ : l[i]? = some a) :
    l.Perm (a :: l.eraseIdx i) := by
  obtain ⟨bound, rfl⟩ := List.getElem?_eq_some_iff.mp at_
  exact (List.getElem_cons_eraseIdx_perm bound).symm

/-- Where every step of one system leaves it related to another system, as that is
or after a step of its own, whatever the first reaches is related to something
that the second reaches. -/
theorem reach_simulated {initial' : T → Prop} {step' : T → B → T → Prop} (R : S → T → Prop)
    (start : ∀ s, initial s → ∃ t, initial' t ∧ R s t)
    (simulate : ∀ s a s' t, R s t → step s a s' → R s' t ∨ ∃ b t', step' t b t' ∧ R s' t') {s : S}
    (reached : Reach initial step s) : ∃ t, Reach initial' step' t ∧ R s t := by
  induction reached with
  | start h =>
    obtain ⟨t, first, related⟩ := start _ h
    exact ⟨t, .start first, related⟩
  | next _ moved ih =>
    obtain ⟨t, reached, related⟩ := ih
    rcases simulate _ _ _ t related moved with stays | ⟨b, t', moved', related'⟩
    · exact ⟨t, reached, stays⟩
    · exact ⟨t', .next reached moved', related'⟩

end

section Filter

variable {α : Type} {p : α → Bool} {a : α}

theorem filter_eraseIdx_of_neg {l : List α} {i : Nat} (at_ : l[i]? = some a) (other : p a = false) :
    (l.eraseIdx i).filter p = l.filter p := by
  induction l generalizing i with
  | nil => cases at_
  | cons b l ih =>
    cases i with
    | zero =>
      cases Option.some.inj at_
      rw [List.eraseIdx_cons_zero, List.filter_cons, other, if_neg Bool.false_ne_true]
    | succ i => rw [List.eraseIdx_cons_succ, List.filter_cons, List.filter_cons, ih at_]

theorem filter_eraseIdx_of_pos {l : List α} {i : Nat} (at_ : l[i]? = some a) (own : p a = true) :
    ∃ k, (l.filter p)[k]? = some a ∧ (l.eraseIdx i).filter p = (l.filter p).eraseIdx k := by
  induction l generalizing i with
  | nil => cases at_
  | cons b l ih =>
    cases i with
    | zero =>
      cases Option.some.inj at_
      refine ⟨0, ?_, ?_⟩
      · rw [List.filter_cons, own, if_pos rfl]
        rfl
      · rw [List.eraseIdx_cons_zero, List.filter_cons, own, if_pos rfl, List.eraseIdx_cons_zero]
    | succ i =>
      obtain ⟨k, there, rest⟩ := ih at_
      rw [List.eraseIdx_cons_succ, List.filter_cons, List.filter_cons]
      split
      · exact ⟨k + 1, there, by rw [rest, List.eraseIdx_cons_succ]⟩
      · exact ⟨k, there, rest⟩

theorem filter_getElem? {l : List α} {k : Nat} (at_ : (l.filter p)[k]? = some a) :
    ∃ i, l[i]? = some a ∧ (l.eraseIdx i).filter p = (l.filter p).eraseIdx k := by
  induction l generalizing k with
  | nil => cases at_
  | cons b l ih =>
    rw [List.filter_cons] at at_ ⊢
    split at at_
    · rename_i own
      rw [if_pos own]
      cases k with
      | zero => exact ⟨0, at_, by rw [List.eraseIdx_cons_zero, List.eraseIdx_cons_zero]⟩
      | succ k =>
        obtain ⟨i, there, rest⟩ := ih at_
        refine ⟨i + 1, there, ?_⟩
        rw [List.eraseIdx_cons_succ, List.eraseIdx_cons_succ, List.filter_cons, if_pos own, rest]
    · rename_i other
      rw [if_neg other]
      obtain ⟨i, there, rest⟩ := ih at_
      refine ⟨i + 1, there, ?_⟩
      rw [List.eraseIdx_cons_succ, List.filter_cons, if_neg other, rest]

theorem filter_match {l l' : List α} (same : l'.filter p = l.filter p) {i : Nat}
    (at_ : l[i]? = some a) (own : p a = true) :
    ∃ j, l'[j]? = some a ∧ (l'.eraseIdx j).filter p = (l.eraseIdx i).filter p := by
  obtain ⟨k, kept, rest⟩ := filter_eraseIdx_of_pos at_ own
  rw [← same] at kept rest
  obtain ⟨j, there, rest'⟩ := filter_getElem? kept
  exact ⟨j, there, rest'.trans rest.symm⟩

end Filter

end Transition
