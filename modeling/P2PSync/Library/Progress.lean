import P2PSync.Library.Transition

/-! Finite runs with their labels, and what bounds them: where the steps of some kind pay
out of a measure of the state, a run has no more of them than the measure was. -/
namespace Transition

variable {S A : Type} {step : S → A → S → Prop}

inductive Path (step : S → A → S → Prop) : S → List A → S → Prop where
  | nil (s : S) : Path step s [] s
  | cons {s t u : S} {a : A} {as : List A} : step s a t → Path step t as u →
      Path step s (a :: as) u

theorem Path.invariant {I : S → Prop} (keep : ∀ s a t, I s → step s a t → I t) {s t : S}
    {as : List A} (path : Path step s as t) (start : I s) : I t := by
  induction path with
  | nil => exact start
  | cons first _ ih => exact ih (keep _ _ _ start first)

theorem Path.reach {initial : S → Prop} {s t : S} {as : List A} (path : Path step s as t)
    (start : Reach initial step s) : Reach initial step t := by
  induction path with
  | nil => exact start
  | cons first _ ih => exact ih (.next start first)

theorem Path.append {s t u : S} {as bs : List A} (path : Path step s as t)
    (later : Path step t bs u) : Path step s (as ++ bs) u := by
  induction path with
  | nil => exact later
  | cons first _ ih => exact .cons first (ih later)

theorem Path.weaken {step' : S → A → S → Prop} (weaken : ∀ s a t, step s a t → step' s a t)
    {s t : S} {as : List A} (path : Path step s as t) : Path step' s as t := by
  induction path with
  | nil s => exact .nil s
  | cons first _ ih => exact .cons (weaken _ _ _ first) ih

theorem Path.labelled {s t : S} {as : List A} (path : Path step s as t) :
    Path (fun s a t => step s a t ∧ a ∈ as) s as t := by
  induction path with
  | nil s => exact .nil s
  | cons first _ ih =>
    refine .cons ⟨first, List.mem_cons_self⟩ (ih.weaken ?_)
    exact fun _ _ _ later => ⟨later.1, List.mem_cons_of_mem _ later.2⟩

theorem path_of_replay (next : S → A → Option S) (ok : S → A → Prop)
    [∀ s a, Decidable (ok s a)] {s : S} (labels : List A) (P : S → Prop) [DecidablePred P]
    (holds : (replay next ok s labels).any (fun t => decide (P t)) = true) :
    ∃ t, Path (Guarded (Runs next) ok) s labels t ∧ P t := by
  induction labels generalizing s with
  | nil => exact ⟨s, .nil s, by simpa [replay] using holds⟩
  | cons a rest ih =>
    unfold replay at holds
    split at holds
    · rename_i allowed
      cases first : next s a with
      | none => simp [first] at holds
      | some u =>
        rw [first, Option.bind_some] at holds
        obtain ⟨t, later, found⟩ := ih holds
        exact ⟨t, .cons ⟨first, allowed⟩ later, found⟩
    · cases holds

section

variable {I : S → Prop} (keep : ∀ s a t, I s → step s a t → I t) (p : A → Bool) (measure : S → Nat)

include keep

theorem Path.countP_le
    (pay : ∀ s a t, I s → step s a t → (if p a then 1 else 0) + measure t ≤ measure s) {s t : S}
    {as : List A} (path : Path step s as t) (start : I s) :
    as.countP p + measure t ≤ measure s := by
  induction path with
  | nil => simp
  | cons first _ ih =>
    have rest := ih (keep _ _ _ start first)
    have paid := pay _ _ _ start first
    rw [List.countP_cons]
    omega

theorem Path.length_le (lower : ∀ s a t, I s → step s a t → measure t < measure s) {s t : S}
    {as : List A} (path : Path step s as t) (start : I s) : as.length ≤ measure s := by
  induction path with
  | nil => exact Nat.zero_le _
  | cons first _ ih =>
    have rest := ih (keep _ _ _ start first)
    have less := lower _ _ _ start first
    rw [List.length_cons]
    omega

theorem Path.exists_stuck (lower : ∀ s a t, I s → step s a t → measure t < measure s) {s : S}
    (start : I s) : ∃ as t, Path step s as t ∧ ∀ a u, ¬ step t a u := by
  induction bound : measure s using Nat.strongRecOn generalizing s with
  | ind n ih =>
    by_cases stuck : ∃ a u, step s a u
    · obtain ⟨a, u, first⟩ := stuck
      have less := lower s a u start first
      obtain ⟨as, t, path, done⟩ := ih (measure u) (bound ▸ less) (keep s a u start first) rfl
      exact ⟨a :: as, t, .cons first path, done⟩
    · push Not at stuck
      exact ⟨[], s, .nil s, stuck⟩

end

end Transition
