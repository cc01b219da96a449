import Mathlib.Data.List.Induction

/-! The last occurrence of a value in a log that only grows. -/

def Latest {α : Type} (log : List α) (x : α) (i : Nat) : Prop :=
  log[i]? = some x ∧ x ∉ log.drop (i + 1)

namespace Latest

variable {α : Type} {log : List α} {x y : α} {i j n : Nat}

theorem bound (latest : Latest log x i) : i < log.length :=
  (List.getElem?_eq_some_iff.mp latest.1).1

theorem of_snoc (log : List α) (x : α) : Latest (log ++ [x]) x log.length := by
  simp [Latest]

theorem snoc (latest : Latest log x i) (ne : y ≠ x) : Latest (log ++ [y]) x i := by
  refine ⟨?_, ?_⟩
  · rw [List.getElem?_append_left latest.bound]
    exact latest.1
  · rw [List.drop_append_of_le_length latest.bound, List.mem_append, List.mem_singleton]
    rintro (member | same)
    · exact latest.2 member
    · exact ne same.symm

theorem mem_drop (at_ : log[j]? = some x) (le : n ≤ j) : x ∈ log.drop n := by
  obtain ⟨k, rfl⟩ := Nat.exists_eq_add_of_le le
  rw [← List.getElem?_drop] at at_
  exact List.mem_of_getElem? at_

theorem le (latest : Latest log x i) (at_ : log[j]? = some x) : j ≤ i := by
  by_contra later
  exact latest.2 (mem_drop at_ (by omega))

theorem unique (first : Latest log x i) (second : Latest log x j) : i = j :=
  Nat.le_antisymm (second.le first.1) (first.le second.1)

theorem of_snoc_ne (latest : Latest (log ++ [y]) x i) (ne : y ≠ x) : Latest log x i := by
  obtain ⟨at_, last⟩ := latest
  rcases Nat.lt_or_ge i log.length with old | new
  · rw [List.getElem?_append_left old] at at_
    rw [List.drop_append_of_le_length old, List.mem_append, not_or] at last
    exact ⟨at_, last.1⟩
  · rw [List.getElem?_append_right new] at at_
    exact absurd (List.mem_singleton.mp (List.mem_of_getElem? at_)).symm ne

theorem exists_of_mem (member : x ∈ log) : ∃ i, Latest log x i := by
  induction log using List.reverseRecOn with
  | nil => cases member
  | append_singleton log y ih =>
    by_cases same : y = x
    · subst same
      exact ⟨log.length, of_snoc log y⟩
    · rcases List.mem_append.mp member with old | new
      · obtain ⟨i, latest⟩ := ih old
        exact ⟨i, latest.snoc same⟩
      · exact absurd (List.mem_singleton.mp new).symm same

theorem eq_iff (now : Latest log x j) (ago : Latest (log.take n) x i) : j = i ↔ x ∉ log.drop n := by
  have old : log[i]? = some x ∧ i < n := by
    have at_ := ago.1
    have bound := ago.bound
    rw [List.length_take] at bound
    rw [List.getElem?_take_of_lt (by omega)] at at_
    exact ⟨at_, by omega⟩
  constructor
  · rintro rfl member
    obtain ⟨k, at_⟩ := List.mem_iff_getElem?.mp member
    rw [List.getElem?_drop] at at_
    have := now.le at_
    omega
  · intro none
    have before : j < n := by
      by_contra after
      exact none (mem_drop now.1 (by omega))
    have seen : (log.take n)[j]? = some x := by
      rw [List.getElem?_take_of_lt before]
      exact now.1
    exact Nat.le_antisymm (ago.le seen) (now.le old.1)

end Latest
