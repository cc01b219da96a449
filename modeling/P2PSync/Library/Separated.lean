import Mathlib.Data.List.Basic

/-! Texts that a separator cuts into pieces. -/
namespace Separated

variable {α : Type} [DecidableEq α] {x : α}

theorem not_mem_of_mem_splitOn {xs piece : List α} (member : piece ∈ xs.splitOn x) : x ∉ piece := by
  by_cases inside : x ∈ xs
  · obtain ⟨before, after, rfl, first⟩ := List.eq_append_cons_of_mem inside
    rw [List.splitOn_append_cons_self, List.splitOn_eq_singleton first, List.singleton_append,
      List.mem_cons] at member
    rcases member with rfl | later
    · exact first
    · exact not_mem_of_mem_splitOn later
  · rw [List.splitOn_eq_singleton inside, List.mem_singleton] at member
    exact member ▸ inside
termination_by xs.length

theorem splitOn_eq_pair {xs a b : List α} :
    xs.splitOn x = [a, b] ↔ x ∉ a ∧ x ∉ b ∧ xs = a ++ x :: b := by
  constructor
  · intro cut
    have whole := @List.intercalate_splitOn _ xs _ _ x
    rw [cut, List.intercalate_cons_cons, List.intercalate_singleton, List.append_assoc] at whole
    refine ⟨?_, ?_, whole.symm⟩
    · exact not_mem_of_mem_splitOn (cut ▸ List.mem_cons_self)
    · exact not_mem_of_mem_splitOn (cut ▸ List.mem_cons_of_mem _ List.mem_cons_self)
  · rintro ⟨left, right, rfl⟩
    rw [List.splitOn_append_cons_self, List.splitOn_eq_singleton left,
      List.splitOn_eq_singleton right, List.singleton_append]

/-! Pieces that start with a mark. -/

section Marked

variable {mark : α} (proper : mark ≠ x)
include proper

theorem marked_first (xs : List α) :
    (∃ piece ∈ (xs.splitOn x).head?, piece.head? = some mark) ↔ xs.head? = some mark := by
  cases xs with
  | nil => simp
  | cons c xs =>
    obtain ⟨first, later, cut⟩ := List.exists_cons_of_ne_nil (List.splitOn_ne_nil x xs)
    rw [List.splitOn_cons_eq_if_modifyHead, cut]
    by_cases here : c = x
    · simp [here, proper.symm]
    · simp [here]

theorem marked_later (xs : List α) :
    (∃ piece ∈ (xs.splitOn x).tail, piece.head? = some mark) ↔ [x, mark] <:+: xs := by
  induction xs with
  | nil => simp
  | cons c xs ih =>
    have first := marked_first proper xs
    obtain ⟨piece, later, cut⟩ := List.exists_cons_of_ne_nil (List.splitOn_ne_nil x xs)
    rw [cut] at ih first
    rw [List.splitOn_cons_eq_if_modifyHead, cut, List.infix_cons_iff, List.cons_prefix_cons, ← ih]
    by_cases here : c = x
    · have front : [mark] <+: xs ↔ xs.head? = some mark := by
        cases xs with
        | nil => simp
        | cons d xs => simp [List.cons_prefix_cons, eq_comm]
      rw [front, ← first]
      simp [here]
    · simp [here, Ne.symm here]

theorem marked_iff (xs : List α) : (∃ piece ∈ xs.splitOn x, piece.head? = some mark) ↔
    xs.head? = some mark ∨ [x, mark] <:+: xs := by
  rw [← marked_first proper, ← marked_later proper]
  obtain ⟨first, later, cut⟩ := List.exists_cons_of_ne_nil (List.splitOn_ne_nil x xs)
  simp [cut]

end Marked

end Separated
