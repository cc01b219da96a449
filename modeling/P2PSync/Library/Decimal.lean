import Mathlib.Tactic.Ring
import Mathlib.Data.String.Basic

/-! Integers in decimal text, as a parser of 64-bit integers accepts them: one sign or
none, at least one digit, nothing else, and a value that fits. -/
namespace Decimal

def digits (text : List Char) : Option Nat :=
  if text ≠ [] ∧ text.all Char.isDigit then some (Nat.ofDigitChars 10 text 0) else none

def signed : List Char → Option Int
  | '-' :: text => (digits text).map (fun n : Nat => -(n : Int))
  | '+' :: text => (digits text).map Int.ofNat
  | text => (digits text).map Int.ofNat

def parseInt (text : List Char) : Option Int :=
  (signed text).filter (fun n => decide (-2 ^ 63 ≤ n ∧ n < 2 ^ 63))

theorem digits_toDigits (n : Nat) : digits (Nat.toDigits 10 n) = some n := by
  have all : (Nat.toDigits 10 n).all Char.isDigit = true := by
    apply List.all_eq_true.mpr
    intro c member
    exact Nat.isDigit_of_mem_toDigits (by decide) (by decide) member
  simp only [digits, ne_eq, Nat.toDigits_ne_nil, not_false_eq_true, all, and_self, if_true,
    Nat.ofDigitChars_ten_toDigits]

theorem signed_digits {c : Char} {text : List Char} (digit : c.isDigit = true) :
    signed (c :: text) = (digits (c :: text)).map Int.ofNat := by
  unfold signed
  split
  · rename_i same
    cases same
    cases digit
  · rename_i same
    cases same
    cases digit
  · rfl

theorem signed_natural (n : Nat) : signed (toString (n : Int)).toList = some (n : Int) := by
  have text : (toString (n : Int)).toList = Nat.toDigits 10 n := by
    change (Nat.repr n).toList = _
    exact Nat.toList_repr
  rw [text]
  have value := digits_toDigits n
  cases written : Nat.toDigits 10 n with
  | nil => exact absurd written Nat.toDigits_ne_nil
  | cons c rest =>
    have digit : c.isDigit = true := by
      have member : c ∈ Nat.toDigits 10 n := written ▸ List.mem_cons_self
      exact Nat.isDigit_of_mem_toDigits (by decide) (by decide) member
    rw [signed_digits digit, ← written, value]
    rfl

theorem signed_toString (n : Int) : signed (toString n).toList = some n := by
  cases n with
  | ofNat n => exact signed_natural n
  | negSucc n =>
    have text : (toString (Int.negSucc n)).toList = '-' :: Nat.toDigits 10 (n + 1) := by
      change ("-" ++ Nat.repr (n + 1)).toList = _
      simp [Nat.toList_repr]
    simp only [text, signed, digits_toDigits, Option.map_some]
    rfl

theorem parseInt_toString {n : Int} (low : -2 ^ 63 ≤ n) (high : n < 2 ^ 63) :
    parseInt (toString n).toList = some n := by
  simp only [parseInt, signed_toString, Option.filter_some, decide_eq_true (And.intro low high),
    if_true]

theorem parseInt_fits {text : List Char} {n : Int} (parsed : parseInt text = some n) :
    -2 ^ 63 ≤ n ∧ n < 2 ^ 63 :=
  of_decide_eq_true (Option.filter_eq_some_iff.mp parsed).2

theorem mem_parseInt {text : List Char} {n : Int} (parsed : parseInt text = some n) {c : Char}
    (member : c ∈ text) : c.isDigit = true ∨ c = '-' ∨ c = '+' := by
  have all : ∀ {rest : List Char} {m : Nat}, digits rest = some m → ∀ d ∈ rest, d.isDigit = true := by
    intro rest m found d inside
    simp only [digits, Option.ite_none_right_eq_some] at found
    exact List.all_eq_true.mp found.1.2 d inside
  obtain ⟨value, -⟩ := Option.filter_eq_some_iff.mp parsed
  unfold signed at value
  split at value
  · obtain ⟨m, found, -⟩ := Option.map_eq_some_iff.mp value
    rcases List.mem_cons.mp member with rfl | inside
    · exact Or.inr (Or.inl rfl)
    · exact Or.inl (all found c inside)
  · obtain ⟨m, found, -⟩ := Option.map_eq_some_iff.mp value
    rcases List.mem_cons.mp member with rfl | inside
    · exact Or.inr (Or.inr rfl)
    · exact Or.inl (all found c inside)
  · obtain ⟨m, found, -⟩ := Option.map_eq_some_iff.mp value
    exact Or.inl (all found c member)

end Decimal
