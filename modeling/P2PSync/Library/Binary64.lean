import Mathlib.Data.Nat.Log
import Mathlib.Tactic.Ring

/-! Integers carried by IEEE-754 double precision numbers. Only the rounding of
an integer to 53 significant bits and the conversions back to 64-bit machine
integers are needed; fractions, infinities and NaN do not occur. -/
namespace Binary64

/-- The nearest double of a natural number, ties to the even significand. -/
def round (n : Nat) : Nat :=
  if n < 2 ^ 53 then n
  else
    let e := n.log2 - 52
    let q := n / 2 ^ e
    let r := n % 2 ^ e
    if r < 2 ^ (e - 1) ∨ (r = 2 ^ (e - 1) ∧ q % 2 = 0) then q * 2 ^ e else (q + 1) * 2 ^ e

def roundInt (x : Int) : Int :=
  if 0 ≤ x then round x.toNat else - (round (-x).toNat : Int)

/-- Two's complement reading of the low 64 bits. -/
def wrapInt64 (x : Int) : Int := x.bmod (2 ^ 64)

def wrapUint64 (x : Int) : Nat := (x % 2 ^ 64).toNat

/-- Conversion of an integral double to uint64. Out of range the result is
implementation specific; here as on amd64, where a negative number in the range of
int64 keeps its 64 bits and any other gives the integer indefinite. -/
def toUint64 (x : Int) : Nat :=
  let f := roundInt x
  if - 2 ^ 63 ≤ f ∧ f < 2 ^ 64 then wrapUint64 f else 2 ^ 63

def toInt64 (x : Int) : Int :=
  let f := roundInt x
  if - 2 ^ 63 ≤ f ∧ f < 2 ^ 63 then f else - 2 ^ 63

/-- Conversion to uint32 goes through int64 and keeps the low half. -/
def toUint32 (x : Int) : Nat := (toInt64 x % 2 ^ 32).toNat

theorem round_small {n : Nat} (small : n < 2 ^ 53) : round n = n := if_pos small

theorem roundInt_small {x : Int} (lower : 0 ≤ x) (upper : x < 2 ^ 53) : roundInt x = x := by
  have small : x.toNat < 2 ^ 53 := by omega
  simp only [roundInt, if_pos lower, round_small small]
  omega

theorem toUint64_small {n : Nat} (small : n < 2 ^ 53) : toUint64 (n : Int) = n := by
  have h : roundInt (n : Int) = n := roundInt_small (by omega) (by exact_mod_cast small)
  simp only [toUint64, h]
  rw [if_pos (by constructor <;> omega), wrapUint64]
  omega

theorem toInt64_small {x : Int} (lower : - 2 ^ 53 < x) (upper : x < 2 ^ 53) : toInt64 x = x := by
  have exact : roundInt x = x := by
    by_cases sign : 0 ≤ x
    · exact roundInt_small sign upper
    · have small : (-x).toNat < 2 ^ 53 := by omega
      simp only [roundInt, if_neg sign, round_small small]
      omega
  simp only [toInt64, exact]
  rw [if_pos (by constructor <;> omega)]

theorem wrapUint64_of_range {x : Int} (lower : 0 ≤ x) (upper : x < 2 ^ 64) :
    (wrapUint64 x : Int) = x := by
  unfold wrapUint64
  omega

theorem wrapInt64_of_range {x : Int} (lower : - 2 ^ 63 ≤ x) (upper : x < 2 ^ 63) :
    wrapInt64 x = x := by
  unfold wrapInt64
  rw [Int.bmod_def]
  split <;> omega

theorem toUint64_lt (x : Int) : toUint64 x < 2 ^ 64 := by
  simp only [toUint64, wrapUint64]
  split <;> omega

theorem wrapUint64_natCast {n : Nat} (bound : n < 2 ^ 64) : wrapUint64 n = n := by
  unfold wrapUint64
  omega

theorem wrapUint64_wrapInt64 (x : Int) : wrapUint64 (wrapInt64 x) = wrapUint64 x := by
  unfold wrapUint64 wrapInt64
  rw [show ((2 : Int) ^ 64) = ((2 ^ 64 : Nat) : Int) by norm_cast, Int.bmod_emod]

theorem wrapUint64_succ (x : Int) :
    wrapUint64 (x + 1) = if wrapUint64 x + 1 < 2 ^ 64 then wrapUint64 x + 1 else 0 := by
  unfold wrapUint64
  split <;> omega

section Rounding

theorem exists_parts {n : Nat} (large : 2 ^ 53 ≤ n) :
    ∃ k q r, 2 ^ 52 ≤ q ∧ q < 2 ^ 53 ∧ r < 2 ^ (k + 1) ∧ n = q * 2 ^ (k + 1) + r := by
  have positive : n ≠ 0 := by omega
  have high : 53 ≤ n.log2 := (Nat.le_log2 positive).mpr large
  obtain ⟨k, exponent⟩ : ∃ k, n.log2 = 53 + k := Nat.exists_eq_add_of_le high
  have lower : 2 ^ 52 * 2 ^ (k + 1) ≤ n := by
    have least := Nat.log2_self_le positive
    rwa [exponent, show 53 + k = 52 + (k + 1) by omega, Nat.pow_add] at least
  have upper : n < 2 ^ 53 * 2 ^ (k + 1) := by
    have most := Nat.lt_log2_self (n := n)
    rwa [exponent, show 53 + k + 1 = 53 + (k + 1) by omega, Nat.pow_add] at most
  refine ⟨k, n / 2 ^ (k + 1), n % 2 ^ (k + 1), ?_, ?_, Nat.mod_lt _ (Nat.two_pow_pos _), ?_⟩
  · exact (Nat.le_div_iff_mul_le (Nat.two_pow_pos _)).mpr lower
  · exact (Nat.div_lt_iff_lt_mul (Nat.two_pow_pos _)).mpr upper
  · rw [Nat.mul_comm, Nat.div_add_mod]

theorem round_parts {k q r : Nat} (lower : 2 ^ 52 ≤ q) (upper : q < 2 ^ 53)
    (rest : r < 2 ^ (k + 1)) :
    round (q * 2 ^ (k + 1) + r) =
      if r < 2 ^ k ∨ (r = 2 ^ k ∧ q % 2 = 0) then q * 2 ^ (k + 1) else (q + 1) * 2 ^ (k + 1) := by
  have least : 2 ^ 52 * 2 ^ (k + 1) ≤ q * 2 ^ (k + 1) := Nat.mul_le_mul_right _ lower
  have most : (q + 1) * 2 ^ (k + 1) ≤ 2 ^ 53 * 2 ^ (k + 1) := Nat.mul_le_mul_right _ upper
  have step : (q + 1) * 2 ^ (k + 1) = q * 2 ^ (k + 1) + 2 ^ (k + 1) := Nat.succ_mul _ _
  have one : 2 ≤ 2 ^ (k + 1) := by
    rw [Nat.pow_succ]
    have := Nat.two_pow_pos k
    omega
  have large : ¬ q * 2 ^ (k + 1) + r < 2 ^ 53 := by
    have double : 2 ^ 52 * 2 ≤ 2 ^ 52 * 2 ^ (k + 1) := Nat.mul_le_mul_left _ one
    omega
  have exponent : (q * 2 ^ (k + 1) + r).log2 = 53 + k := by
    rw [Nat.log2_eq_iff (by omega)]
    constructor
    · rw [show 53 + k = 52 + (k + 1) by omega, Nat.pow_add]
      exact least.trans (Nat.le_add_right _ _)
    · rw [show 53 + k + 1 = 53 + (k + 1) by omega, Nat.pow_add 2 53]
      exact Nat.lt_of_lt_of_le (step ▸ Nat.add_lt_add_left rest _) most
  have quotient : (q * 2 ^ (k + 1) + r) / 2 ^ (k + 1) = q := by
    rw [Nat.add_comm, Nat.add_mul_div_right _ _ (Nat.two_pow_pos _), Nat.div_eq_of_lt rest,
      Nat.zero_add]
  have remainder : (q * 2 ^ (k + 1) + r) % 2 ^ (k + 1) = r := by
    rw [Nat.add_comm, Nat.add_mul_mod_self_right, Nat.mod_eq_of_lt rest]
  simp only [round, if_neg large, exponent, show 53 + k - 52 = k + 1 by omega, quotient, remainder,
    Nat.add_sub_cancel]

def Wide (d : Nat) : Prop := ∃ k q, 2 ^ 52 ≤ q ∧ q < 2 ^ 53 ∧ d = q * 2 ^ (k + 1)

theorem round_wide {n : Nat} (large : 2 ^ 53 ≤ n) : Wide (round n) := by
  obtain ⟨k, q, r, lower, upper, rest, rfl⟩ := exists_parts large
  rw [round_parts lower upper rest]
  split
  · exact ⟨k, q, lower, upper, rfl⟩
  · by_cases last : q + 1 < 2 ^ 53
    · exact ⟨k, q + 1, by omega, last, rfl⟩
    · -- the leading ones overflow into the next power of two
      refine ⟨k + 1, 2 ^ 52, by omega, by omega, ?_⟩
      rw [show q + 1 = 2 ^ 52 * 2 by omega, Nat.pow_succ 2 (k + 1), Nat.mul_comm (2 ^ (k + 1)) 2,
        Nat.mul_assoc]

theorem Wide.large {d : Nat} (wide : Wide d) : 2 ^ 53 ≤ d := by
  obtain ⟨k, q, lower, -, rfl⟩ := wide
  have one := Nat.two_pow_pos k
  calc 2 ^ 53 = 2 ^ 52 * 2 := by decide
    _ ≤ q * 2 ^ (k + 1) := Nat.mul_le_mul lower (by rw [Nat.pow_succ]; omega)

theorem Wide.round_eq {d : Nat} (wide : Wide d) : round d = d := by
  obtain ⟨k, q, lower, upper, rfl⟩ := wide
  have exact_ := round_parts (r := 0) lower upper (Nat.two_pow_pos (k + 1))
  rwa [if_pos (Or.inl (Nat.two_pow_pos k))] at exact_

/-- One more is lost in the rounding, except between doubles two apart where it is
a tie that goes to the even one above. -/
theorem Wide.round_succ {d : Nat} (wide : Wide d) :
    round (d + 1) = if d < 2 ^ 54 ∧ d % 4 = 2 then d + 2 else d := by
  obtain ⟨k, q, lower, upper, rfl⟩ := wide
  cases k with
  | zero =>
    have rounded := round_parts (k := 0) (r := 1) lower upper (by decide)
    rw [rounded]
    split <;> split <;> omega
  | succ k =>
    have four : 2 ^ (k + 1 + 1) = 4 * 2 ^ k := by
      rw [Nat.pow_succ, Nat.pow_succ]
      omega
    have positive := Nat.two_pow_pos k
    have rounded := round_parts (k := k + 1) (r := 1) lower upper (by omega)
    have high : ¬ q * 2 ^ (k + 1 + 1) < 2 ^ 54 := by
      have product : 2 ^ 52 * 4 ≤ q * 2 ^ (k + 1 + 1) := Nat.mul_le_mul lower (by omega)
      omega
    rw [rounded, if_pos (Or.inl (by rw [Nat.pow_succ]; omega)), if_neg (fun h => high h.1)]

theorem round_near {n : Nat} (large : 2 ^ 53 ≤ n) (near : round n < 2 ^ 54) : n < round n + 2 := by
  obtain ⟨k, q, r, lower, upper, rest, rfl⟩ := exists_parts large
  rw [round_parts lower upper rest] at near ⊢
  cases k with
  | zero => split <;> omega
  | succ k =>
    have positive := Nat.two_pow_pos k
    have product : 2 ^ 52 * 4 ≤ q * 2 ^ (k + 1 + 1) := by
      apply Nat.mul_le_mul lower
      rw [Nat.pow_succ, Nat.pow_succ]
      omega
    have next : q * 2 ^ (k + 1 + 1) ≤ (q + 1) * 2 ^ (k + 1 + 1) :=
      Nat.mul_le_mul_right _ (Nat.le_succ q)
    split at near <;> omega

theorem toUint64_natCast (n : Nat) :
    toUint64 (n : Int) = if round n < 2 ^ 64 then round n else 2 ^ 63 := by
  have whole : roundInt (n : Int) = round n := by
    rw [roundInt, if_pos (Int.natCast_nonneg n), Int.toNat_natCast]
  simp only [toUint64, whole, wrapUint64]
  split <;> split <;> omega

theorem toUint64_wide {n : Nat} (large : 2 ^ 53 ≤ n) : Wide (toUint64 (n : Int)) := by
  rw [toUint64_natCast]
  split
  · exact round_wide large
  · exact ⟨10, 2 ^ 52, by decide, by decide, by decide⟩

theorem toUint64_toUint64 (n : Nat) : toUint64 (toUint64 (n : Int) : Int) = toUint64 (n : Int) := by
  by_cases small : n < 2 ^ 53
  · rw [toUint64_small small, toUint64_small small]
  · have wide := toUint64_wide (Nat.le_of_not_lt small)
    rw [toUint64_natCast (toUint64 (n : Int)), wide.round_eq, if_pos (toUint64_lt _)]

theorem lt_toUint64_succ_iff (n : Nat) : n < toUint64 ((toUint64 (n : Int) + 1 : Nat) : Int) ↔
      n < toUint64 (n : Int) ∨ n < 2 ^ 53 ∨
        toUint64 (n : Int) < 2 ^ 54 ∧ toUint64 (n : Int) % 4 = 2 := by
  by_cases small : n < 2 ^ 53
  · have next : toUint64 ((n + 1 : Nat) : Int) = n + 1 := by
      by_cases last : n + 1 < 2 ^ 53
      · exact toUint64_small last
      · rw [show n + 1 = 2 ^ 53 by omega]
        decide
    rw [toUint64_small small, next]
    simp only [small, true_or, or_true, iff_true]
    omega
  · have wide := toUint64_wide (Nat.le_of_not_lt small)
    have bound := toUint64_lt (n : Int)
    have decoded : toUint64 ((toUint64 (n : Int) + 1 : Nat) : Int) =
        if toUint64 (n : Int) < 2 ^ 54 ∧ toUint64 (n : Int) % 4 = 2 then toUint64 (n : Int) + 2
        else toUint64 (n : Int) := by
      rw [toUint64_natCast, wide.round_succ]
      by_cases tie : toUint64 (n : Int) < 2 ^ 54 ∧ toUint64 (n : Int) % 4 = 2
      · rw [if_pos tie, if_pos (by omega)]
      · rw [if_neg tie, if_pos bound]
    rw [decoded]
    split
    · rename_i tie
      have same : toUint64 (n : Int) = round n := by
        have rounded := toUint64_natCast n
        split at rounded <;> omega
      have near := round_near (Nat.le_of_not_lt small) (by omega)
      omega
    · omega

end Rounding

end Binary64
