import Mathlib.Data.Nat.Notation
import Mathlib.Tactic.Ring

/-! Records in a block of memory: numbers in little-endian order, arrays of 16-bit words,
and chains of records in which each says how far ahead the next one begins. A read that
leaves the block has no result. -/
namespace Records

def bytes : Nat → Nat → List UInt8
  | 0, _ => []
  | k + 1, n => UInt8.ofNat n :: bytes k (n / 256)

def value : List UInt8 → Nat
  | [] => 0
  | b :: bs => b.toNat + 256 * value bs

@[simp] theorem length_bytes (k n : Nat) : (bytes k n).length = k := by
  induction k generalizing n with
  | zero => rfl
  | succ k ih => rw [bytes, List.length_cons, ih]

theorem value_bytes {k n : Nat} (small : n < 256 ^ k) : value (bytes k n) = n := by
  induction k generalizing n with
  | zero => rw [bytes, value]; omega
  | succ k ih =>
    have byte : (UInt8.ofNat n).toNat = n % 256 := UInt8.toNat_ofNat'
    have rest : n / 256 < 256 ^ k := by
      apply Nat.div_lt_of_lt_mul
      rw [← Nat.pow_succ']
      exact small
    rw [bytes, value, byte, ih rest]
    omega

def read (k offset : Nat) (buf : List UInt8) : Option Nat :=
  if offset + k ≤ buf.length then some (value ((buf.drop offset).take k)) else none

theorem read_bytes {k n : Nat} (small : n < 256 ^ k) (before rest : List UInt8) :
    read k before.length (before ++ (bytes k n ++ rest)) = some n := by
  rw [read, if_pos (by simp), List.drop_left, List.take_left' (length_bytes k n), value_bytes small]

def readWords : Nat → List UInt8 → Option (List UInt16)
  | 0, _ => some []
  | k + 1, buf =>
    (read 2 0 buf).bind fun w => (readWords k (buf.drop 2)).map (UInt16.ofNat w :: ·)

def wordBytes (ws : List UInt16) : List UInt8 := ws.flatMap fun w => bytes 2 w.toNat

@[simp] theorem length_wordBytes (ws : List UInt16) : (wordBytes ws).length = 2 * ws.length := by
  induction ws with
  | nil => rfl
  | cons w ws ih =>
    rw [wordBytes, List.flatMap_cons, List.length_append, length_bytes, ← wordBytes, ih,
      List.length_cons]
    ring

theorem readWords_wordBytes (ws : List UInt16) (rest : List UInt8) :
    readWords ws.length (wordBytes ws ++ rest) = some ws := by
  induction ws with
  | nil => rfl
  | cons w ws ih =>
    have split : wordBytes (w :: ws) ++ rest = bytes 2 w.toNat ++ (wordBytes ws ++ rest) := by
      rw [wordBytes, List.flatMap_cons, ← wordBytes, List.append_assoc]
    have first := read_bytes (k := 2) (n := w.toNat) w.toNat_lt [] (wordBytes ws ++ rest)
    rw [List.length_cons, readWords, split]
    simp only [List.length_nil, List.nil_append] at first
    rw [first, Option.bind_some, List.drop_left' (length_bytes 2 w.toNat), ih, Option.map_some,
      UInt16.ofNat_toNat]

section Chain

variable {α : Type} (parse : List UInt8 → Option (α × Nat))

/-- Follow the chain: after each record go on at the distance it gives, until one gives
zero. -/
def walk : Nat → List UInt8 → Option (List α)
  | 0, _ => none
  | fuel + 1, buf =>
    match parse buf with
    | none => none
    | some (a, 0) => some [a]
    | some (a, next + 1) => (walk fuel (buf.drop (next + 1))).map (a :: ·)

inductive Chained : List UInt8 → List α → Prop where
  | last {buf : List UInt8} {a : α} : parse buf = some (a, 0) → Chained buf [a]
  | link {buf : List UInt8} {a : α} {next : Nat} {rest : List α} :
      parse buf = some (a, next + 1) → Chained (buf.drop (next + 1)) rest →
      Chained buf (a :: rest)

variable {parse}

theorem walk_of_chained {buf : List UInt8} {rs : List α} (chained : Chained parse buf rs)
    {fuel : Nat} (enough : rs.length ≤ fuel) : walk parse fuel buf = some rs := by
  induction chained generalizing fuel with
  | last found =>
    cases fuel with
    | zero => simp at enough
    | succ fuel => rw [walk, found]
  | @link buf a next rest found _ ih =>
    cases fuel with
    | zero => simp at enough
    | succ fuel =>
      rw [walk, found]
      simp only
      rw [ih (Nat.le_of_succ_le_succ enough), Option.map_some]

/-- Records take room, so a chain has no more of them than the block has bytes. -/
theorem Chained.length_le (room : parse [] = none) {buf : List UInt8} {rs : List α}
    (chained : Chained parse buf rs) : rs.length ≤ buf.length := by
  have filled : ∀ {buf : List UInt8} {x : α × Nat}, parse buf = some x → 0 < buf.length := by
    intro buf x found
    cases buf with
    | nil => rw [room] at found; cases found
    | cons => simp
  induction chained with
  | last found => exact filled found
  | @link buf a next rest found _ ih =>
    have some_ := filled found
    rw [List.length_drop] at ih
    rw [List.length_cons]
    omega

end Chain

end Records
