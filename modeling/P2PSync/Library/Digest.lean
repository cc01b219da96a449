import Mathlib.Data.List.Basic
import Mathlib.Data.Nat.Bitwise
import Mathlib.Data.String.Basic

/-! Digests that take their input byte by byte, so that it does not matter into which
pieces it is cut, and the two digits for each byte in which a digest is written. -/
namespace Digest

structure Hash where
  State : Type
  init : State
  absorb : State → UInt8 → State
  output : State → List UInt8

namespace Hash

variable (h : Hash)

def update (state : h.State) (bytes : List UInt8) : h.State := bytes.foldl h.absorb state

def sum (bytes : List UInt8) : List UInt8 := h.output (h.update h.init bytes)

theorem update_append (state : h.State) (front back : List UInt8) :
    h.update state (front ++ back) = h.update (h.update state front) back :=
  List.foldl_append

theorem update_flatten (pieces : List (List UInt8)) (state : h.State) :
    pieces.foldl h.update state = h.update state pieces.flatten := by
  induction pieces generalizing state with
  | nil => rfl
  | cons piece pieces ih =>
    rw [List.foldl_cons, ih, List.flatten_cons, update_append]

end Hash

def table : List Char := "0123456789abcdef".toList

def byteDigits (b : UInt8) : List Char :=
  [table.getD (b.toNat / 16) '0', table.getD (b.toNat % 16) '0']

def hex (bytes : List UInt8) : String := String.ofList (bytes.flatMap byteDigits)

theorem table_inj : ∀ m < 16, ∀ n < 16, table.getD m '0' = table.getD n '0' → m = n := by
  decide

theorem byteDigits_inj {a b : UInt8} (same : byteDigits a = byteDigits b) : a = b := by
  simp only [byteDigits, List.cons.injEq, and_true] at same
  have high := table_inj _ (Nat.div_lt_of_lt_mul a.toNat_lt) _ (Nat.div_lt_of_lt_mul b.toNat_lt)
    same.1
  have low := table_inj _ (Nat.mod_lt _ (by decide)) _ (Nat.mod_lt _ (by decide)) same.2
  apply UInt8.toNat_inj.mp
  omega

theorem hex_inj {xs ys : List UInt8} (same : hex xs = hex ys) : xs = ys := by
  have digits : xs.flatMap byteDigits = ys.flatMap byteDigits := String.ofList_injective same
  clear same
  induction xs generalizing ys with
  | nil =>
    cases ys with
    | nil => rfl
    | cons y ys => cases digits
  | cons x xs ih =>
    cases ys with
    | nil => cases digits
    | cons y ys =>
      rw [List.flatMap_cons, List.flatMap_cons] at digits
      obtain ⟨first, rest⟩ := List.append_inj digits rfl
      rw [byteDigits_inj first, ih rest]

end Digest
