import Mathlib.Data.List.Infix
import Mathlib.Data.Nat.Bitwise

/-! The TCP port that stands in for the IPC socket, derived from the bytes of the socket
path in three programs: with 32 bits in Go and in C++, whose characters are signed, and
with signed 64 bits in Java. -/
namespace P2PSync

/-! Go. -/

def fallbackStep (h : UInt32) (b : UInt8) : UInt32 := (h ^^^ b.toUInt32) * 16777619

def fallbackHash (socketPath : List UInt8) : UInt32 := socketPath.foldl fallbackStep 2166136261

def deriveFallbackPort (socketPath : List UInt8) : Int :=
  10000 + ((fallbackHash socketPath % 20000).toNat : Int)

/-! The Windows client. -/

namespace WindowsIpcClient

def fallbackStep (h : UInt32) (c : Int8) : UInt32 := (h ^^^ c.toUInt8.toUInt32) * 16777619

/-- The sum is unsigned and then stored in an int. -/
def deriveFallbackPort (socketPath : List Int8) : Int :=
  (10000 + socketPath.foldl fallbackStep 2166136261 % 20000 : UInt32).toInt32.toInt

end WindowsIpcClient

/-! Java. A byte is widened with its sign before the mask. -/

namespace IpcBridge

def mixed (h : Int64) (b : Int8) : Int64 := h ^^^ (b.toInt32 &&& 0xFF).toInt64

def fallbackStep (h : Int64) (b : Int8) : Int64 := (mixed h b * 16777619) &&& 0xFFFFFFFF

def fallbackHash (bytes : List Int8) : Int64 := bytes.foldl fallbackStep 2166136261

/-- The argument is the result of getBytes(UTF_8), which is empty for the empty path only. -/
def deriveFallbackPort (bytes : List Int8) : Int :=
  if bytes = [] then 9999
  else (10000 + (fallbackHash bytes % 20000).toInt32 : Int32).toInt

end IpcBridge

example : deriveFallbackPort [0x61] = 12220 := by decide

theorem byte_masked (b : UInt8) :
    ((b.toInt8.toInt32 &&& 0xFF).toInt64).toBitVec = b.toBitVec.setWidth 64 := by
  have all : ∀ n : Fin 256, (((UInt8.ofFin n).toInt8.toInt32 &&& 0xFF).toInt64).toBitVec =
      (UInt8.ofFin n).toBitVec.setWidth 64 := by
    decide +kernel
  exact all b.toFin

def Widened (j : Int64) (g : UInt32) : Prop := j.toBitVec = g.toBitVec.setWidth 64

section Step

variable {j : Int64} {g : UInt32} (same : Widened j g) (b : UInt8)
include same

theorem mixed_widened : Widened (IpcBridge.mixed j b.toInt8) (g ^^^ b.toUInt32) := by
  unfold Widened IpcBridge.mixed
  rw [Int64.toBitVec_xor, byte_masked, same, UInt32.toBitVec_xor, BitVec.setWidth_xor]
  congr 1

theorem Widened.toNat : j.toBitVec.toNat = g.toNat := by
  rw [same, BitVec.toNat_setWidth]
  exact Nat.mod_eq_of_lt (g.toNat_lt.trans (by decide))

theorem Widened.toInt : j.toInt = g.toNat := by
  have half : 2 * j.toBitVec.toNat < 2 ^ 64 := by
    rw [same.toNat]
    have := g.toNat_lt
    omega
  rw [← Int64.toInt_toBitVec, BitVec.toInt_eq_toNat_of_lt half, same.toNat]

/-- The product needs 57 bits. -/
theorem product_exact : (j * 16777619).toInt = j.toInt * 16777619 := by
  have small := g.toNat_lt
  rw [Int64.toInt_mul, same.toInt]
  have factor : (16777619 : Int64).toInt = 16777619 := by decide
  rw [factor]
  apply Int.bmod_eq_of_le <;> omega

theorem step_widened : Widened (IpcBridge.fallbackStep j b.toInt8) (fallbackStep g b) := by
  have mixed := (mixed_widened same b).toNat
  apply BitVec.eq_of_toNat_eq
  have mask : (0xFFFFFFFF : Int64).toBitVec.toNat = 2 ^ 32 - 1 := by decide
  have factor : (16777619 : Int64).toBitVec.toNat = 16777619 := by decide
  have product : (fallbackStep g b).toBitVec.toNat =
      (g ^^^ b.toUInt32).toNat * 16777619 % 2 ^ 32 := UInt32.toNat_mul _ _
  have small := (fallbackStep g b).toBitVec.isLt
  rw [IpcBridge.fallbackStep, Int64.toBitVec_and, Int64.toBitVec_mul, BitVec.toNat_and, mask,
    Nat.and_two_pow_sub_one_eq_mod, BitVec.toNat_mul, mixed, factor, BitVec.toNat_setWidth,
    Nat.mod_eq_of_lt (small.trans (by decide)), product]
  exact Nat.mod_mod_of_dvd _ (by decide)

end Step

theorem hash_widened (socketPath : List UInt8) :
    Widened (IpcBridge.fallbackHash (socketPath.map UInt8.toInt8)) (fallbackHash socketPath) := by
  have start : Widened 2166136261 2166136261 := rfl
  unfold IpcBridge.fallbackHash fallbackHash
  generalize (2166136261 : Int64) = j at start ⊢
  generalize (2166136261 : UInt32) = g at start ⊢
  induction socketPath generalizing j g with
  | nil => exact start
  | cons b rest ih => exact ih _ _ (step_widened start b)

theorem windows_hash (socketPath : List UInt8) :
    (socketPath.map UInt8.toInt8).foldl WindowsIpcClient.fallbackStep 2166136261 =
      fallbackHash socketPath := by
  rw [List.foldl_map]
  rfl

theorem remainder_lt (h : UInt32) : (h % 20000).toNat < 20000 := by
  rw [UInt32.toNat_mod]
  exact Nat.mod_lt _ (by decide)

theorem windows_port (h : UInt32) :
    (10000 + h % 20000 : UInt32).toInt32.toInt = 10000 + ((h % 20000).toNat : Int) := by
  have small := remainder_lt h
  have sum : (10000 + h % 20000 : UInt32).toNat = 10000 + (h % 20000).toNat := by
    rw [UInt32.toNat_add]
    exact Nat.mod_eq_of_lt (by change 10000 + _ < 2 ^ 32; omega)
  have positive : 2 * (10000 + h % 20000 : UInt32).toBitVec.toNat < 2 ^ 32 := by
    change 2 * (10000 + h % 20000 : UInt32).toNat < 2 ^ 32
    omega
  have value := BitVec.toInt_eq_toNat_of_lt positive
  change (10000 + h % 20000 : UInt32).toBitVec.toInt = _
  rw [value]
  change ((10000 + h % 20000 : UInt32).toNat : Int) = _
  rw [sum]
  rfl

theorem java_port {j : Int64} {g : UInt32} (same : Widened j g) :
    (10000 + (j % 20000).toInt32 : Int32).toInt = 10000 + ((g % 20000).toNat : Int) := by
  have small := remainder_lt g
  have rest : (j % 20000).toInt = ((g % 20000).toNat : Int) := by
    have divisor : (20000 : Int64).toInt = 20000 := by decide
    rw [Int64.toInt_mod, same.toInt, divisor, UInt32.toNat_mod]
    rfl
  have summand : (10000 : Int32).toInt = 10000 := by decide
  have narrowed : (j % 20000).toInt32.toInt = ((g % 20000).toNat : Int) := by
    rw [Int64.toInt_toInt32, rest]
    exact Int.bmod_eq_of_le (by omega) (by omega)
  rw [Int32.toInt_add, narrowed, summand]
  exact Int.bmod_eq_of_le (by omega) (by omega)

/-- The three programs derive the same port, none of Java's products overflows, and
the port is in the range they share. -/
theorem fallback_ports_agree (socketPath : List UInt8) (named : socketPath ≠ []) :
    WindowsIpcClient.deriveFallbackPort (socketPath.map UInt8.toInt8) =
      deriveFallbackPort socketPath ∧
    IpcBridge.deriveFallbackPort (socketPath.map UInt8.toInt8) = deriveFallbackPort socketPath ∧
    10000 ≤ deriveFallbackPort socketPath ∧ deriveFallbackPort socketPath ≤ 29999 ∧
    ∀ done b, done ++ [b] <+: socketPath.map UInt8.toInt8 →
      (IpcBridge.mixed (IpcBridge.fallbackHash done) b * 16777619).toInt =
        (IpcBridge.mixed (IpcBridge.fallbackHash done) b).toInt * 16777619 := by
  have small := remainder_lt (fallbackHash socketPath)
  refine ⟨?_, ?_, ?_, ?_, ?_⟩
  · rw [WindowsIpcClient.deriveFallbackPort, windows_hash]
    exact windows_port _
  · have bytes : socketPath.map UInt8.toInt8 ≠ [] := fun none => named (List.map_eq_nil_iff.mp none)
    rw [IpcBridge.deriveFallbackPort, if_neg bytes]
    exact java_port (hash_widened socketPath)
  · unfold deriveFallbackPort
    omega
  · unfold deriveFallbackPort
    omega
  · rintro done b ⟨later, split⟩
    obtain ⟨before, -, -, first, -⟩ := List.map_eq_append_iff.mp split.symm
    obtain ⟨start, last, -, rfl, ends⟩ := List.map_eq_append_iff.mp first
    obtain ⟨byte, rest, -, rfl, -⟩ := List.map_eq_cons_iff.mp ends
    exact product_exact (mixed_widened (hash_widened start) byte)

theorem fallback_ports_agree_high :
    IpcBridge.deriveFallbackPort [0x2F, -61, -87] = deriveFallbackPort [0x2F, 0xC3, 0xA9] :=
  (fallback_ports_agree [0x2F, 0xC3, 0xA9] (by decide)).2.1

end P2PSync
