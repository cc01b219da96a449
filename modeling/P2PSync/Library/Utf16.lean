import Mathlib.Data.Nat.Notation

/-! Texts as UTF-16 words. Every text can be written as words and read back; a word that
is half of a pair and stands alone is read as the replacement character. -/
namespace Utf16

def High (w : UInt16) : Prop := 0xD800 ≤ w.toNat ∧ w.toNat < 0xDC00

def Low (w : UInt16) : Prop := 0xDC00 ≤ w.toNat ∧ w.toNat < 0xE000

instance (w : UInt16) : Decidable (High w) := inferInstanceAs (Decidable (_ ∧ _))

instance (w : UInt16) : Decidable (Low w) := inferInstanceAs (Decidable (_ ∧ _))

def replacement : Char := Char.ofNat 0xFFFD

def single (w : UInt16) : Char := if High w ∨ Low w then replacement else Char.ofNat w.toNat

def pair (h l : UInt16) : Char :=
  Char.ofNat (0x10000 + (h.toNat - 0xD800) * 0x400 + (l.toNat - 0xDC00))

def decode : List UInt16 → List Char
  | [] => []
  | [w] => [single w]
  | w :: l :: rest =>
    if High w ∧ Low l then pair w l :: decode rest else single w :: decode (l :: rest)

def encodeChar (c : Char) : List UInt16 :=
  if c.toNat < 0x10000 then [UInt16.ofNat c.toNat]
  else [UInt16.ofNat (0xD800 + (c.toNat - 0x10000) / 0x400),
    UInt16.ofNat (0xDC00 + (c.toNat - 0x10000) % 0x400)]

def encode (s : List Char) : List UInt16 := s.flatMap encodeChar

theorem scalar (c : Char) : c.toNat < 0xD800 ∨ 0xDFFF < c.toNat ∧ c.toNat < 0x110000 := c.valid

theorem decode_single {w : UInt16} (alone : ¬ High w) (rest : List UInt16) :
    decode (w :: rest) = single w :: decode rest := by
  cases rest with
  | nil => rfl
  | cons l rest => rw [decode, if_neg fun both => alone both.1]

theorem decode_pair {h l : UInt16} (high : High h) (low : Low l) (rest : List UInt16) :
    decode (h :: l :: rest) = pair h l :: decode rest := by
  rw [decode, if_pos ⟨high, low⟩]

theorem decode_encodeChar (c : Char) (rest : List UInt16) :
    decode (encodeChar c ++ rest) = c :: decode rest := by
  have range := scalar c
  unfold encodeChar
  split
  · rename_i small
    have word : (UInt16.ofNat c.toNat).toNat = c.toNat := UInt16.toNat_ofNat_of_lt' small
    have none : ¬ (High (UInt16.ofNat c.toNat) ∨ Low (UInt16.ofNat c.toNat)) := by
      simp only [High, Low, word]
      omega
    rw [List.singleton_append, decode_single fun high => none (.inl high), single, if_neg none,
      word, Char.ofNat_toNat]
  · rename_i large
    have upper : (UInt16.ofNat (0xD800 + (c.toNat - 0x10000) / 0x400)).toNat =
        0xD800 + (c.toNat - 0x10000) / 0x400 := UInt16.toNat_ofNat_of_lt' (by
      simp only [UInt16.size]
      omega)
    have lower : (UInt16.ofNat (0xDC00 + (c.toNat - 0x10000) % 0x400)).toNat =
        0xDC00 + (c.toNat - 0x10000) % 0x400 := UInt16.toNat_ofNat_of_lt' (by
      simp only [UInt16.size]
      omega)
    have high : High (UInt16.ofNat (0xD800 + (c.toNat - 0x10000) / 0x400)) := by
      simp only [High, upper]
      omega
    have low : Low (UInt16.ofNat (0xDC00 + (c.toNat - 0x10000) % 0x400)) := by
      simp only [Low, lower]
      omega
    have joined : 0x10000 + (0xD800 + (c.toNat - 0x10000) / 0x400 - 0xD800) * 0x400 +
        (0xDC00 + (c.toNat - 0x10000) % 0x400 - 0xDC00) = c.toNat := by omega
    rw [List.cons_append, List.singleton_append, decode_pair high low, pair, upper, lower, joined,
      Char.ofNat_toNat]

theorem decode_encode (s : List Char) : decode (encode s) = s := by
  induction s with
  | nil => rfl
  | cons c s ih => rw [encode, List.flatMap_cons, decode_encodeChar, ← encode, ih]

end Utf16
