/-
ProxyBroker.Lib.Utf16 — texts as UTF-16 code units, which is what a
JavaScript string is and what a regular expression without the flag `u`
reads.

`decode` is total: half of a surrogate pair becomes U+FFFD, as it does
when the string is written as UTF-8. `decode_encode` is the round trip;
of ASCII text any part may be cut out (`decode_cut`).
-/
import ProxyBroker.Lib.Utf8

namespace Lib.Utf16

/-- The code units of a character. -/
def encodeChar (c : Char) : List Nat :=
  if c.toNat < 0x10000 then [c.toNat]
  else [0xD800 + (c.toNat - 0x10000) / 0x400, 0xDC00 + (c.toNat - 0x10000) % 0x400]

def encode (cs : List Char) : List Nat := cs.flatMap encodeChar

theorem encode_cons (c : Char) (cs : List Char) :
    encode (c :: cs) = encodeChar c ++ encode cs := rfl

theorem encode_append (cs ds : List Char) : encode (cs ++ ds) = encode cs ++ encode ds :=
  List.flatMap_append

def isHigh (a : Nat) : Bool := 0xD800 ≤ a && a < 0xDC00

def isLow (a : Nat) : Bool := 0xDC00 ≤ a && a < 0xE000

/-- The character of one unit. -/
def single (a : Nat) : Char := if isHigh a || isLow a then '\uFFFD' else Char.ofNat a

/-- The character of a pair. -/
def pair (a b : Nat) : Char := Char.ofNat (0x10000 + (a - 0xD800) * 0x400 + (b - 0xDC00))

def decode : List Nat → List Char
  | [] => []
  | [a] => [single a]
  | a :: b :: s =>
      if isHigh a && isLow b then pair a b :: decode s else single a :: decode (b :: s)

theorem decode_cons_of_not_high {a : Nat} (h : isHigh a = false) (s : List Nat) :
    decode (a :: s) = single a :: decode s := by
  cases s with
  | nil => rfl
  | cons b s =>
      rw [decode, h]
      rfl

theorem ofNat_toNat (c : Char) {n : Nat} (h : c.toNat = n) : Char.ofNat n = c := by
  rw [← h, Char.ofNat_toNat]

theorem decode_encodeChar_append (c : Char) (s : List Nat) :
    decode (encodeChar c ++ s) = c :: decode s := by
  have hvalid : c.toNat < 0xD800 ∨ 0xDFFF < c.toNat ∧ c.toNat < 0x110000 := c.valid
  by_cases hc : c.toNat < 0x10000
  · have hhigh : isHigh c.toNat = false := by
      simp [isHigh]
      omega
    have hlow : isLow c.toNat = false := by
      simp [isLow]
      omega
    rw [encodeChar, if_pos hc, List.singleton_append, decode_cons_of_not_high hhigh, single, hhigh,
      hlow]
    simp [ofNat_toNat c rfl]
  · have hhigh : isHigh (0xD800 + (c.toNat - 0x10000) / 0x400) = true := by
      simp [isHigh]
      omega
    have hlow : isLow (0xDC00 + (c.toNat - 0x10000) % 0x400) = true := by
      simp [isLow]
      omega
    rw [encodeChar, if_neg hc]
    simp only [List.cons_append, List.nil_append, decode, hhigh, hlow, Bool.and_self, if_true]
    rw [pair, ofNat_toNat c (by omega)]

/-- **Round trip**. -/
theorem decode_encode (cs : List Char) : decode (encode cs) = cs := by
  induction cs with
  | nil => rfl
  | cons c cs ih => rw [encode_cons, decode_encodeChar_append, ih]

/-! ## ASCII -/

theorem encodeChar_of_isAscii {c : Char} (h : Utf8.isAscii c = true) :
    encodeChar c = [c.toNat] := by
  have hle : c.toNat ≤ 0x7F := of_decide_eq_true h
  rw [encodeChar, if_pos (by omega)]

theorem encode_of_ascii {cs : List Char} (h : cs.all Utf8.isAscii = true) :
    encode cs = cs.map Char.toNat := by
  induction cs with
  | nil => rfl
  | cons c cs ih =>
      rw [List.all_cons, Bool.and_eq_true] at h
      rw [encode_cons, encodeChar_of_isAscii h.1, ih h.2]
      rfl

/-- A part of an ASCII text is cut out. -/
theorem decode_cut {cs : List Char} (h : cs.all Utf8.isAscii = true) (i j : Nat) :
    decode ((encode cs).take i ++ (encode cs).drop j) = cs.take i ++ cs.drop j := by
  have hpart : (cs.take i ++ cs.drop j).all Utf8.isAscii = true := by
    rw [List.all_eq_true] at h ⊢
    intro c hc
    cases List.mem_append.mp hc with
    | inl hin => exact h c (List.mem_of_mem_take hin)
    | inr hin => exact h c (List.mem_of_mem_drop hin)
  have hcut : (encode cs).take i ++ (encode cs).drop j = encode (cs.take i ++ cs.drop j) := by
    rw [encode_of_ascii h, encode_of_ascii hpart, List.map_append, List.map_take, List.map_drop]
  rw [hcut, decode_encode]

end Lib.Utf16
