/-
# Byte encodings

Two encodings of the same data in the two directions a wire format needs:
hexadecimal text for hashes and big-endian words for lengths. Both are stated
with their inverse, and with the exact set of inputs on which it is one.
-/

import Mathlib.Data.List.Induction
import Mathlib.Tactic.Linarith

namespace MbxCache.Foundation

/-- Raw bytes, as a request body or a stored object holds them. -/
abbrev Bytes := List UInt8

/-- Numbers are told apart by their decimal text. -/
theorem toString_injective : Function.Injective (toString : ℕ → String) := by
  intro m n h
  have hdigits : Nat.toDigits 10 m = Nat.toDigits 10 n := by
    rw [← Nat.toList_repr, ← Nat.toList_repr]
    exact congrArg String.toList h
  rw [← Nat.ofDigitChars_ten_toDigits (n := m), hdigits, Nat.ofDigitChars_ten_toDigits]

/-! ## Text -/

/-- The bytes of a text in UTF-8. -/
def utf8Bytes (text : String) : Bytes := text.toUTF8.data.toList

theorem utf8Bytes_injective : Function.Injective utf8Bytes := by
  intro first second h
  apply String.toByteArray_inj.mp
  exact ByteArray.ext (Array.toList_inj.mp h)

/-- The text of well-formed bytes. -/
def fromUtf8 (bytes : Bytes) : Option String := String.fromUTF8? ⟨bytes.toArray⟩

@[simp]
theorem fromUtf8_utf8Bytes (text : String) : fromUtf8 (utf8Bytes text) = some text := by
  have hbytes : (⟨(utf8Bytes text).toArray⟩ : ByteArray) = text.toByteArray := rfl
  rw [fromUtf8, hbytes, String.fromUTF8?, dif_pos text.isValidUTF8]
  rfl

/-! ## Hexadecimal text -/

/-- One lowercase hexadecimal digit; the argument is a nibble. -/
def hexDigit (n : ℕ) : Char :=
  if n < 10 then Char.ofNat (48 + n) else Char.ofNat (87 + n)

/-- The value of a hexadecimal digit of either case. -/
def hexValue (c : Char) : Option ℕ :=
  if 48 ≤ c.toNat ∧ c.toNat ≤ 57 then some (c.toNat - 48)
  else if 97 ≤ c.toNat ∧ c.toNat ≤ 102 then some (c.toNat - 87)
  else if 65 ≤ c.toNat ∧ c.toNat ≤ 70 then some (c.toNat - 55)
  else none

/-- A digit `hexEncode` can produce. -/
def isLowerHex (c : Char) : Bool :=
  (48 ≤ c.toNat && c.toNat ≤ 57) || (97 ≤ c.toNat && c.toNat ≤ 102)

def hexChars (bytes : Bytes) : List Char :=
  bytes.flatMap fun b => [hexDigit (b.toNat / 16), hexDigit (b.toNat % 16)]

/-- Lowercase hexadecimal text, two digits a byte. -/
def hexEncode (bytes : Bytes) : String :=
  String.ofList (hexChars bytes)

/-- Decode pairs of digits; an odd length or a foreign character is refused. -/
def hexDecodeChars : List Char → Option Bytes
  | [] => some []
  | [_] => none
  | high :: low :: rest =>
      match hexValue high, hexValue low, hexDecodeChars rest with
      | some h, some l, some bytes => some (UInt8.ofNat (16 * h + l) :: bytes)
      | _, _, _ => none

def hexDecode (text : String) : Option Bytes :=
  hexDecodeChars text.toList

private theorem hexDigit_spec :
    ∀ n < 16, hexValue (hexDigit n) = some n ∧ isLowerHex (hexDigit n) = true := by
  decide

@[simp]
theorem hexValue_hexDigit {n : ℕ} (h : n < 16) : hexValue (hexDigit n) = some n :=
  (hexDigit_spec n h).1

theorem isLowerHex_hexDigit {n : ℕ} (h : n < 16) : isLowerHex (hexDigit n) = true :=
  (hexDigit_spec n h).2

private theorem hexDigit_of_lower :
    ∀ n < 128, isLowerHex (Char.ofNat n) = true →
      ∃ v < 16, hexValue (Char.ofNat n) = some v ∧ hexDigit v = Char.ofNat n := by
  decide

/-- A lowercase digit has a value, and that value prints as the digit. -/
theorem exists_hexDigit_of_isLowerHex {c : Char} (h : isLowerHex c = true) :
    ∃ v < 16, hexValue c = some v ∧ hexDigit v = c := by
  have hsmall : c.toNat < 128 := by
    simp only [isLowerHex, Bool.or_eq_true, Bool.and_eq_true, decide_eq_true_eq] at h
    omega
  have hc : Char.ofNat c.toNat = c := Char.ofNat_toNat c
  have := hexDigit_of_lower c.toNat hsmall
  rw [hc] at this
  exact this h

private theorem uint8_nibbles (b : UInt8) :
    b.toNat / 16 < 16 ∧ b.toNat % 16 < 16 ∧
      UInt8.ofNat (16 * (b.toNat / 16) + b.toNat % 16) = b := by
  have hb := b.toNat_lt
  refine ⟨by omega, by omega, ?_⟩
  rw [Nat.div_add_mod]
  exact UInt8.ofNat_toNat

@[simp]
theorem hexChars_cons (b : UInt8) (bytes : Bytes) :
    hexChars (b :: bytes) =
      hexDigit (b.toNat / 16) :: hexDigit (b.toNat % 16) :: hexChars bytes := rfl

theorem hexChars_length (bytes : Bytes) : (hexChars bytes).length = 2 * bytes.length := by
  induction bytes with
  | nil => rfl
  | cons b bytes ih =>
      rw [hexChars_cons, List.length_cons, List.length_cons, ih, List.length_cons]
      omega

theorem isLowerHex_of_mem_hexChars {bytes : Bytes} {c : Char} (h : c ∈ hexChars bytes) :
    isLowerHex c = true := by
  obtain ⟨b, _, hc⟩ := List.mem_flatMap.mp h
  obtain ⟨hhigh, hlow, _⟩ := uint8_nibbles b
  rw [List.mem_cons, List.mem_singleton] at hc
  rcases hc with rfl | rfl
  · exact isLowerHex_hexDigit hhigh
  · exact isLowerHex_hexDigit hlow

theorem hexDecodeChars_hexChars (bytes : Bytes) :
    hexDecodeChars (hexChars bytes) = some bytes := by
  induction bytes with
  | nil => rfl
  | cons b bytes ih =>
      obtain ⟨hhigh, hlow, hb⟩ := uint8_nibbles b
      rw [hexChars_cons, hexDecodeChars, hexValue_hexDigit hhigh, hexValue_hexDigit hlow, ih]
      simp only [hb]

/-- Decoding undoes encoding. -/
@[simp]
theorem hexDecode_hexEncode (bytes : Bytes) : hexDecode (hexEncode bytes) = some bytes := by
  simp only [hexDecode, hexEncode, String.toList_ofList, hexDecodeChars_hexChars]

theorem hexEncode_injective : Function.Injective hexEncode := fun first second h => by
  have hdecode := congrArg hexDecode h
  simpa using hdecode

@[simp]
theorem hexEncode_length (bytes : Bytes) : (hexEncode bytes).length = 2 * bytes.length := by
  simp only [hexEncode, String.length_ofList, hexChars_length]

/-- Text that is lowercase hexadecimal throughout. -/
def LowerHex (text : String) : Prop := ∀ c ∈ text.toList, isLowerHex c = true

instance (text : String) : Decidable (LowerHex text) :=
  List.decidableBAll (fun c => isLowerHex c = true) text.toList

theorem lowerHex_hexEncode (bytes : Bytes) : LowerHex (hexEncode bytes) := by
  intro c hc
  rw [hexEncode, String.toList_ofList] at hc
  exact isLowerHex_of_mem_hexChars hc

/-- A digit takes one byte. -/
theorem utf8Size_of_isLowerHex {c : Char} (h : isLowerHex c = true) : c.utf8Size = 1 := by
  rw [Char.utf8Size_eq_one_iff, UInt32.le_iff_toNat_le]
  have hbound : c.toNat ≤ 102 := by
    simp only [isLowerHex, Bool.or_eq_true, Bool.and_eq_true, decide_eq_true_eq] at h
    omega
  exact hbound.trans (by decide)

theorem utf8ByteSize_of_lowerHex {text : String} (h : LowerHex text) :
    text.utf8ByteSize = text.length := by
  have hchars : ∀ chars : List Char, (∀ c ∈ chars, isLowerHex c = true) →
      (String.ofList chars).utf8ByteSize = chars.length := by
    intro chars
    induction chars with
    | nil => exact fun _ => rfl
    | cons c chars ih =>
        intro hlower
        rw [← List.singleton_append, String.ofList_append, String.utf8ByteSize_append,
          ih fun other hmem => hlower other (List.mem_cons_of_mem _ hmem),
          ← String.singleton_eq_ofList, String.utf8ByteSize_singleton,
          utf8Size_of_isLowerHex (hlower c List.mem_cons_self), List.length_append]
        rfl
  have htext := hchars text.toList h
  rwa [String.ofList_toList] at htext

private theorem hexChars_of_lower :
    ∀ (chars : List Char) (n : ℕ), chars.length = 2 * n →
      (∀ c ∈ chars, isLowerHex c = true) →
      ∃ bytes, hexDecodeChars chars = some bytes ∧ bytes.length = n ∧ hexChars bytes = chars
  | [], n, hlen, _ => ⟨[], rfl, by simp at hlen; simp [hlen], rfl⟩
  | [_], n, hlen, _ => by simp at hlen; omega
  | high :: low :: rest, n, hlen, hlower => by
      obtain ⟨m, rfl⟩ : ∃ m, n = m + 1 := ⟨n - 1, by simp at hlen; omega⟩
      obtain ⟨bytes, hdecode, hcount, htext⟩ := hexChars_of_lower rest m
        (by simp at hlen; omega) (fun c hc => hlower c (by simp [hc]))
      obtain ⟨h, hh, hhigh, hhigh'⟩ := exists_hexDigit_of_isLowerHex (hlower high (by simp))
      obtain ⟨l, hl, hlow, hlow'⟩ := exists_hexDigit_of_isLowerHex (hlower low (by simp))
      refine ⟨UInt8.ofNat (16 * h + l) :: bytes, ?_, by simp [hcount], ?_⟩
      · rw [hexDecodeChars, hhigh, hlow, hdecode]
      · have hvalue : (UInt8.ofNat (16 * h + l)).toNat = 16 * h + l := by
          rw [UInt8.toNat_ofNat']
          omega
        have hdiv : (16 * h + l) / 16 = h := by omega
        have hmod : (16 * h + l) % 16 = l := by omega
        rw [hexChars_cons, hvalue, hdiv, hmod, hhigh', hlow', htext]

/-- Lowercase text of even length is the encoding of what it decodes to. -/
theorem exists_hexDecode_of_lowerHex {text : String} {n : ℕ} (hlen : text.length = 2 * n)
    (hlower : LowerHex text) :
    ∃ bytes, hexDecode text = some bytes ∧ bytes.length = n ∧ hexEncode bytes = text := by
  obtain ⟨bytes, hdecode, hcount, htext⟩ := hexChars_of_lower text.toList n
    (by rw [String.length_toList]; exact hlen) hlower
  exact ⟨bytes, hdecode, hcount, by rw [hexEncode, htext, String.ofList_toList]⟩

/-! ## Big-endian words -/

/-- The low `width` base-256 digits, most significant first. -/
def toBe : (width : ℕ) → ℕ → Bytes
  | 0, _ => []
  | width + 1, n => toBe width (n / 256) ++ [UInt8.ofNat (n % 256)]

/-- The number a big-endian byte string denotes. -/
def fromBe (bytes : Bytes) : ℕ :=
  bytes.foldl (fun acc b => 256 * acc + b.toNat) 0

@[simp]
theorem toBe_length (width n : ℕ) : (toBe width n).length = width := by
  induction width generalizing n with
  | zero => rfl
  | succ width ih => simp [toBe, ih]

@[simp]
theorem fromBe_append_singleton (bytes : Bytes) (b : UInt8) :
    fromBe (bytes ++ [b]) = 256 * fromBe bytes + b.toNat := by
  simp [fromBe, List.foldl_append]

theorem fromBe_toBe (width n : ℕ) : fromBe (toBe width n) = n % 256 ^ width := by
  induction width generalizing n with
  | zero => simp [toBe, fromBe, Nat.mod_one]
  | succ width ih =>
      have hmod : n % 256 ^ (width + 1) = n % 256 + 256 * (n / 256 % 256 ^ width) := by
        rw [pow_succ', Nat.mod_mul]
      rw [toBe, fromBe_append_singleton, ih, UInt8.toNat_ofNat', hmod]
      omega

theorem fromBe_lt (bytes : Bytes) : fromBe bytes < 256 ^ bytes.length := by
  induction bytes using List.reverseRecOn with
  | nil => simp [fromBe]
  | append_singleton bytes b ih =>
      have hb := b.toNat_lt
      rw [fromBe_append_singleton, List.length_append, List.length_singleton, pow_succ]
      omega

theorem toBe_fromBe (bytes : Bytes) : toBe bytes.length (fromBe bytes) = bytes := by
  induction bytes using List.reverseRecOn with
  | nil => rfl
  | append_singleton bytes b ih =>
      have hb := b.toNat_lt
      rw [List.length_append, List.length_singleton, toBe, fromBe_append_singleton]
      have hdiv : (256 * fromBe bytes + b.toNat) / 256 = fromBe bytes := by omega
      have hmod : (256 * fromBe bytes + b.toNat) % 256 = b.toNat := by omega
      rw [hdiv, hmod, ih, UInt8.ofNat_toNat]

/-- `u64::to_be_bytes`. -/
def u64ToBeBytes (n : UInt64) : Bytes := toBe 8 n.toNat

/-- `u64::from_be_bytes` on eight bytes. -/
def u64FromBeBytes (bytes : Bytes) : UInt64 := UInt64.ofNat (fromBe bytes)

@[simp]
theorem u64ToBeBytes_length (n : UInt64) : (u64ToBeBytes n).length = 8 :=
  toBe_length _ _

@[simp]
theorem u64FromBeBytes_u64ToBeBytes (n : UInt64) :
    u64FromBeBytes (u64ToBeBytes n) = n := by
  have hn := n.toNat_lt
  rw [u64FromBeBytes, u64ToBeBytes, fromBe_toBe, Nat.mod_eq_of_lt (by omega)]
  exact UInt64.ofNat_toNat

theorem u64ToBeBytes_u64FromBeBytes {bytes : Bytes} (h : bytes.length = 8) :
    u64ToBeBytes (u64FromBeBytes bytes) = bytes := by
  have hlt := fromBe_lt bytes
  rw [h] at hlt
  rw [u64ToBeBytes, u64FromBeBytes, UInt64.toNat_ofNat', Nat.mod_eq_of_lt (by omega)]
  conv_rhs => rw [← toBe_fromBe bytes, h]

end MbxCache.Foundation
