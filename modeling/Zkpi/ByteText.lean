import Mathlib.Data.Fintype.Vector
import Mathlib.Tactic.Linarith
import Mathlib.Tactic.Ring
import Mathlib.Tactic.Positivity

/-!
# Bytes, hexadecimal keys and compact JSON

Wire values are lists of bytes, fixed-width digests are vectors of bytes and
map keys are texts. Lower-case hexadecimal text determines the bytes it was
written from, so a map indexed by hexadecimal digests loses no key. The JSON
writer is the compact one: no blanks, fields in their declared order and
decimal numbers without leading zeros. Texts with characters that JSON has to
escape are not written by it.
-/

namespace Zkpi.ByteText

open List

abbrev Bytes := List UInt8

abbrev Digest32 := List.Vector UInt8 32

instance finiteByte : Finite UInt8 :=
  Finite.of_injective UInt8.toFin fun _ _ h => UInt8.toFin_inj.mp h

instance : Finite Digest32 :=
  Finite.of_injective List.Vector.get fun _ _ h => List.Vector.ext fun i => congrFun h i

/-- Digests are summed over, never enumerated. -/
noncomputable instance : Fintype Digest32 := Fintype.ofFinite Digest32

instance lawfulDigest : LawfulBEq Digest32 := inferInstance

def repeated (byte : UInt8) : Digest32 := List.Vector.replicate 32 byte

def zeroDigest : Digest32 := repeated 0

def utf8 (text : String) : Bytes := text.toUTF8.data.toList

theorem utf8_inj (h : utf8 a = utf8 b) : a = b :=
  String.toByteArray_inj.mp (ByteArray.ext (Array.toList_inj.mp h))

variable (width value : ℕ)

def beBytes : Bytes :=
  (range width).reverse.map fun place => UInt8.ofNat (value / 256 ^ place)

def leBytes : Bytes :=
  (range width).map fun place => UInt8.ofNat (value / 256 ^ place)

theorem beBytes_succ :
    beBytes (width + 1) value = UInt8.ofNat (value / 256 ^ width) :: beBytes width value := by
  simp only [beBytes, range_succ, reverse_append, reverse_singleton,
    singleton_append, map_cons]

@[simp] theorem beBytes_length : (beBytes width value).length = width := by
  simp [beBytes]

theorem mod_eq_of_beBytes {width a b : ℕ} (h : beBytes width a = beBytes width b) :
    a % 256 ^ width = b % 256 ^ width := by
  induction width with
  | zero => simp only [pow_zero, Nat.mod_one]
  | succ width ih =>
    rw [beBytes_succ, beBytes_succ, List.cons.injEq] at h
    have hhigh : a / 256 ^ width % 256 = b / 256 ^ width % 256 := by
      simpa only [UInt8.toNat_ofNat', Nat.reducePow] using congrArg UInt8.toNat h.1
    rw [Nat.mod_pow_succ, Nat.mod_pow_succ, ih h.2, hhigh]

theorem beBytes_inj {width a b : ℕ} (ha : a < 256 ^ width) (hb : b < 256 ^ width)
    (h : beBytes width a = beBytes width b) : a = b := by
  have hmod := mod_eq_of_beBytes h
  rwa [Nat.mod_eq_of_lt ha, Nat.mod_eq_of_lt hb] at hmod

theorem toNat_inj_of_beBytes {a b : UInt64} (h : beBytes 8 a.toNat = beBytes 8 b.toNat) : a = b :=
  UInt64.toNat_inj.mp (beBytes_inj a.toNat_lt b.toNat_lt h)

def beNumber (bytes : Bytes) : ℕ := bytes.foldl (fun number byte => 256 * number + byte.toNat) 0

theorem foldl_beNumber :
    bytes.foldl (fun number byte => 256 * number + byte.toNat) start =
      256 ^ bytes.length * start + beNumber bytes := by
  induction bytes generalizing start with
  | nil => simp [beNumber]
  | cons byte rest ih =>
    have hcons : beNumber (byte :: rest) =
        rest.foldl (fun number byte => 256 * number + byte.toNat) (256 * 0 + byte.toNat) := rfl
    rw [foldl_cons, ih, hcons, ih, length_cons]
    ring

theorem beNumber_append (first second : Bytes) :
    beNumber (first ++ second) = 256 ^ second.length * beNumber first + beNumber second := by
  rw [beNumber, foldl_append, foldl_beNumber]
  rfl

theorem beNumber_cons :
    beNumber (byte :: rest) = 256 ^ rest.length * byte.toNat + beNumber rest := by
  have happend := beNumber_append [byte] rest
  simpa [beNumber] using happend

theorem beNumber_lt (bytes : Bytes) : beNumber bytes < 256 ^ bytes.length := by
  induction bytes with
  | nil => simp [beNumber]
  | cons byte =>
    have hbyte := byte.toNat_lt
    rw [beNumber_cons, length_cons, Nat.pow_succ]
    nlinarith

theorem beBytes_mul_add :
    beBytes width (256 ^ width * high + low) = beBytes width low := by
  induction width generalizing high with
  | zero => rfl
  | succ width ih =>
    have hsplit : 256 ^ (width + 1) * high + low = 256 ^ width * (256 * high) + low := by ring
    rw [beBytes_succ, beBytes_succ, hsplit, ih, Nat.mul_add_div (by positivity)]
    congr 1
    apply UInt8.toNat_inj.mp
    simp only [UInt8.toNat_ofNat']
    omega

theorem beBytes_beNumber (bytes : Bytes) : beBytes bytes.length (beNumber bytes) = bytes := by
  induction bytes with
  | nil => rfl
  | cons byte rest ih =>
    rw [beNumber_cons, length_cons, beBytes_succ, beBytes_mul_add, ih,
      Nat.mul_add_div (by positivity), Nat.div_eq_of_lt (beNumber_lt rest), Nat.add_zero,
      UInt8.ofNat_toNat]

theorem beNumber_beBytes {width value : ℕ} (h : value < 256 ^ width) :
    beNumber (beBytes width value) = value := by
  have hlt := beNumber_lt (beBytes width value)
  rw [beBytes_length] at hlt
  refine beBytes_inj hlt h ?_
  have hbytes := beBytes_beNumber (beBytes width value)
  rwa [beBytes_length] at hbytes

/-! ## Hexadecimal text -/

def hexDigit (value : ℕ) : Char :=
  if value < 10 then Char.ofNat (48 + value) else Char.ofNat (87 + value)

def hexPair (byte : UInt8) : List Char :=
  [hexDigit (byte.toNat / 16), hexDigit (byte.toNat % 16)]

def hexChars (bytes : Bytes) : List Char := bytes.flatMap hexPair

def hexEncode (bytes : Bytes) : String := String.ofList (hexChars bytes)

@[simp] theorem hexChars_length (bytes : Bytes) : (hexChars bytes).length = 2 * bytes.length := by
  induction bytes with
  | nil => rfl
  | cons byte rest ih =>
    simp only [hexChars, flatMap_cons, length_append, length_cons] at ih ⊢
    rw [ih]
    simp only [hexPair, length_cons, length_nil]
    omega

def hexValue (digit : Char) : Option ℕ :=
  if '0' ≤ digit ∧ digit ≤ '9' then some (digit.toNat - 48)
  else if 'a' ≤ digit ∧ digit ≤ 'f' then some (digit.toNat - 87)
  else if 'A' ≤ digit ∧ digit ≤ 'F' then some (digit.toNat - 55)
  else none

def hexBytes : List Char → Option Bytes
  | [] => some []
  | [_] => none
  | high :: low :: rest => do
    let high ← hexValue high
    let low ← hexValue low
    let rest ← hexBytes rest
    some (UInt8.ofNat (16 * high + low) :: rest)

def hexDecode (text : String) : Option Bytes := hexBytes text.toList

theorem hexValue_hexDigit {value : ℕ} (h : value < 16) :
    hexValue (hexDigit value) = some value := by
  have hall : ∀ x : Fin 16, hexValue (hexDigit x) = some x.val := by decide
  exact hall ⟨value, h⟩

theorem hexBytes_hexChars (bytes : Bytes) : hexBytes (hexChars bytes) = some bytes := by
  induction bytes with
  | nil => rfl
  | cons byte rest ih =>
    have hbyte := byte.toNat_lt
    have hsplit : 16 * (byte.toNat / 16) + byte.toNat % 16 = byte.toNat := by omega
    change hexBytes (_ :: _ :: hexChars rest) = _
    simp only [hexBytes, hexValue_hexDigit (show byte.toNat / 16 < 16 by omega),
      hexValue_hexDigit (show byte.toNat % 16 < 16 by omega), ih, Option.bind_eq_bind,
      Option.bind_some, hsplit, UInt8.ofNat_toNat]

/-- The bytes are read back, so the text determines them. -/
theorem hexChars_inj (h : hexChars a = hexChars b) : a = b := by
  have hread := congrArg hexBytes h
  rw [hexBytes_hexChars, hexBytes_hexChars] at hread
  exact Option.some.inj hread

theorem hexEncode_inj (h : hexEncode a = hexEncode b) : a = b :=
  hexChars_inj (String.ofList_injective h)

@[simp] theorem hexDecode_hexEncode (bytes : Bytes) : hexDecode (hexEncode bytes) = some bytes := by
  rw [hexDecode, hexEncode, String.toList_ofList, hexBytes_hexChars]

@[simp] theorem hexEncode_digest_inj {a b : Digest32} :
    hexEncode a.toList = hexEncode b.toList ↔ a = b := by
  constructor
  · intro h
    exact List.Vector.toList_injective (hexEncode_inj h)
  · intro h
    rw [h]

def joinedKey (first second : Digest32) : String :=
  hexEncode first.toList ++ ":" ++ hexEncode second.toList

@[simp] theorem joinedKey_inj : joinedKey a b = joinedKey c d ↔ a = c ∧ b = d := by
  constructor
  · intro h
    have hl := congrArg String.toList h
    simp only [joinedKey, String.toList_append, hexEncode, String.toList_ofList, append_assoc] at hl
    obtain ⟨hfirst, hrest⟩ := append_inj hl (by simp)
    have hsecond := append_cancel_left hrest
    exact ⟨List.Vector.toList_injective (hexChars_inj hfirst),
      List.Vector.toList_injective (hexChars_inj hsecond)⟩
  · rintro ⟨rfl, rfl⟩
    rfl

/-! ## Compact JSON -/

inductive Json where
  | number (value : ℕ)
  | text (value : String)
  | array (items : List Json)
  | object (fields : List (String × Json))

namespace Json

def joinWithComma : List Bytes → Bytes
  | [] => []
  | [item] => item
  | item :: next :: rest => item ++ utf8 "," ++ joinWithComma (next :: rest)

mutual

def render : Json → Bytes
  | number value => utf8 (Nat.repr value)
  | text value => utf8 "\"" ++ utf8 value ++ utf8 "\""
  | array items => utf8 "[" ++ joinWithComma (renderItems items) ++ utf8 "]"
  | object fields => utf8 "\x7b" ++ joinWithComma (renderFields fields) ++ utf8 "\x7d"

def renderItems : List Json → List Bytes
  | [] => []
  | item :: rest => render item :: renderItems rest

def renderFields : List (String × Json) → List Bytes
  | [] => []
  | (name, value) :: rest =>
    (utf8 "\"" ++ utf8 name ++ utf8 "\":" ++ render value) :: renderFields rest

end

def bytes (value : Bytes) : Json := array (value.map fun byte => number byte.toNat)

def digest (value : Digest32) : Json := bytes value.toList

end Json

end Zkpi.ByteText
