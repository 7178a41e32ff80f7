import Mathlib

/-!
# Byte and text encodings

The fixed-width integer, byte-string and text operations of the Rust standard
library that a verified program reads its inputs through:

* `leBytes`: the little-endian bytes of an integer of a given width;
* `utf8`, `byteLen`: the bytes of a string, and their number (`str::len`);
* `hexEncode`: lower-case hexadecimal, two digits a byte (`utf8_hexEncode`, `hexEncode_injective`);
* `trim`, `isControl`, `toAsciiLowercase`: the Unicode text operations, by the
  `White_Space` and `Cc` tables of the standard;
* `textOf`: the text of UTF-8 bytes (`textOf_utf8`);
* `checkedAdd`, `saturatingSucc`: addition of 64-bit unsigned integers that fails, or stops, at the
  largest one.
-/

namespace Lib.Encoding

/-! ## Integers as bytes -/

/-- The low `width` bytes of `n`, least significant first. -/
def leBytes (width n : Nat) : List UInt8 :=
  (List.range width).map fun i => UInt8.ofNat (n / 256 ^ i)

@[simp] theorem length_leBytes (width n : Nat) : (leBytes width n).length = width := by
  simp [leBytes]

/-! ## Checked arithmetic -/

/-- `u64::checked_add`. -/
def checkedAdd (a b : UInt64) : Option UInt64 :=
  if a.toNat + b.toNat < 2 ^ 64 then some (a + b) else none

theorem checkedAdd_eq_some_iff (a b c : UInt64) :
    checkedAdd a b = some c ↔ c.toNat = a.toNat + b.toNat := by
  unfold checkedAdd
  split
  · rename_i h
    have hadd : (a + b).toNat = a.toNat + b.toNat := by
      rw [UInt64.toNat_add, Nat.mod_eq_of_lt h]
    constructor
    · intro e
      rw [← Option.some.inj e, hadd]
    · intro e
      exact congrArg some (UInt64.toNat_inj.mp (hadd.trans e.symm))
  · rename_i h
    constructor
    · intro e
      cases e
    · intro e
      exact absurd (e ▸ c.toNat_lt) h

/-- `u64::saturating_add(1)`. -/
def saturatingSucc (n : UInt64) : UInt64 := if n.toNat + 1 < 2 ^ 64 then n + 1 else n

theorem saturatingSucc_toNat (n : UInt64) :
    (saturatingSucc n).toNat = min (n.toNat + 1) (2 ^ 64 - 1) := by
  have hlt := n.toNat_lt
  unfold saturatingSucc
  split
  · rename_i h
    have hadd : (n + 1).toNat = n.toNat + 1 := by
      rw [UInt64.toNat_add]
      exact Nat.mod_eq_of_lt h
    omega
  · omega

theorem saturatingSucc_toNat_le (n : UInt64) : (saturatingSucc n).toNat ≤ n.toNat + 1 := by
  rw [saturatingSucc_toNat]
  exact Nat.min_le_left _ _

theorem le_saturatingSucc (n : UInt64) : n ≤ saturatingSucc n := by
  have hlt := n.toNat_lt
  rw [UInt64.le_iff_toNat_le, saturatingSucc_toNat]
  omega

/-! ## Text -/

/-- The UTF-8 bytes of `s`. -/
def utf8 (s : String) : List UInt8 := s.toList.flatMap String.utf8EncodeChar

/-- `str::len`: the number of bytes, not of characters. -/
def byteLen (s : String) : Nat := (utf8 s).length

/-- Unicode general category `Cc`. -/
def isControl (c : Char) : Bool :=
  c.toNat ≤ 0x1f || (0x7f ≤ c.toNat && c.toNat ≤ 0x9f)

/-- The Unicode `White_Space` property. -/
def isWhitespace (c : Char) : Bool :=
  (0x9 ≤ c.toNat && c.toNat ≤ 0xd) || c.toNat == 0x20 || c.toNat == 0x85 || c.toNat == 0xa0 ||
    c.toNat == 0x1680 || (0x2000 ≤ c.toNat && c.toNat ≤ 0x200a) || c.toNat == 0x2028 ||
    c.toNat == 0x2029 || c.toNat == 0x202f || c.toNat == 0x205f || c.toNat == 0x3000

/-- `str::trim`. -/
def trim (s : String) : String :=
  String.ofList ((s.toList.dropWhile isWhitespace).reverse.dropWhile isWhitespace).reverse

/-- `str::to_ascii_lowercase`: only `A` to `Z` change. -/
def toAsciiLowercase (s : String) : String :=
  String.ofList (s.toList.map fun c =>
    if 'A' ≤ c ∧ c ≤ 'Z' then Char.ofNat (c.toNat + 32) else c)

def isAsciiDigit (b : UInt8) : Bool := 0x30 ≤ b && b ≤ 0x39

/-- `a` to `f`. -/
def isLowerHexLetter (b : UInt8) : Bool := 0x61 ≤ b && b ≤ 0x66

def isAsciiHexdigit (b : UInt8) : Bool :=
  isAsciiDigit b || isLowerHexLetter b || (0x41 ≤ b && b ≤ 0x46)

theorem fromUTF8_utf8 (s : String) : String.fromUTF8? ⟨(utf8 s).toArray⟩ = some s := by
  have hbytes : (⟨(utf8 s).toArray⟩ : ByteArray) = s.toByteArray := by
    rw [← String.utf8Encode_toList]
    exact ByteArray.ext (by simp [utf8, List.utf8Encode])
  rw [hbytes]
  exact dif_pos s.isValidUTF8

/-- The text of `bytes`, which are mostly ASCII; to read the characters of a string the kernel
decodes its bytes. -/
def textOf (bytes : List UInt8) : Option (List Char) :=
  if bytes.all (· < 128) then some (bytes.map fun b => Char.ofNat b.toNat)
  else (String.fromUTF8? ⟨bytes.toArray⟩).map String.toList

theorem utf8_ascii {bytes : List UInt8} (h : bytes.all (· < 128) = true) :
    utf8 (String.ofList (bytes.map fun b => Char.ofNat b.toNat)) = bytes := by
  have hall : ∀ n < 128, String.utf8EncodeChar (Char.ofNat n) = [UInt8.ofNat n] := by decide +kernel
  have hbyte : ∀ b ∈ bytes, String.utf8EncodeChar (Char.ofNat b.toNat) = [b] := by
    intro b hb
    rw [hall _ (by simpa [UInt8.lt_iff_toNat_lt] using List.all_eq_true.mp h b hb),
      UInt8.ofNat_toNat]
  rw [utf8, String.toList_ofList, List.flatMap_map, List.flatMap_congr hbyte,
    List.flatMap_singleton']

theorem map_toList_fromUTF8 (bytes : List UInt8) :
    (String.fromUTF8? ⟨bytes.toArray⟩).map String.toList = textOf bytes := by
  unfold textOf
  split
  · rename_i h
    conv_lhs => rw [← utf8_ascii h]
    rw [fromUTF8_utf8, Option.map_some, String.toList_ofList]
  · rfl

theorem textOf_utf8 (s : String) : textOf (utf8 s) = some s.toList := by
  rw [← map_toList_fromUTF8, fromUTF8_utf8, Option.map_some]

/-! ## Hexadecimal -/

/-- The lower-case digit of `n < 16`. -/
def hexDigit (n : Nat) : Char :=
  if n < 10 then Char.ofNat (0x30 + n) else Char.ofNat (0x61 + (n - 10))

/-- `hex::encode`. -/
def hexEncode (bytes : List UInt8) : String :=
  String.ofList (bytes.flatMap fun b => [hexDigit (b.toNat / 16), hexDigit (b.toNat % 16)])

example : hexEncode [0x00, 0x9f, 0xe0] = "009fe0" := by decide

/-- A hexadecimal digit is one byte, `0` to `9` or `a` to `f`. -/
theorem utf8EncodeChar_hexDigit (n : Nat) (h : n < 16) :
    ∃ b, String.utf8EncodeChar (hexDigit n) = [b] ∧
    (isAsciiDigit b || isLowerHexLetter b) = true := by
  have hall : ∀ m < 16, (String.utf8EncodeChar (hexDigit m)).length = 1 ∧
      (String.utf8EncodeChar (hexDigit m)).all
        (fun b => isAsciiDigit b || isLowerHexLetter b) = true := by
    decide
  obtain ⟨hlen, hdigit⟩ := hall n h
  obtain ⟨b, hb⟩ := List.length_eq_one_iff.mp hlen
  rw [hb] at hdigit
  exact ⟨b, hb, by simpa using hdigit⟩

theorem utf8_hexEncode (bytes : List UInt8) :
    byteLen (hexEncode bytes) = 2 * bytes.length ∧
      (utf8 (hexEncode bytes)).all (fun b => isAsciiDigit b || isLowerHexLetter b) = true := by
  unfold byteLen utf8 hexEncode
  rw [String.toList_ofList]
  induction bytes with
  | nil => exact ⟨rfl, rfl⟩
  | cons byte bytes ih =>
    obtain ⟨high, hhigh, hhighDigit⟩ := utf8EncodeChar_hexDigit (byte.toNat / 16)
      (by have := byte.toNat_lt; omega)
    obtain ⟨low, hlow, hlowDigit⟩ := utf8EncodeChar_hexDigit (byte.toNat % 16)
      (Nat.mod_lt _ (by decide))
    simp only [List.flatMap_cons, hhigh, hlow, List.cons_append, List.nil_append,
      List.length_cons, List.all_cons, hhighDigit, hlowDigit, Bool.true_and]
    exact ⟨by rw [ih.1]; omega, ih.2⟩

/-- The check of a digest in hexadecimal. -/
def isLowerHex64 (value : String) : Bool :=
  byteLen value == 64 && (utf8 value).all fun b => isAsciiDigit b || isLowerHexLetter b

theorem isLowerHex64_hexEncode {bytes : List UInt8} (h : bytes.length = 32) :
    isLowerHex64 (hexEncode bytes) = true := by
  obtain ⟨hlength, hall⟩ := utf8_hexEncode bytes
  rw [isLowerHex64, hlength, hall, h]
  rfl

theorem hexDigit_inj : ∀ m < 16, ∀ n < 16, hexDigit m = hexDigit n → m = n := by decide

theorem hexEncode_injective : Function.Injective hexEncode := by
  intro a
  induction a with
  | nil =>
    intro b h
    cases b with
    | nil => rfl
    | cons y b => cases String.ofList_injective h
  | cons x a ih =>
    intro b h
    cases b with
    | nil => cases String.ofList_injective h
    | cons y b =>
      have h := String.ofList_injective h
      simp only [List.flatMap_cons, List.cons_append, List.nil_append, List.cons.injEq] at h
      obtain ⟨hhigh, hlow, hrest⟩ := h
      have hx := x.toNat_lt
      have hy := y.toNat_lt
      have hhigh := hexDigit_inj _ (by omega) _ (by omega) hhigh
      have hlow := hexDigit_inj _ (by omega) _ (by omega) hlow
      have hxy : x = y := UInt8.toNat_inj.mp (by omega)
      rw [hxy, ih (congrArg String.ofList hrest)]

theorem utf8_append (s t : String) : utf8 (s ++ t) = utf8 s ++ utf8 t := by
  unfold utf8
  rw [String.toList_append, List.flatMap_append]

end Lib.Encoding
