import Neoth.Lib.Encoding

/-!
# Base64

The standard alphabet with padding, RFC 4648, section 4.

* `decode_encode`: what is encoded is read back;
* `length_encode`, `trim_encode`: how long the text is, and that it has no white space.
-/

open Lib.Encoding

namespace Lib.Base64

/-! ## Digits -/

/-- The digit of `n < 64`. -/
def digit (n : Nat) : Char :=
  if n < 26 then Char.ofNat (0x41 + n)
  else if n < 52 then Char.ofNat (0x61 + (n - 26))
  else if n < 62 then Char.ofNat (0x30 + (n - 52))
  else if n = 62 then '+'
  else '/'

def digitValue (c : Char) : Option Nat :=
  if 'A' ≤ c ∧ c ≤ 'Z' then some (c.toNat - 0x41)
  else if 'a' ≤ c ∧ c ≤ 'z' then some (c.toNat - 0x61 + 26)
  else if '0' ≤ c ∧ c ≤ '9' then some (c.toNat - 0x30 + 52)
  else if c = '+' then some 62
  else if c = '/' then some 63
  else none

theorem digitValue_digit : ∀ n < 64, digitValue (digit n) = some n := by decide

theorem digit_ne : ∀ n < 64, digit n ≠ '=' := by decide

theorem isWhitespace_digit : ∀ n < 64, isWhitespace (digit n) = false := by decide

/-! ## Three bytes at a time -/

def encodeChars : List UInt8 → List Char
  | [] => []
  | [a] => [digit (a.toNat / 4), digit (a.toNat % 4 * 16), '=', '=']
  | [a, b] => [digit (a.toNat / 4), digit (a.toNat % 4 * 16 + b.toNat / 16),
    digit (b.toNat % 16 * 4), '=']
  | a :: b :: c :: rest =>
    digit (a.toNat / 4) :: digit (a.toNat % 4 * 16 + b.toNat / 16) ::
      digit (b.toNat % 16 * 4 + c.toNat / 64) :: digit (c.toNat % 64) :: encodeChars rest

/-- Padding ends the text, and the bits that it leaves over are zero. -/
def decodeChars : List Char → Option (List UInt8)
  | [] => some []
  | a :: b :: c :: d :: rest => do
    let x ← digitValue a
    let y ← digitValue b
    let first := UInt8.ofNat (x * 4 + y / 16)
    if c = '=' ∧ d = '=' ∧ rest = [] then if y % 16 = 0 then some [first] else none
    else do
      let z ← digitValue c
      let second := UInt8.ofNat (y % 16 * 16 + z / 4)
      if d = '=' ∧ rest = [] then if z % 4 = 0 then some [first, second] else none
      else do
        let w ← digitValue d
        let tail ← decodeChars rest
        some (first :: second :: UInt8.ofNat (z % 4 * 64 + w) :: tail)
  | _ => none

theorem decodeChars_encodeChars (bytes : List UInt8) :
    decodeChars (encodeChars bytes) = some bytes := by
  have hbyte : ∀ (b : UInt8) {n : Nat}, n = b.toNat → UInt8.ofNat n = b := fun b n h => by
    rw [h, UInt8.ofNat_toNat]
  induction bytes using encodeChars.induct with
  | case1 => rfl
  | case2 a =>
    have ha := a.toNat_lt
    simp only [encodeChars, decodeChars, digitValue_digit (a.toNat / 4) (by omega),
      digitValue_digit (a.toNat % 4 * 16) (by omega), Option.bind_eq_bind, Option.bind_some,
      and_self, if_true]
    rw [if_pos (by omega), hbyte a (by omega)]
  | case3 a b =>
    have ha := a.toNat_lt
    have hb := b.toNat_lt
    have hne := digit_ne (b.toNat % 16 * 4) (by omega)
    simp only [encodeChars, decodeChars, digitValue_digit (a.toNat / 4) (by omega),
      digitValue_digit (a.toNat % 4 * 16 + b.toNat / 16) (by omega),
      digitValue_digit (b.toNat % 16 * 4) (by omega), Option.bind_eq_bind, Option.bind_some, hne,
      false_and, if_false, and_self, if_true]
    rw [if_pos (by omega), hbyte a (by omega), hbyte b (by omega)]
  | case4 a b c rest ih =>
    have ha := a.toNat_lt
    have hb := b.toNat_lt
    have hc := c.toNat_lt
    have hne := digit_ne (b.toNat % 16 * 4 + c.toNat / 64) (by omega)
    have hne' := digit_ne (c.toNat % 64) (by omega)
    simp only [encodeChars, decodeChars, digitValue_digit (a.toNat / 4) (by omega),
      digitValue_digit (a.toNat % 4 * 16 + b.toNat / 16) (by omega),
      digitValue_digit (b.toNat % 16 * 4 + c.toNat / 64) (by omega),
      digitValue_digit (c.toNat % 64) (by omega), Option.bind_eq_bind, Option.bind_some, hne, hne',
      false_and, if_false, ih]
    rw [hbyte a (by omega), hbyte b (by omega), hbyte c (by omega)]

theorem length_encodeChars (bytes : List UInt8) :
    (encodeChars bytes).length = 4 * ((bytes.length + 2) / 3) := by
  induction bytes using encodeChars.induct with
  | case1 => rfl
  | case2 a => simp [encodeChars]
  | case3 a b => simp [encodeChars]
  | case4 a b c rest ih =>
    simp only [encodeChars, List.length_cons, ih]
    omega

theorem not_isWhitespace_encodeChars (bytes : List UInt8) : ∀ c ∈ encodeChars bytes,
    isWhitespace c = false := by
  induction bytes using encodeChars.induct with
  | case1 => simp [encodeChars]
  | case2 a =>
    have ha := a.toNat_lt
    simp only [encodeChars, List.forall_mem_cons]
    exact ⟨isWhitespace_digit _ (by omega), isWhitespace_digit _ (by omega), by decide, by
      decide, by simp⟩
  | case3 a b =>
    have ha := a.toNat_lt
    have hb := b.toNat_lt
    simp only [encodeChars, List.forall_mem_cons]
    exact ⟨isWhitespace_digit _ (by omega), isWhitespace_digit _ (by omega),
      isWhitespace_digit _ (by omega),
      by decide, by simp⟩
  | case4 a b c rest ih =>
    have ha := a.toNat_lt
    have hb := b.toNat_lt
    have hc := c.toNat_lt
    simp only [encodeChars, List.forall_mem_cons]
    exact ⟨isWhitespace_digit _ (by omega), isWhitespace_digit _ (by omega),
      isWhitespace_digit _ (by omega), isWhitespace_digit _ (by omega), ih⟩

/-! ## Texts -/

def encode (bytes : List UInt8) : String := String.ofList (encodeChars bytes)

def decode (text : String) : Option (List UInt8) := decodeChars text.toList

example : encode (utf8 "light w") = "bGlnaHQgdw==" := by decide

theorem decode_encode (bytes : List UInt8) : decode (encode bytes) = some bytes := by
  rw [decode, encode, String.toList_ofList, decodeChars_encodeChars]

theorem length_encode (bytes : List UInt8) :
    (encode bytes).toList.length = 4 * ((bytes.length + 2) / 3) := by
  rw [encode, String.toList_ofList, length_encodeChars]

theorem trim_encode (bytes : List UInt8) : trim (encode bytes) = encode bytes := by
  have hkeep : ∀ {cs : List Char}, (∀ c ∈ cs, isWhitespace c = false) →
      cs.dropWhile isWhitespace = cs := by
    intro cs h
    cases cs with
    | nil => rfl
    | cons c cs => exact List.dropWhile_cons_of_neg (by simp [h c (List.mem_cons_self ..)])
  have hplain := not_isWhitespace_encodeChars bytes
  rw [trim, encode, String.toList_ofList, hkeep hplain,
    hkeep fun c hc => hplain c (List.mem_reverse.mp hc), List.reverse_reverse]

end Lib.Base64
