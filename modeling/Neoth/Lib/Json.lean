import Neoth.Lib.Encoding

/-!
# JSON text

The compact writer of `serde_json`: decimal integers, strings with the escapes of
its byte table, arrays and objects without blanks.

A text that is hashed binds what it was written from only if it can be read back,
so the second half shows what no two different values share:

* `nat_append_inj`: a number, up to the first byte that is not a digit;
* `string_append_inj`: a string, up to its closing quote;
* `object_append_inj`: a map of strings to numbers, up to its closing brace.

`length_nat_le` and `length_string_le` bound what is written.
-/

open Lib.Encoding

namespace Lib.Json

/-! ## Writing -/

/-- The digits of `n`, most significant first. -/
def decimalDigits : Nat → Nat → List UInt8
  | 0, _ => []
  | fuel + 1, n =>
    if n < 10 then [UInt8.ofNat (48 + n)]
    else decimalDigits fuel (n / 10) ++ [UInt8.ofNat (48 + n % 10)]

def nat (n : Nat) : List UInt8 := decimalDigits (n + 1) n

def int : Int → List UInt8
  | .ofNat n => nat n
  | .negSucc n => 0x2d :: nat (n + 1)

/-- What stands after the backslash: a letter, or `u00` and two hexadecimal digits. -/
def escapeCode (b : UInt8) : List UInt8 :=
  if b = 0x22 then [0x22]
  else if b = 0x5c then [0x5c]
  else if b = 0x08 then [0x62]
  else if b = 0x09 then [0x74]
  else if b = 0x0a then [0x6e]
  else if b = 0x0c then [0x66]
  else if b = 0x0d then [0x72]
  else [0x75, 0x30, 0x30, UInt8.ofNat (hexDigit (b.toNat / 16)).toNat,
    UInt8.ofNat (hexDigit (b.toNat % 16)).toNat]

def isEscaped (b : UInt8) : Bool := b < 0x20 || b == 0x22 || b == 0x5c

def escape (b : UInt8) : List UInt8 := if isEscaped b then 0x5c :: escapeCode b else [b]

def string (s : String) : List UInt8 := 0x22 :: ((utf8 s).flatMap escape ++ [0x22])

def commaSep : List (List UInt8) → List UInt8
  | [] => []
  | [value] => value
  | value :: next :: rest => value ++ 0x2c :: commaSep (next :: rest)

def array (values : List (List UInt8)) : List UInt8 := 0x5b :: (commaSep values ++ [0x5d])

def field (key : String) (value : List UInt8) : List UInt8 := string key ++ 0x3a :: value

def object (fields : List (List UInt8)) : List UInt8 := 0x7b :: (commaSep fields ++ [0x7d])

def bytes (b : List UInt8) : List UInt8 := array (b.map fun byte => nat byte.toNat)

def option {α : Type} (write : α → List UInt8) : Option α → List UInt8
  | none => utf8 "null"
  | some a => write a

example : object [field "a\n" (int (-12)), field "b" (bytes [7, 255])] =
    utf8 "\x7b\"a\\n\":-12,\"b\":[7,255]\x7d" := by decide +kernel

/-! ## Numbers -/

def digitsValue (digits : List UInt8) : Nat :=
  digits.foldl (fun acc d => 10 * acc + (d.toNat - 48)) 0

variable {n : Nat}

theorem toNat_digit (h : n < 10) : (UInt8.ofNat (48 + n)).toNat = 48 + n := by
  rw [UInt8.toNat_ofNat_of_lt']
  show 48 + n < 2 ^ 8
  omega

theorem decimalDigits_isAsciiDigit (fuel n : Nat) :
    ∀ d ∈ decimalDigits fuel n, isAsciiDigit d = true := by
  have hdigit : ∀ m, m < 10 → isAsciiDigit (UInt8.ofNat (48 + m)) = true := by decide
  induction fuel generalizing n with
  | zero => simp [decimalDigits]
  | succ fuel ih =>
    intro d hd
    unfold decimalDigits at hd
    split at hd
    · rename_i hn
      rw [List.mem_singleton] at hd
      rw [hd]
      exact hdigit n hn
    · rcases List.mem_append.mp hd with hd | hd
      · exact ih _ d hd
      · rw [List.mem_singleton] at hd
        rw [hd]
        exact hdigit _ (Nat.mod_lt _ (by omega))

theorem digitsValue_decimalDigits (fuel n : Nat) (h : n < fuel) :
    digitsValue (decimalDigits fuel n) = n := by
  induction fuel generalizing n with
  | zero => omega
  | succ fuel ih =>
    unfold decimalDigits
    split
    · rename_i hn
      simp only [digitsValue, List.foldl_cons, List.foldl_nil, toNat_digit hn]
      omega
    · rename_i hn
      have hrest : digitsValue (decimalDigits fuel (n / 10)) = n / 10 := ih _ (by omega)
      unfold digitsValue at hrest ⊢
      rw [List.foldl_append, hrest, List.foldl_cons, List.foldl_nil,
        toNat_digit (Nat.mod_lt n (by omega))]
      omega

theorem nat_injective : Function.Injective nat := by
  intro a b h
  have ha : digitsValue (nat a) = a := digitsValue_decimalDigits _ _ (Nat.lt_succ_self a)
  have hb : digitsValue (nat b) = b := digitsValue_decimalDigits _ _ (Nat.lt_succ_self b)
  rw [← ha, ← hb, h]

/-- What may follow a number. -/
def Stops (rest : List UInt8) : Prop := ∀ b ∈ rest.head?, isAsciiDigit b = false

theorem takeWhile_nat_append {rest : List UInt8} (h : Stops rest) :
    (nat n ++ rest).takeWhile isAsciiDigit = nat n := by
  have hdigits : ∀ d ∈ nat n, isAsciiDigit d = true := decimalDigits_isAsciiDigit _ _
  rw [List.takeWhile_append_of_pos hdigits]
  cases rest with
  | nil => simp
  | cons b rest => simp [h b rfl]

variable {x y : List UInt8}

theorem nat_append_inj {a b : Nat} (hx : Stops x) (hy : Stops y) (h : nat a ++ x = nat b ++ y) :
    a = b ∧ x = y := by
  have hnat : nat a = nat b := by
    rw [← takeWhile_nat_append hx, h, takeWhile_nat_append hy]
  rw [hnat] at h
  exact ⟨nat_injective hnat, List.append_cancel_left h⟩

/-! ## Strings -/

theorem utf8_injective : Function.Injective utf8 := by
  intro s t h
  apply String.toByteArray_inj.mp
  rw [← String.utf8Encode_toList, ← String.utf8Encode_toList]
  exact congrArg List.toByteArray h

def escapedBytes : List UInt8 := (List.range 32).map UInt8.ofNat ++ [0x22, 0x5c]

variable {b : UInt8}

theorem mem_escapedBytes (h : isEscaped b = true) : b ∈ escapedBytes := by
  have hall : ∀ n < 256, isEscaped (UInt8.ofNat n) = true → UInt8.ofNat n ∈ escapedBytes := by
    decide +kernel
  have hb := hall b.toNat b.toNat_lt
  rw [UInt8.ofNat_toNat] at hb
  exact hb h

/-- The first letter of a code says how long it is. -/
theorem length_escapeCode (b : UInt8) :
    (escapeCode b).length = if (escapeCode b).head? = some 0x75 then 5 else 1 := by
  unfold escapeCode
  iterate 7
    split
    · rfl
  rfl

/-- The byte of a code. -/
def unescaped : List UInt8 → UInt8
  | [c] =>
    if c = 0x62 then 0x08
    else if c = 0x74 then 0x09
    else if c = 0x6e then 0x0a
    else if c = 0x66 then 0x0c
    else if c = 0x72 then 0x0d
    else c
  | [_, _, _, high, low] => 16 * (high - 0x30) + if low < 0x3a then low - 0x30 else low - 0x57
  | _ => 0

theorem unescaped_escapeCode : ∀ a ∈ escapedBytes, unescaped (escapeCode a) = a := by decide +kernel

theorem escapeCode_prefix_inj : ∀ a ∈ escapedBytes, ∀ b ∈ escapedBytes,
    (escapeCode a).isPrefixOf (escapeCode b) = true → a = b := by
  intro a ha b hb hprefix
  obtain ⟨rest, hrest⟩ := List.isPrefixOf_iff_prefix.mp hprefix
  have hne : escapeCode a ≠ [] := by
    intro hnil
    have hlength := length_escapeCode a
    rw [hnil] at hlength
    cases hlength
  have hhead : (escapeCode a).head? = (escapeCode b).head? := by
    rw [← hrest, List.head?_append_of_ne_nil _ hne]
  have hlength : (escapeCode a).length = (escapeCode b).length := by
    rw [length_escapeCode, length_escapeCode, hhead]
  rw [← unescaped_escapeCode a ha, ← unescaped_escapeCode b hb,
    (List.isPrefixOf_iff_prefix.mp hprefix).eq_of_length hlength]

theorem escape_append_inj {a b : UInt8} (h : escape a ++ x = escape b ++ y) : a = b ∧ x = y := by
  have hplain : ∀ c : UInt8, isEscaped c = false → c ≠ 0x5c := by
    rintro c hc rfl
    exact absurd hc (by decide)
  unfold escape at h
  split at h <;> split at h
  · rename_i ha hb
    have hcode : escapeCode a ++ x = escapeCode b ++ y := List.tail_eq_of_cons_eq h
    have hab : a = b := by
      rcases List.prefix_or_prefix_of_prefix (List.prefix_append _ x)
        (hcode ▸ List.prefix_append (escapeCode b) y) with hprefix | hprefix
      · exact escapeCode_prefix_inj a (mem_escapedBytes ha) b (mem_escapedBytes hb)
          (List.isPrefixOf_iff_prefix.mpr hprefix)
      · exact (escapeCode_prefix_inj b (mem_escapedBytes hb) a (mem_escapedBytes ha)
          (List.isPrefixOf_iff_prefix.mpr hprefix)).symm
    subst hab
    exact ⟨rfl, List.append_cancel_left hcode⟩
  · rename_i ha hb
    exact absurd (List.head_eq_of_cons_eq h).symm (hplain b (by simpa using hb))
  · rename_i ha hb
    exact absurd (List.head_eq_of_cons_eq h) (hplain a (by simpa using ha))
  · exact ⟨List.head_eq_of_cons_eq h, List.tail_eq_of_cons_eq h⟩

/-- No escape starts with a quote. -/
theorem escape_append_ne_quote : escape b ++ x ≠ 0x22 :: y := by
  intro h
  unfold escape at h
  split at h
  · exact absurd (List.head_eq_of_cons_eq h) (by decide)
  · rename_i hb
    rw [List.head_eq_of_cons_eq h] at hb
    exact hb rfl

theorem escaped_append_inj {a b x y : List UInt8}
    (h : a.flatMap escape ++ 0x22 :: x = b.flatMap escape ++ 0x22 :: y) : a = b ∧ x = y := by
  induction a generalizing b with
  | nil =>
    cases b with
    | nil => exact ⟨rfl, List.tail_eq_of_cons_eq h⟩
    | cons c b =>
      rw [List.flatMap_cons, List.append_assoc] at h
      exact absurd h.symm escape_append_ne_quote
  | cons c a ih =>
    cases b with
    | nil =>
      rw [List.flatMap_cons, List.append_assoc] at h
      exact absurd h escape_append_ne_quote
    | cons d b =>
      rw [List.flatMap_cons, List.flatMap_cons, List.append_assoc, List.append_assoc] at h
      obtain ⟨rfl, hrest⟩ := escape_append_inj h
      obtain ⟨rfl, rfl⟩ := ih hrest
      exact ⟨rfl, rfl⟩

theorem string_append_inj {s t : String} (h : string s ++ x = string t ++ y) : s = t ∧ x = y := by
  unfold string at h
  rw [List.cons_append, List.cons_append, List.append_assoc, List.append_assoc] at h
  obtain ⟨hs, hx⟩ := escaped_append_inj (List.tail_eq_of_cons_eq h)
  exact ⟨utf8_injective hs, hx⟩

/-! ## Maps of strings to numbers -/

def counter (entry : String × Nat) : List UInt8 := field entry.1 (nat entry.2)

theorem stops_cons (h : isAsciiDigit b = false) (rest : List UInt8) : Stops (b :: rest) := by
  intro c hc
  rw [List.head?_cons, Option.mem_some_iff] at hc
  rw [← hc, h]

theorem counter_append_inj {a b : String × Nat} (hx : Stops x) (hy : Stops y)
    (h : counter a ++ x = counter b ++ y) : a = b ∧ x = y := by
  unfold counter field at h
  rw [List.append_assoc, List.append_assoc, List.cons_append, List.cons_append] at h
  obtain ⟨hkey, h⟩ := string_append_inj h
  obtain ⟨hvalue, h⟩ := nat_append_inj hx hy (List.tail_eq_of_cons_eq h)
  exact ⟨Prod.ext hkey hvalue, h⟩

theorem counter_append_ne_brace {a : String × Nat} : counter a ++ x ≠ 0x7d :: y := by
  intro h
  exact absurd (List.head_eq_of_cons_eq h) (by decide)

/-- What follows an entry: the closing brace, or a comma and the entries that are left. -/
def entriesTail : List (String × Nat) → List UInt8 → List UInt8
  | [], rest => 0x7d :: rest
  | entry :: entries, rest => 0x2c :: (counter entry ++ entriesTail entries rest)

theorem stops_entriesTail (entries : List (String × Nat)) (rest : List UInt8) :
    Stops (entriesTail entries rest) := by
  cases entries with
  | nil => exact stops_cons (by decide) _
  | cons entry entries => exact stops_cons (by decide) _

theorem commaSep_append (entry : String × Nat) (entries : List (String × Nat)) (rest : List UInt8) :
    commaSep ((entry :: entries).map counter) ++ 0x7d :: rest =
      counter entry ++ entriesTail entries rest := by
  induction entries generalizing entry with
  | nil => rfl
  | cons next entries ih =>
    show (counter entry ++ 0x2c :: commaSep ((next :: entries).map counter)) ++ 0x7d :: rest = _
    rw [List.append_assoc, List.cons_append, ih]
    rfl

theorem entriesTail_inj {as bs : List (String × Nat)} (h : entriesTail as x = entriesTail bs y) :
    as = bs ∧ x = y := by
  induction as generalizing bs with
  | nil =>
    cases bs with
    | nil => exact ⟨rfl, List.tail_eq_of_cons_eq h⟩
    | cons b bs => exact absurd (List.head_eq_of_cons_eq h) (by decide)
  | cons a as ih =>
    cases bs with
    | nil => exact absurd (List.head_eq_of_cons_eq h) (by decide)
    | cons b bs =>
      obtain ⟨rfl, hrest⟩ := counter_append_inj (stops_entriesTail as x) (stops_entriesTail bs y)
        (List.tail_eq_of_cons_eq h)
      obtain ⟨rfl, rfl⟩ := ih hrest
      exact ⟨rfl, rfl⟩

theorem object_append_inj {as bs : List (String × Nat)}
    (h : object (as.map counter) ++ x = object (bs.map counter) ++ y) : as = bs ∧ x = y := by
  unfold object at h
  rw [List.cons_append, List.cons_append, List.append_assoc, List.append_assoc,
    List.singleton_append, List.singleton_append] at h
  have h := List.tail_eq_of_cons_eq h
  cases as with
  | nil =>
    cases bs with
    | nil => exact ⟨rfl, List.tail_eq_of_cons_eq h⟩
    | cons b bs =>
      rw [commaSep_append] at h
      exact absurd h.symm counter_append_ne_brace
  | cons a as =>
    cases bs with
    | nil =>
      rw [commaSep_append] at h
      exact absurd h counter_append_ne_brace
    | cons b bs =>
      rw [commaSep_append, commaSep_append] at h
      obtain ⟨rfl, hrest⟩ := counter_append_inj (stops_entriesTail as x) (stops_entriesTail bs y) h
      obtain ⟨rfl, rfl⟩ := entriesTail_inj hrest
      exact ⟨rfl, rfl⟩

/-! ## Lengths -/

theorem length_decimalDigits_le {k : Nat} (fuel : Nat) (h : n < 10 ^ (k + 1)) :
    (decimalDigits fuel n).length ≤ k + 1 := by
  induction fuel generalizing n k with
  | zero => exact Nat.zero_le _
  | succ fuel ih =>
    unfold decimalDigits
    split
    · exact Nat.le_add_left 1 k
    · rename_i hn
      cases k with
      | zero => omega
      | succ k =>
        have hquotient : n / 10 < 10 ^ (k + 1) := by
          rw [Nat.div_lt_iff_lt_mul (by omega)]
          exact h
        rw [List.length_append, List.length_singleton]
        exact Nat.succ_le_succ (ih hquotient)

theorem length_nat_le {n k : Nat} (h : n < 10 ^ (k + 1)) : (nat n).length ≤ k + 1 :=
  length_decimalDigits_le _ h

theorem length_escape_le (b : UInt8) : (escape b).length ≤ 6 := by
  unfold escape
  split
  · rw [List.length_cons, length_escapeCode]
    split <;> decide
  · exact (by decide : 1 ≤ 6)

theorem length_string_le (s : String) : (string s).length ≤ 6 * byteLen s + 2 := by
  have hflat : ∀ bs : List UInt8, (bs.flatMap escape).length ≤ 6 * bs.length := by
    intro bs
    induction bs with
    | nil => exact Nat.zero_le _
    | cons b bs ih =>
      have hb := length_escape_le b
      rw [List.flatMap_cons, List.length_append, List.length_cons]
      omega
  have hs := hflat (utf8 s)
  simp only [string, byteLen, List.length_cons, List.length_append, List.length_nil]
  omega

end Lib.Json
