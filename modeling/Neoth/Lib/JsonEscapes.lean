import Neoth.Lib.JsonStrings
import Neoth.Lib.Text

/-!
# Escapes of a JSON string

* `unicodeEscape_unit`, `unicodeEscape_pair`: what the decoder makes of `\u` escapes;
* `serdeEscape`: how a serializer spells a character that must not stand in a string as it is;
* `spells_serdeEscape`, `piece_serdeEscape`: the decoder reads the character back, and a scanner
  meets one piece;
* `textEntry`, `optionEntry`: the members of a record, and `reads_textEntry`, `reads_optionEntry`:
  that they are read;
* `bytes_quoted_le`, `bytes_objectText_le`: how large they are.
-/

open Lib.Encoding

namespace Lib.JsonDecode

/-! ## Code units -/

/-- `{:04x}` of a code unit. -/
def hex4 (n : Nat) : List Char :=
  [hexDigit (n / 4096 % 16), hexDigit (n / 256 % 16), hexDigit (n / 16 % 16), hexDigit (n % 16)]

theorem mem_hex4 {n : Nat} {d : Char} (h : d ∈ hex4 n) : ∃ k < 16, d = hexDigit k := by
  simp only [hex4, List.mem_cons, List.not_mem_nil, or_false] at h
  rcases h with rfl | rfl | rfl | rfl <;> exact ⟨_, Nat.mod_lt _ (by decide), rfl⟩

theorem hexValue_hexDigit : ∀ n < 16, hexValue (hexDigit n) = some n := by decide

theorem codeUnit_hex4 {n : Nat} (h : n < 0x10000) (rest : List Char) :
    codeUnit (hex4 n ++ rest) = some (n, rest) := by
  have hdigit : ∀ k, hexValue (hexDigit (k % 16)) = some (k % 16) := fun k =>
    hexValue_hexDigit _ (Nat.mod_lt _ (by decide))
  have hsum : ((n / 4096 % 16 * 16 + n / 256 % 16) * 16 + n / 16 % 16) * 16 + n % 16 = n := by omega
  simp only [hex4, List.cons_append, List.nil_append, codeUnit, hdigit, Option.bind_eq_bind,
    Option.bind_some, hsum]

/-- A character is no half of a pair. -/
theorem toNat_scalar (c : Char) : c.toNat < 0xd800 ∨ (0xe000 ≤ c.toNat ∧ c.toNat < 0x110000) := by
  rcases c.valid with h | h
  · exact .inl h
  · exact .inr ⟨h.1, h.2⟩

/-- A code unit that is no half of a pair. -/
theorem unicodeEscape_unit {n : Nat} (h : n < 0xd800 ∨ (0xe000 ≤ n ∧ n < 0x10000))
    (rest : List Char) : unicodeEscape (hex4 n ++ rest) = some (Char.ofNat n, rest) := by
  have hunit := codeUnit_hex4 (n := n) (by omega) rest
  have hhigh : ¬ (0xd800 ≤ n ∧ n < 0xdc00) := by omega
  have hlow : ¬ (0xdc00 ≤ n ∧ n < 0xe000) := by omega
  simp only [unicodeEscape, hunit, Option.bind_eq_bind, Option.bind_some, if_neg hhigh, if_neg hlow]

theorem unicodeEscape_pair {high low : Nat} (hhigh : high < 0x400) (hlow : low < 0x400)
    (rest : List Char) :
    unicodeEscape (hex4 (0xd800 + high) ++ '\\' :: 'u' :: (hex4 (0xdc00 + low) ++ rest)) =
      some (Char.ofNat (0x10000 + high * 0x400 + low), rest) := by
  have hfirst :=
    codeUnit_hex4 (n := 0xd800 + high) (by omega) ('\\' :: 'u' :: (hex4 (0xdc00 + low) ++ rest))
  have hsecond := codeUnit_hex4 (n := 0xdc00 + low) (by omega) rest
  have hleft : 0xd800 ≤ 0xd800 + high ∧ 0xd800 + high < 0xdc00 := by omega
  have hright : 0xdc00 ≤ 0xdc00 + low ∧ 0xdc00 + low < 0xe000 := by omega
  simp only [unicodeEscape, hfirst, hsecond, Option.bind_eq_bind, Option.bind_some, if_pos hleft,
    if_pos hright, Nat.add_sub_cancel_left]

theorem scalar_unicode (cs : List Char) : scalar ('\\' :: 'u' :: cs) = unicodeEscape cs := rfl

/-! ## The spelling of a serializer -/

/-- How `serde_json` spells a character of a string. -/
def serdeEscape (c : Char) : List Char :=
  if c = '"' then ['\\', '"']
  else if c = '\\' then ['\\', '\\']
  else if c.toNat = 0x08 then ['\\', 'b']
  else if c.toNat = 0x09 then ['\\', 't']
  else if c.toNat = 0x0a then ['\\', 'n']
  else if c.toNat = 0x0c then ['\\', 'f']
  else if c.toNat = 0x0d then ['\\', 'r']
  else if c.toNat < 0x20 then '\\' :: 'u' :: hex4 c.toNat
  else [c]

theorem hexDigit_plain : ∀ k < 16, hexDigit k ≠ '"' ∧ hexDigit k ≠ '\\' := by decide

theorem piece_unicode (n : Nat) : Piece ('\\' :: 'u' :: hex4 n) := by
  refine .escape 'u' fun d hd => ?_
  obtain ⟨k, hk, rfl⟩ := mem_hex4 hd
  exact hexDigit_plain k hk

theorem eq_of_toNat {c : Char} {n : Nat} (h : c.toNat = n) : c = Char.ofNat n := by
  rw [← h, Char.ofNat_toNat]

theorem piece_serdeEscape (c : Char) : Piece (serdeEscape c) := by
  unfold serdeEscape
  split_ifs with h1 h2
  · exact .escape '"' (by simp)
  · exact .escape '\\' (by simp)
  · exact .escape 'b' (by simp)
  · exact .escape 't' (by simp)
  · exact .escape 'n' (by simp)
  · exact .escape 'f' (by simp)
  · exact .escape 'r' (by simp)
  · exact piece_unicode _
  · exact .plain h1 h2

theorem spells_unicode {c : Char} (h : c.toNat < 0xd800 ∨ (0xe000 ≤ c.toNat ∧ c.toNat < 0x10000)) :
    Spells ('\\' :: 'u' :: hex4 c.toNat) c := by
  refine ⟨by simp, fun rest => ?_⟩
  rw [List.cons_append, List.cons_append, scalar_unicode, unicodeEscape_unit h, Char.ofNat_toNat]

/-- The escape of a letter or a quote. -/
theorem spells_letter {c d : Char} (h : ∀ rest, escaped (d :: rest) = some (c, rest)) :
    Spells ['\\', d] c := by
  refine ⟨by simp, fun rest => ?_⟩
  simpa [scalar] using h rest

theorem spells_serdeEscape (c : Char) : Spells (serdeEscape c) c := by
  unfold serdeEscape
  split_ifs with h1 h2 h3 h4 h5 h6 h7 h8
  · subst h1
    exact spells_letter fun _ => rfl
  · subst h2
    exact spells_letter fun _ => rfl
  · obtain rfl := eq_of_toNat h3
    exact spells_letter fun _ => rfl
  · obtain rfl := eq_of_toNat h4
    exact spells_letter fun _ => rfl
  · obtain rfl := eq_of_toNat h5
    exact spells_letter fun _ => rfl
  · obtain rfl := eq_of_toNat h6
    exact spells_letter fun _ => rfl
  · obtain rfl := eq_of_toNat h7
    exact spells_letter fun _ => rfl
  · exact spells_unicode (.inl (by omega))
  · exact spells_self h1 h2 (by omega)

/-! ## Records -/

def textEntry (key text : String) : Entry := (key, quoted serdeEscape text, .string text)

def optionEntry (key : String) (value : Option String) : Entry :=
  (key, value.elim ['n', 'u', 'l', 'l'] (quoted serdeEscape), value.elim .null .string)

/-- `skip_serializing_if = "Option::is_none"`. -/
def presentEntry (key : String) (value : Option String) : List Entry :=
  (value.map (textEntry key)).toList

/-- An `Option` field: absent and `null` are both `None`. -/
def optionText? (members : List (String × Value)) (key : String) : Option (Option String) :=
  if members.any (·.1 == key) then
    match member? members key with
    | some .null => some none
    | some (.string text) => some (some text)
    | _ => none
  else some none

theorem optionText_of_member {members : List (String × Value)} {key : String}
    {value : Option String}
    (hany : members.any (·.1 == key) = true)
    (hmember : member? members key = some (value.elim .null .string)) :
    optionText? members key = some value := by
  rw [optionText?, if_pos hany, hmember]
  cases value <;> rfl

section
variable {key : String} (hkey : PlainKey key)
include hkey

theorem reads_textEntry (text : String) : PlainKey (textEntry key text).1 ∧
    Reads (textEntry key text).2.1 (textEntry key text).2.2 :=
  ⟨hkey, reads_string fun c _ => spells_serdeEscape c⟩

theorem reads_natEntry (n : Nat) : PlainKey (natEntry key n).1 ∧
    Reads (natEntry key n).2.1 (natEntry key n).2.2 :=
  ⟨hkey, reads_nat n⟩

theorem reads_optionEntry (value : Option String) : PlainKey (optionEntry key value).1 ∧
    Reads (optionEntry key value).2.1 (optionEntry key value).2.2 := by
  cases value with
  | none => exact ⟨hkey, reads_null⟩
  | some text => exact reads_textEntry hkey text

theorem reads_presentEntry (value : Option String) : Members (presentEntry key value) := by
  cases value with
  | none => simp [Members, presentEntry]
  | some text => simpa [Members, presentEntry] using reads_textEntry hkey text

end

/-! ## Sizes -/

open Lib.Text

theorem bytes_serdeEscape_le (c : Char) : bytes (serdeEscape c) ≤ 6 := by
  have hself : c.utf8Size ≤ 6 := (Char.utf8Size_le_four c).trans (by decide)
  have hhex : ∀ k, (hexDigit (k % 16)).utf8Size = 1 := fun k =>
    (by decide : ∀ n < 16, (hexDigit n).utf8Size = 1) _ (Nat.mod_lt _ (by decide))
  unfold serdeEscape
  split_ifs
  iterate 7 decide
  · simp [hex4, hhex, show '\\'.utf8Size = 1 from rfl, show 'u'.utf8Size = 1 from rfl]
  · simp [hself]

theorem bytes_quoted_le (text : String) :
    bytes (quoted serdeEscape text) ≤ 6 * text.toList.length + 2 := by
  have hbody : ∀ cs : List Char, bytes (cs.flatMap serdeEscape) ≤ 6 * cs.length := by
    intro cs
    induction cs with
    | nil => simp
    | cons c cs ih =>
      have hc := bytes_serdeEscape_le c
      rw [List.flatMap_cons, bytes_append, List.length_cons]
      omega
  have hquote : '"'.utf8Size = 1 := rfl
  have htext := hbody text.toList
  simp only [quoted, bytes_cons, bytes_append, bytes_nil, hquote]
  omega

theorem bytes_objectText_le (members : List (String × List Char)) :
    bytes (objectText members) ≤
      (members.map fun member => bytes member.1.toList + 4).sum +
        (members.map fun member => bytes member.2).sum + 2 := by
  have hmember : ∀ member, bytes (memberText member) =
      bytes member.1.toList + bytes member.2 + 3 := by
    intro member
    simp only [memberText, bytes_cons, bytes_append, show '"'.utf8Size = 1 from rfl,
      show ':'.utf8Size = 1 from rfl]
    omega
  have hmembers : ∀ members, bytes (membersText members) ≤
      (members.map fun member => bytes member.1.toList + 4).sum +
        (members.map fun member => bytes member.2).sum := by
    intro members
    induction members using membersText.induct with
    | case1 => simp [membersText]
    | case2 member =>
      simp only [membersText, hmember, List.map_cons, List.map_nil, List.sum_cons, List.sum_nil]
      omega
    | case3 member rest hne ih =>
      simp only [membersText, bytes_append, bytes_cons, hmember, List.map_cons, List.sum_cons,
        show ','.utf8Size = 1 from rfl]
      omega
  have htexts := hmembers members
  simp only [objectText, bytes_cons, bytes_append, bytes_nil, show '\x7b'.utf8Size = 1 from rfl,
    show '\x7d'.utf8Size = 1 from rfl]
  omega

end Lib.JsonDecode
