import Neoth.Lib.Encoding

/-!
# JSON texts that are read

A decoder for the grammar of RFC 8259: white space between tokens, numbers without leading zeros,
strings without raw control characters, whose `\u` escapes are UTF-16 code units that must pair up.

* `Reads text v`: the decoder takes `text` for `v`, whatever follows it;
* `reads_nat`, `reads_string`, `reads_object`: what a writer may write for a value;
* `decode_of_reads`: a text that reads as a value decodes to it.
-/

open Lib.Encoding

namespace Lib.JsonDecode

/-! ## Values -/

/-- A number as it is written: its sign, the integer, the digits of the fraction, the exponent. -/
structure Number where
  negative : Bool
  integer : Nat
  fraction : List Char
  exponent : Int

inductive Value
  | null
  | bool (b : Bool)
  | number (n : Number)
  | string (text : String)
  | array (values : List Value)
  | object (members : List (String × Value))

/-- A natural number. -/
def Value.nat (n : Nat) : Value := .number ⟨false, n, [], 0⟩

/-! ## Tokens -/

def isSpace (c : Char) : Bool := c == ' ' || c == '\t' || c == '\n' || c == '\r'

def skipSpace (cs : List Char) : List Char := cs.dropWhile isSpace

def hexValue (c : Char) : Option Nat :=
  if '0' ≤ c ∧ c ≤ '9' then some (c.toNat - 0x30)
  else if 'a' ≤ c ∧ c ≤ 'f' then some (c.toNat - 0x61 + 10)
  else if 'A' ≤ c ∧ c ≤ 'F' then some (c.toNat - 0x41 + 10)
  else none

/-- The code unit of four hexadecimal digits. -/
def codeUnit : List Char → Option (Nat × List Char)
  | a :: b :: c :: d :: rest => do
    let a ← hexValue a
    let b ← hexValue b
    let c ← hexValue c
    let d ← hexValue d
    some (((a * 16 + b) * 16 + c) * 16 + d, rest)
  | _ => none

/-- What follows `\u`: a code unit, or two that make a pair. -/
def unicodeEscape (cs : List Char) : Option (Char × List Char) := do
  let (unit, rest) ← codeUnit cs
  if 0xd800 ≤ unit ∧ unit < 0xdc00 then
    match rest with
    | '\\' :: 'u' :: rest => do
      let (low, rest) ← codeUnit rest
      if 0xdc00 ≤ low ∧ low < 0xe000 then
        some (Char.ofNat (0x10000 + (unit - 0xd800) * 0x400 + (low - 0xdc00)), rest)
      else none
    | _ => none
  else if 0xdc00 ≤ unit ∧ unit < 0xe000 then none
  else some (Char.ofNat unit, rest)

/-- What follows a backslash. -/
def escaped : List Char → Option (Char × List Char)
  | [] => none
  | c :: rest =>
    if c = 'u' then unicodeEscape rest
    else if c = '"' ∨ c = '\\' ∨ c = '/' then some (c, rest)
    else if c = 'b' then some (Char.ofNat 8, rest)
    else if c = 'f' then some (Char.ofNat 12, rest)
    else if c = 'n' then some ('\n', rest)
    else if c = 'r' then some ('\r', rest)
    else if c = 't' then some ('\t', rest)
    else none

/-- One character of a string. -/
def scalar : List Char → Option (Char × List Char)
  | [] => none
  | c :: rest => if c = '\\' then escaped rest else if c.toNat < 0x20 then none else some (c, rest)

/-- The rest of a string whose quote has been read. -/
def stringBody : Nat → List Char → Option (List Char × List Char)
  | 0, _ => none
  | fuel + 1, cs =>
    if cs.head? = some '"' then some ([], cs.tail)
    else do
      let (c, rest) ← scalar cs
      let (text, rest) ← stringBody fuel rest
      some (c :: text, rest)

/-- The string whose quote has been read. -/
def string (cs : List Char) : Option (String × List Char) :=
  (stringBody (cs.length + 1) cs).map fun r => (String.ofList r.1, r.2)

/-- The digits at the beginning, and what follows them. -/
def digits (cs : List Char) : List Char × List Char :=
  (cs.takeWhile (·.isDigit), cs.dropWhile (·.isDigit))

def fraction : List Char → Option (List Char × List Char)
  | '.' :: rest => if (digits rest).1 = [] then none else some (digits rest)
  | rest => some ([], rest)

def exponentDigits (negative : Bool) (cs : List Char) : Option (Int × List Char) :=
  if (digits cs).1 = [] then none
  else
    let n : Int := Nat.ofDigitChars 10 (digits cs).1 0
    some (if negative then -n else n, (digits cs).2)

def exponent : List Char → Option (Int × List Char)
  | c :: rest =>
    if c = 'e' ∨ c = 'E' then
      match rest with
      | '+' :: rest => exponentDigits false rest
      | '-' :: rest => exponentDigits true rest
      | rest => exponentDigits false rest
    else some (0, c :: rest)
  | [] => some (0, [])

def unsigned (negative : Bool) (cs : List Char) : Option (Number × List Char) :=
  let (integer, rest) := digits cs
  if integer = [] ∨ (integer.head? = some '0' ∧ 1 < integer.length) then none
  else do
    let (fraction, rest) ← fraction rest
    let (exponent, rest) ← exponent rest
    some (⟨negative, Nat.ofDigitChars 10 integer 0, fraction, exponent⟩, rest)

def number : List Char → Option (Number × List Char)
  | '-' :: rest => unsigned true rest
  | cs => unsigned false cs

/-- The text after `word`, which must come first. -/
def literal (word : List Char) (v : Value) (cs : List Char) : Option (Value × List Char) :=
  if word.isPrefixOf cs then some (v, cs.drop word.length) else none

/-! ## Texts -/

mutual

/-- The value at the beginning of a text; every token uses up fuel. -/
def value : Nat → List Char → Option (Value × List Char)
  | 0, _ => none
  | fuel + 1, cs =>
    match skipSpace cs with
    | [] => none
    | c :: rest =>
      if c = '"' then (string rest).map fun r => (.string r.1, r.2)
      else if c = '[' then
        if (skipSpace rest).head? = some ']' then some (.array [], (skipSpace rest).tail)
        else (elements fuel rest).map fun r => (.array r.1, r.2)
      else if c = '{' then
        if (skipSpace rest).head? = some '}' then some (.object [], (skipSpace rest).tail)
        else (members fuel rest).map fun r => (.object r.1, r.2)
      else if c = 'n' then literal ['n', 'u', 'l', 'l'] .null (c :: rest)
      else if c = 't' then literal ['t', 'r', 'u', 'e'] (.bool true) (c :: rest)
      else if c = 'f' then literal ['f', 'a', 'l', 's', 'e'] (.bool false) (c :: rest)
      else (number (c :: rest)).map fun r => (.number r.1, r.2)

def elements : Nat → List Char → Option (List Value × List Char)
  | 0, _ => none
  | fuel + 1, cs => do
    let (v, rest) ← value fuel cs
    match skipSpace rest with
    | ',' :: rest => do
      let (vs, rest) ← elements fuel rest
      some (v :: vs, rest)
    | ']' :: rest => some ([v], rest)
    | _ => none

def members : Nat → List Char → Option (List (String × Value) × List Char)
  | 0, _ => none
  | fuel + 1, cs =>
    match skipSpace cs with
    | '"' :: rest => do
      let (key, rest) ← string rest
      match skipSpace rest with
      | ':' :: rest => do
        let (v, rest) ← value fuel rest
        match skipSpace rest with
        | ',' :: rest => do
          let (vs, rest) ← members fuel rest
          some ((key, v) :: vs, rest)
        | '}' :: rest => some ([(key, v)], rest)
        | _ => none
      | _ => none
    | _ => none

end

/-- A text that is one value, with white space around it. -/
def decode (cs : List Char) : Option Value :=
  match value (cs.length + 1) cs with
  | some (v, rest) => if skipSpace rest = [] then some v else none
  | none => none

/-! ## What a writer may write -/

/-- A token that is not closed by itself ends here. -/
def Stops (rest : List Char) : Prop := ∀ c ∈ rest.head?, c.isDigit = false ∧ c ≠ '.' ∧
    c ≠ 'e' ∧ c ≠ 'E'

/-- The text is read as `v`. -/
def Reads (text : List Char) (v : Value) : Prop :=
  ∀ fuel rest, text.length < fuel → Stops rest → value fuel (text ++ rest) = some (v, rest)

theorem decode_of_reads {text : List Char} {v : Value} (h : Reads text v) :
    decode text = some v := by
  have hvalue := h (text.length + 1) [] (Nat.lt_succ_self _) (by simp [Stops])
  rw [List.append_nil] at hvalue
  unfold decode
  rw [hvalue]
  rfl

theorem reads_null : Reads ['n', 'u', 'l', 'l'] .null := by
  intro fuel rest hfuel _
  cases fuel with
  | zero => cases hfuel
  | succ fuel => rfl

theorem reads_true : Reads ['t', 'r', 'u', 'e'] (.bool true) := by
  intro fuel rest hfuel _
  cases fuel with
  | zero => cases hfuel
  | succ fuel => rfl

theorem reads_false : Reads ['f', 'a', 'l', 's', 'e'] (.bool false) := by
  intro fuel rest hfuel _
  cases fuel with
  | zero => cases hfuel
  | succ fuel => rfl

/-! ### Numbers -/

theorem isDigit_toDigits {n : Nat} {c : Char} (h : c ∈ Nat.toDigits 10 n) : c.isDigit = true :=
  Nat.isDigit_of_mem_toDigits (by decide) (by decide) h

/-- Only zero begins with a zero. -/
theorem head_toDigits (n : Nat) : (Nat.toDigits 10 n).head? = some '0' → n = 0 := by
  induction n using Nat.strong_induction_on with
  | _ n ih =>
    rw [Nat.toDigits_eq_if (by decide)]
    split
    · rename_i hlt
      have hall : ∀ m < 10, [Nat.digitChar m].head? = some '0' → m = 0 := by decide
      exact hall n hlt
    · rename_i hge
      have hne : Nat.toDigits 10 (n / 10) ≠ [] := Nat.toDigits_ne_nil
      rw [List.head?_append_of_ne_nil _ hne]
      intro hzero
      have hdiv := ih (n / 10) (by omega) hzero
      omega

theorem digits_append {ds rest : List Char} (hds : ∀ c ∈ ds, c.isDigit = true)
    (hrest : Stops rest) : digits (ds ++ rest) = (ds, rest) := by
  have htake : rest.takeWhile (·.isDigit) = [] ∧ rest.dropWhile (·.isDigit) = rest := by
    cases rest with
    | nil => exact ⟨rfl, rfl⟩
    | cons c rest =>
      have hc := (hrest c rfl).1
      exact ⟨List.takeWhile_cons_of_neg (by simp [hc]), List.dropWhile_cons_of_neg (by simp [hc])⟩
  unfold digits
  rw [List.takeWhile_append_of_pos hds, List.dropWhile_append_of_pos hds, htake.1, htake.2,
    List.append_nil]

theorem fraction_of_stops {rest : List Char} (h : Stops rest) :
    fraction rest = some ([], rest) := by
  cases rest with
  | nil => rfl
  | cons c rest =>
    have hc := (h c rfl).2.1
    unfold fraction
    split
    · rename_i heq
      cases heq
      exact absurd rfl hc
    · rfl

theorem exponent_of_stops {rest : List Char} (h : Stops rest) : exponent rest = some (0, rest) := by
  cases rest with
  | nil => rfl
  | cons c rest =>
    obtain ⟨-, -, he, hE⟩ := h c rfl
    exact if_neg (by simp [he, hE])

theorem unsigned_toDigits (negative : Bool) (n : Nat) {rest : List Char} (h : Stops rest) :
    unsigned negative (Nat.toDigits 10 n ++ rest) = some (⟨negative, n, [], 0⟩, rest) := by
  have hok : ¬ (Nat.toDigits 10 n = [] ∨
      ((Nat.toDigits 10 n).head? = some '0' ∧ 1 < (Nat.toDigits 10 n).length)) := by
    rintro (hnil | ⟨hzero, hlen⟩)
    · exact Nat.toDigits_ne_nil hnil
    · obtain rfl := head_toDigits n hzero
      exact absurd hlen (by decide)
  unfold unsigned
  simp only [digits_append (fun c => isDigit_toDigits) h, if_neg hok, fraction_of_stops h,
    exponent_of_stops h, Option.bind_eq_bind, Option.bind_some, Nat.ofDigitChars_ten_toDigits]

theorem number_toDigits (n : Nat) {rest : List Char} (h : Stops rest) :
    number (Nat.toDigits 10 n ++ rest) = some (⟨false, n, [], 0⟩, rest) := by
  have hunsigned := unsigned_toDigits false n h
  obtain ⟨c, cs, hcs⟩ := List.exists_cons_of_ne_nil (Nat.toDigits_ne_nil (n := n) (b := 10))
  have hc : c.isDigit = true := isDigit_toDigits (n := n) (by rw [hcs]; exact List.mem_cons_self ..)
  rw [hcs] at hunsigned ⊢
  unfold number
  split
  · rename_i heq
    cases heq
    cases hc
  · exact hunsigned

theorem reads_nat (n : Nat) : Reads (Nat.toDigits 10 n) (.nat n) := by
  intro fuel rest hfuel hstops
  have hnumber := number_toDigits n hstops
  obtain ⟨c, cs, hcs⟩ := List.exists_cons_of_ne_nil (Nat.toDigits_ne_nil (n := n) (b := 10))
  have hc : c.isDigit = true := isDigit_toDigits (n := n) (by rw [hcs]; exact List.mem_cons_self ..)
  -- a digit begins no other token
  have hne : ∀ d : Char, d.isDigit = false → c ≠ d := by
    rintro d hd rfl
    rw [hd] at hc
    cases hc
  cases fuel with
  | zero => cases hfuel
  | succ fuel =>
    rw [hcs] at hnumber ⊢
    have hskip : skipSpace (c :: cs ++ rest) = c :: (cs ++ rest) := by
      refine List.dropWhile_cons_of_neg ?_
      simp [isSpace, hne _ (by decide : ' '.isDigit = false),
        hne _ (by decide : '\t'.isDigit = false), hne _ (by decide : '\n'.isDigit = false),
        hne _ (by decide : '\r'.isDigit = false)]
    unfold value
    rw [hskip]
    simp only [hne _ (by decide : '"'.isDigit = false), hne _ (by decide : '['.isDigit = false),
      hne _ (by decide : '\x7b'.isDigit = false), hne _ (by decide : 'n'.isDigit = false),
      hne _ (by decide : 't'.isDigit = false), hne _ (by decide : 'f'.isDigit = false), if_false]
    rw [List.cons_append] at hnumber
    rw [hnumber]
    rfl

/-! ### Strings -/

/-- The piece is read as the character, and does not end the string. -/
structure Spells (piece : List Char) (c : Char) : Prop where
  open_ : piece.head? ≠ some '"'
  read : ∀ rest, scalar (piece ++ rest) = some (c, rest)

theorem Spells.ne_nil {piece : List Char} {c : Char} (h : Spells piece c) : piece ≠ [] := by
  rintro rfl
  cases h.read []

/-- A printable character that has no other meaning spells itself. -/
theorem spells_self {c : Char} (hquote : c ≠ '"') (hslash : c ≠ '\\') (hc : 0x20 ≤ c.toNat) :
    Spells [c] c := by
  refine ⟨by simpa using hquote, fun rest => ?_⟩
  unfold scalar
  simp only [List.cons_append, List.nil_append]
  rw [if_neg hslash, if_neg (by omega)]

theorem length_le_flatMap {f : Char → List Char} {cs : List Char} (hf : ∀ c ∈ cs, Spells (f c) c) :
    cs.length ≤ (cs.flatMap f).length := by
  induction cs with
  | nil => simp
  | cons c cs ih =>
    have hpos := List.length_pos_of_ne_nil (hf c (List.mem_cons_self ..)).ne_nil
    have htail := ih fun d hd => hf d (List.mem_cons_of_mem _ hd)
    rw [List.flatMap_cons, List.length_append, List.length_cons]
    omega

theorem stringBody_spells {f : Char → List Char} {cs : List Char} (hf : ∀ c ∈ cs, Spells (f c) c)
    {fuel : Nat} (hfuel : cs.length < fuel) (rest : List Char) :
    stringBody fuel (cs.flatMap f ++ '"' :: rest) = some (cs, rest) := by
  induction cs generalizing fuel with
  | nil =>
    cases fuel with
    | zero => cases hfuel
    | succ fuel => rfl
  | cons c cs ih =>
    cases fuel with
    | zero => cases hfuel
    | succ fuel =>
      have hc := hf c (List.mem_cons_self ..)
      have htail := ih (fun d hd => hf d (List.mem_cons_of_mem _ hd)) (Nat.lt_of_succ_lt_succ hfuel)
      have hhead : ((c :: cs).flatMap f ++ '"' :: rest).head? ≠ some '"' := by
        rw [List.flatMap_cons, List.append_assoc, List.head?_append_of_ne_nil _ hc.ne_nil]
        exact hc.open_
      unfold stringBody
      rw [if_neg hhead, List.flatMap_cons, List.append_assoc, hc.read]
      simp only [Option.bind_eq_bind, Option.bind_some, htail]

theorem string_spells {f : Char → List Char} {text : String}
    (hf : ∀ c ∈ text.toList, Spells (f c) c)
    (rest : List Char) : string (text.toList.flatMap f ++ '"' :: rest) = some (text, rest) := by
  unfold string
  rw [stringBody_spells hf]
  · simp
  · have hle := length_le_flatMap hf
    rw [List.length_append]
    omega

/-- A string in quotes, each character of which is spelt by `f`. -/
def quoted (f : Char → List Char) (text : String) : List Char :=
  '"' :: (text.toList.flatMap f ++ ['"'])

theorem reads_string {f : Char → List Char} {text : String}
    (hf : ∀ c ∈ text.toList, Spells (f c) c) : Reads (quoted f text) (.string text) := by
  intro fuel rest hfuel _
  cases fuel with
  | zero => cases hfuel
  | succ fuel =>
    have hstring := string_spells hf rest
    have hskip : skipSpace (quoted f text ++ rest) =
        '"' :: (text.toList.flatMap f ++ '"' :: rest) := by
      simp [quoted, skipSpace, isSpace]
    unfold value
    rw [hskip]
    simp [hstring]

/-! ### Objects -/

/-- A key in quotes, and the text of its value. -/
def memberText (member : String × List Char) : List Char :=
  '"' :: (member.1.toList ++ '"' :: ':' :: member.2)

def membersText : List (String × List Char) → List Char
  | [] => []
  | [member] => memberText member
  | member :: rest => memberText member ++ ',' :: membersText rest

def objectText (members : List (String × List Char)) : List Char :=
  '\x7b' :: (membersText members ++ ['\x7d'])

/-- The key spells itself. -/
def PlainKey (key : String) : Prop := ∀ c ∈ key.toList, c ≠ '"' ∧ c ≠ '\\' ∧ 0x20 ≤ c.toNat

instance plainKeyDecidable (key : String) : Decidable (PlainKey key) :=
  decidable_of_iff (key.toList.all fun c => c ≠ '"' ∧ c ≠ '\\' ∧ 0x20 ≤ c.toNat)
    (by simp [PlainKey])

theorem string_plain {key : String} (h : PlainKey key) (rest : List Char) :
    string (key.toList ++ '"' :: rest) = some (key, rest) := by
  have hself : ∀ c ∈ key.toList, Spells [c] c := fun c hc =>
    spells_self (h c hc).1 (h c hc).2.1 (h c hc).2.2
  have hspells := string_spells hself rest
  rwa [List.flatMap_singleton'] at hspells

theorem length_memberText (key : String) (text : List Char) :
    (memberText (key, text)).length = key.toList.length + text.length + 3 := by
  simp only [memberText, List.length_cons, List.length_append]
  omega

theorem stops_cons {c : Char} (h : c.isDigit = false ∧ c ≠ '.' ∧ c ≠ 'e' ∧ c ≠ 'E')
    (rest : List Char) : Stops (c :: rest) := by
  rintro d ⟨⟩
  exact h

/-- A member, and what the decoder goes on with. -/
theorem members_member {key : String} {text : List Char} {v : Value} (hkey : PlainKey key)
    (hreads : Reads text v)
    {fuel : Nat} (hfuel : text.length < fuel) {c : Char} (hc : c = ',' ∨ c = '\x7d')
    (rest : List Char) : members (fuel + 1) (memberText (key, text) ++ c :: rest) =
      if c = ',' then (members fuel rest).map fun r => ((key, v) :: r.1, r.2)
      else some ([(key, v)], rest) := by
  have hstops : Stops (c :: rest) := by
    rcases hc with rfl | rfl <;> exact stops_cons (by decide) rest
  have hspace : isSpace c = false := by rcases hc with rfl | rfl <;> decide
  have hskip : skipSpace (memberText (key, text) ++ c :: rest) =
      '"' :: (key.toList ++ '"' :: (':' :: (text ++ c :: rest))) := by
    simp [memberText, skipSpace, isSpace]
  have hcolon : skipSpace (':' :: (text ++ c :: rest)) = ':' :: (text ++ c :: rest) := rfl
  have hend : skipSpace (c :: rest) = c :: rest := List.dropWhile_cons_of_neg (by simp [hspace])
  conv_lhs => unfold members
  rw [hskip]
  simp only [string_plain hkey, Option.bind_eq_bind, Option.bind_some, hcolon,
    hreads fuel _ hfuel hstops, hend]
  rcases hc with rfl | rfl
  · simp only [if_true]
    cases members fuel rest <;> rfl
  · rfl

/-- The members of an object: keys that spell themselves, and texts that read as their values. -/
def Members (entries : List (String × List Char × Value)) : Prop :=
  ∀ entry ∈ entries, PlainKey entry.1 ∧ Reads entry.2.1 entry.2.2

def texts (entries : List (String × List Char × Value)) : List (String × List Char) :=
  entries.map fun entry => (entry.1, entry.2.1)

def values (entries : List (String × List Char × Value)) : List (String × Value) :=
  entries.map fun entry => (entry.1, entry.2.2)

theorem members_reads {entries : List (String × List Char × Value)} (h : Members entries)
    (hne : entries ≠ [])
    {fuel : Nat} (hfuel : (membersText (texts entries)).length < fuel) (rest : List Char) :
    members fuel (membersText (texts entries) ++ '\x7d' :: rest) = some (values entries, rest) := by
  induction entries generalizing fuel with
  | nil => exact absurd rfl hne
  | cons entry entries ih =>
    obtain ⟨key, text, v⟩ := entry
    obtain ⟨hkey, hreads⟩ : PlainKey key ∧ Reads text v := h _ (List.mem_cons_self ..)
    cases fuel with
    | zero => cases hfuel
    | succ fuel =>
      cases entries with
      | nil =>
        have hlen := length_memberText key text
        change (memberText (key, text)).length < fuel + 1 at hfuel
        exact members_member hkey hreads (by omega) (.inr rfl) rest
      | cons next entries =>
        have hlen := length_memberText key text
        have htext : membersText (texts ((key, text, v) :: next :: entries)) =
            memberText (key, text) ++ ',' :: membersText (texts (next :: entries)) := rfl
        rw [htext, List.length_append, List.length_cons] at hfuel
        have htail := ih (fun e he => h e (List.mem_cons_of_mem _ he)) (List.cons_ne_nil _ _)
          (show (membersText (texts (next :: entries))).length < fuel by omega)
        rw [htext, List.append_assoc, List.cons_append,
          members_member hkey hreads (by omega) (.inl rfl), htail]
        rfl

theorem reads_object {entries : List (String × List Char × Value)} (h : Members entries) :
    Reads (objectText (texts entries)) (.object (values entries)) := by
  intro fuel rest hfuel _
  cases fuel with
  | zero => cases hfuel
  | succ fuel =>
    have hskip : skipSpace (objectText (texts entries) ++ rest) =
        '\x7b' :: (membersText (texts entries) ++ '\x7d' :: rest) := by
      simp [objectText, skipSpace, isSpace]
    unfold value
    rw [hskip]
    by_cases hne : entries = []
    · subst hne
      rfl
    · have hlen : (membersText (texts entries)).length < fuel := by
        simp only [objectText, List.length_cons, List.length_append] at hfuel
        omega
      have hmembers := members_reads h hne hlen rest
      have hhead : (skipSpace (membersText (texts entries) ++ '\x7d' :: rest)).head? =
          some '"' := by
        obtain ⟨entry, entries, rfl⟩ := List.exists_cons_of_ne_nil hne
        cases entries <;> rfl
      simp only [hhead, hmembers]
      rfl

/-! ## Records -/

/-- A member of an object with its text. -/
abbrev Entry : Type := String × List Char × Value

def natEntry (key : String) (n : Nat) : Entry := (key, Nat.toDigits 10 n, .nat n)

/-- The value of a key that stands in the object once. -/
def member? (members : List (String × Value)) (key : String) : Option Value :=
  match members.filter (·.1 == key) with
  | [member] => some member.2
  | _ => none

/-- The members of an object are known, and no two have one key. -/
def known (keys : List String) (members : List (String × Value)) : Option Unit :=
  guard (members.all fun member => keys.contains member.1 && (member? members member.1).isSome)

/-- An unsigned integer of the given width. -/
def uint? (width : Nat) : Value → Option Nat
  | .number ⟨false, n, [], 0⟩ => if n < 2 ^ width then some n else none
  | _ => none

def text? : Value → Option String
  | .string text => some text
  | _ => none

theorem uint_nat {width n : Nat} (h : n < 2 ^ width) : uint? width (.nat n) = some n := if_pos h

end Lib.JsonDecode
