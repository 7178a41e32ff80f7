import Neoth.Lib.Encoding

/-!
# Text by its characters

A string is a list of characters with a size in bytes; indices of the Rust library that fall on
character boundaries are prefixes here:

* `takeBytes`: the longest prefix that fits into a number of bytes (`prefix_takeBytes_iff`);
* `hardSlice`: a text cut into such prefixes, which lose nothing (`flatten_hardSlice`);
* `trimText`: `str::trim`, which keeps what neither begins nor ends with white space
  (`infix_trimText`);
* `lines`, `splitPairs`: `str::lines`, and `str::split` at a doubled character;
* `splitWhitespace`: `str::split_whitespace`.
-/

open Lib.Encoding

namespace Lib.Text

/-- The number of bytes of a text. -/
def bytes (cs : List Char) : Nat := (cs.map Char.utf8Size).sum

@[simp] theorem bytes_nil : bytes [] = 0 := rfl

@[simp] theorem bytes_cons (c : Char) (cs : List Char) :
    bytes (c :: cs) = c.utf8Size + bytes cs := by
  simp [bytes]

@[simp] theorem bytes_append (cs ds : List Char) : bytes (cs ++ ds) = bytes cs + bytes ds := by
  simp [bytes]

theorem bytes_le_of_initial {cs ds : List Char} (h : cs <+: ds) : bytes cs ≤ bytes ds := by
  obtain ⟨rest, rfl⟩ := h
  simp

theorem utf8Size_pos (c : Char) : 0 < c.utf8Size := Char.utf8Size_pos c

theorem byteLen_eq_bytes (s : String) : byteLen s = bytes s.toList := by
  unfold byteLen utf8 bytes
  rw [List.length_flatMap]
  congr 1
  exact List.map_congr_left fun c _ => String.length_utf8EncodeChar c

theorem byteLen_ofList (cs : List Char) : byteLen (String.ofList cs) = bytes cs := by
  rw [byteLen_eq_bytes, String.toList_ofList]

/-- A literal unfolds to `String.ofList`, so its characters are met without decoding its bytes. -/
theorem not_mem_ofList {c : Char} (cs : List Char) (h : cs.all (· != c) = true) :
    c ∉ (String.ofList cs).toList := by
  rw [String.toList_ofList]
  intro hc
  simpa using List.all_eq_true.mp h c hc

theorem length_le_bytes (cs : List Char) : cs.length ≤ bytes cs := by
  induction cs with
  | nil => simp
  | cons c cs ih =>
    have hpos := utf8Size_pos c
    simp only [List.length_cons, bytes_cons]
    omega

theorem bytes_toDigits_le {n k : Nat} (hk : k ≠ 0) (h : n < 10 ^ k) :
    bytes (Nat.toDigits 10 n) ≤ k := by
  have hdigits : ∀ cs : List Char, (∀ c ∈ cs, c.isDigit = true) → bytes cs = cs.length := by
    intro cs hcs
    induction cs with
    | nil => rfl
    | cons c cs ih =>
      obtain ⟨hdigit, hrest⟩ := List.forall_mem_cons.mp hcs
      have hle : c.val ≤ 0x7f := by
        simp only [Char.isDigit, Bool.and_eq_true, decide_eq_true_eq] at hdigit
        exact UInt32.le_trans hdigit.2 (by decide)
      have hsize : c.utf8Size = 1 := by simp [Char.utf8Size, hle]
      rw [bytes_cons, ih hrest, List.length_cons, hsize, Nat.add_comm]
  rw [hdigits _ fun c hc => Nat.isDigit_of_mem_toDigits (by decide) (by decide) hc]
  exact (Nat.length_toDigits_le_iff (by decide) (Nat.pos_of_ne_zero hk)).mpr h

/-! ## Prefixes of bounded size -/

/-- `&s[..end]`, where `end` is the largest character boundary up to `cap`. -/
def takeBytes (cap : Nat) : List Char → List Char
  | [] => []
  | c :: cs => if c.utf8Size ≤ cap then c :: takeBytes (cap - c.utf8Size) cs else []

theorem takeBytes_initial (cap : Nat) (cs : List Char) : takeBytes cap cs <+: cs := by
  induction cs generalizing cap with
  | nil => exact List.prefix_rfl
  | cons c cs ih =>
    unfold takeBytes
    split
    · exact List.cons_prefix_cons.mpr ⟨rfl, ih _⟩
    · exact List.nil_prefix

theorem bytes_takeBytes_le (cap : Nat) (cs : List Char) : bytes (takeBytes cap cs) ≤ cap := by
  induction cs generalizing cap with
  | nil => simp [takeBytes]
  | cons c cs ih =>
    unfold takeBytes
    split
    · rename_i hfits
      have htail := ih (cap - c.utf8Size)
      rw [bytes_cons]
      omega
    · simp

/-- The prefixes that fit are those of the longest. -/
theorem prefix_takeBytes_iff {cap : Nat} {ds cs : List Char} :
    ds <+: takeBytes cap cs ↔ ds <+: cs ∧ bytes ds ≤ cap := by
  constructor
  · intro h
    exact ⟨h.trans (takeBytes_initial cap cs),
      (bytes_le_of_initial h).trans (bytes_takeBytes_le cap cs)⟩
  · rintro ⟨hinit, hfits⟩
    induction cs generalizing cap ds with
    | nil => exact hinit
    | cons c cs ih =>
      cases ds with
      | nil => exact List.nil_prefix
      | cons d ds =>
        obtain ⟨rfl, htail⟩ := List.cons_prefix_cons.mp hinit
        rw [bytes_cons] at hfits
        rw [takeBytes, if_pos (by omega)]
        exact List.cons_prefix_cons.mpr ⟨rfl, ih htail (by omega)⟩

theorem takeBytes_eq_self_iff {cap : Nat} {cs : List Char} : takeBytes cap cs = cs ↔
    bytes cs ≤ cap := by
  constructor
  · intro h
    rw [← h]
    exact bytes_takeBytes_le cap cs
  · intro h
    exact (takeBytes_initial cap cs).eq_of_length_le
      (prefix_takeBytes_iff.mpr ⟨List.prefix_rfl, h⟩).length_le

/-- A cap of four bytes leaves room for any character. -/
theorem takeBytes_ne_nil {cap : Nat} (hcap : 4 ≤ cap) {cs : List Char} (hcs : cs ≠ []) :
    takeBytes cap cs ≠ [] := by
  obtain ⟨c, cs, rfl⟩ := List.exists_cons_of_ne_nil hcs
  rw [takeBytes, if_pos ((Char.utf8Size_le_four c).trans hcap)]
  exact List.cons_ne_nil _ _

/-! ## Slices -/

/-- The text in slices of at most `cap` bytes; the loop ends at a character that does not fit. -/
def hardSlice (cap : Nat) (cs : List Char) : List (List Char) :=
  if cs = [] then []
  else
    let slice := takeBytes cap cs
    if slice = [] then [slice] else slice :: hardSlice cap (cs.drop slice.length)
termination_by cs.length
decreasing_by
  rename_i hcs hslice
  have hpos : 0 < (takeBytes cap cs).length := List.length_pos_of_ne_nil hslice
  have hlen : 0 < cs.length := List.length_pos_of_ne_nil hcs
  rw [List.length_drop]
  omega

theorem mem_hardSlice {cap : Nat} {cs slice : List Char} (h : slice ∈ hardSlice cap cs) :
    bytes slice ≤ cap := by
  induction cs using hardSlice.induct cap with
  | case1 => simp [hardSlice] at h
  | case2 cs hcs s hs =>
    rw [hardSlice, if_neg hcs, if_pos hs, List.mem_singleton] at h
    exact h ▸ bytes_takeBytes_le cap cs
  | case3 cs hcs s hs ih =>
    rw [hardSlice, if_neg hcs, if_neg hs] at h
    rcases List.mem_cons.mp h with rfl | h
    · exact bytes_takeBytes_le cap cs
    · exact ih h

theorem flatten_hardSlice {cap : Nat} (hcap : 4 ≤ cap) (cs : List Char) :
    (hardSlice cap cs).flatten = cs := by
  induction cs using hardSlice.induct cap with
  | case1 => simp [hardSlice]
  | case2 cs hcs s hs => exact absurd hs (takeBytes_ne_nil hcap hcs)
  | case3 cs hcs s hs ih =>
    rw [hardSlice, if_neg hcs, if_neg hs, List.flatten_cons, ih]
    exact (List.prefix_append_drop (takeBytes_initial cap cs)).symm

/-! ## White space -/

/-- `str::trim_start`. -/
def trimStart (cs : List Char) : List Char := cs.dropWhile isWhitespace

/-- `str::trim_end`. -/
def trimEnd (cs : List Char) : List Char := cs.rdropWhile isWhitespace

/-- `s.trim().is_empty()`. -/
def isBlank (cs : List Char) : Bool := (trimEnd (trimStart cs)).isEmpty

/-- `str::split_whitespace`. -/
def splitWhitespace (cs : List Char) : List (List Char) :=
  (cs.splitOnP isWhitespace).filter (· ≠ [])

/-- `str::trim`. -/
def trimText (cs : List Char) : List Char := trimEnd (trimStart cs)

theorem trimText_isInfix_self (cs : List Char) : trimText cs <:+: cs :=
  (List.rdropWhile_prefix _ _).isInfix.trans (List.dropWhile_suffix _).isInfix

theorem trimText_eq_self {cs : List Char} (hfirst : ∀ c ∈ cs.head?, isWhitespace c = false)
    (hlast : ∀ c ∈ cs.getLast?, isWhitespace c = false) : trimText cs = cs := by
  have hstart : trimStart cs = cs := by
    cases cs with
    | nil => rfl
    | cons c cs => exact List.dropWhile_cons_of_neg (by simpa using hfirst c rfl)
  rw [trimText, hstart]
  exact List.rdropWhile_eq_self_iff.mpr fun hne => by
    simpa using hlast _ (List.getLast?_eq_some_getLast hne)

theorem head_trimText {cs : List Char} : ∀ c ∈ (trimText cs).head?, isWhitespace c = false := by
  intro c hc
  obtain ⟨rest, hrest⟩ : trimText cs <+: trimStart cs := List.rdropWhile_prefix _ _
  have hhead : (trimStart cs).head? = some c := by
    rw [← hrest, List.head?_append, hc, Option.some_or]
  have hnot := List.head?_dropWhile_not isWhitespace cs
  rw [← trimStart, hhead] at hnot
  simpa using hnot

theorem getLast_trimText {cs : List Char} : ∀ c ∈ (trimText cs).getLast?,
    isWhitespace c = false := by
  intro c hc
  have hnot := List.head?_dropWhile_not isWhitespace (trimStart cs).reverse
  rw [trimText, trimEnd, List.rdropWhile, List.getLast?_reverse] at hc
  rw [hc] at hnot
  simpa using hnot

theorem trimText_idem (cs : List Char) : trimText (trimText cs) = trimText cs :=
  trimText_eq_self head_trimText getLast_trimText

theorem infix_dropWhile {p : Char → Bool} {o cs : List Char} (hfirst : ∀ c ∈ o.head?, p c = false)
    (h : o <:+: cs) : o <:+: cs.dropWhile p := by
  induction cs with
  | nil => exact h
  | cons d cs ih =>
    rw [List.dropWhile_cons]
    split
    · rename_i hd
      rcases List.infix_cons_iff.mp h with hstarts | hin
      · cases o with
        | nil => exact List.nil_infix
        | cons c o =>
          obtain rfl := (List.cons_prefix_cons.mp hstarts).1
          simp [hfirst c rfl] at hd
      · exact ih hin
    · exact h

/-- What neither begins nor ends with white space is not trimmed. -/
theorem infix_trimText {o cs : List Char} {a b : Char} (hfirst : o.head? = some a)
    (hlast : o.getLast? = some b)
    (ha : isWhitespace a = false) (hb : isWhitespace b = false) (h : o <:+: cs) :
      o <:+: trimText cs := by
  have hstart : o <:+: trimStart cs := infix_dropWhile (by simpa [hfirst] using ha) h
  have hrev : o.reverse <:+: (trimStart cs).reverse := List.reverse_infix.mpr hstart
  have hend := @infix_dropWhile isWhitespace _ _ (by simpa [hlast] using hb) hrev
  rw [← List.reverse_infix] at hend
  simpa [trimText, trimEnd, List.rdropWhile] using hend

/-! ## Lines and paragraphs -/

/-- `str::lines`: a line loses its end, `\n` or `\r\n`; a last line that is empty is none. -/
def lines (cs : List Char) : List (List Char) :=
  let parts := cs.splitOnP (· == '\n')
  let ended := parts.dropLast.map fun part => if part.getLast? = some '\r' then part.dropLast
    else part
  match parts.getLast? with
  | some [] | none => ended
  | some last => ended ++ [last]

example : lines "a\r\n\nb\r".toList = ["a".toList, [], "b\r".toList] := by decide

/-- `str::split` at a doubled character, from the characters `part` on. -/
def splitPairsFrom (c : Char) (part : List Char) : List Char → List (List Char)
  | [] => [part]
  | [a] => [part ++ [a]]
  | a :: b :: rest =>
    if a = c ∧ b = c then part :: splitPairsFrom c [] rest
    else splitPairsFrom c (part ++ [a]) (b :: rest)

def splitPairs (c : Char) (cs : List Char) : List (List Char) := splitPairsFrom c [] cs

example : splitPairs '\n' "a\n\n\nb\n\n".toList = ["a".toList, "\nb".toList, []] := by decide

end Lib.Text
