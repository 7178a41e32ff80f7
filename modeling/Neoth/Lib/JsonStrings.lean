import Neoth.Lib.JsonDecode

/-!
# The strings of a JSON text

A scanner that knows whether it stands in a string, and whether the character before was a
backslash, without parsing. It is a parameter what is written for a character outside, for the two
characters of an escape, and for any other character of a string.

* `scan_piece`: the spelling of one character, as it is met inside a string;
* `Scans`: what the scanner makes of a token, whatever follows; `scans_quoted`, `scans_member`: of
  what a writer writes;
* `rewrites_object`, `rewrites_array`: the texts a writer writes, after a pass of the scanner;
* `reads_array`: the text of an array, for the decoder.
-/

namespace Lib.JsonDecode

/-! ## Arrays -/

def elementsText : List (List Char) → List Char
  | [] => []
  | [text] => text
  | text :: rest => text ++ ',' :: elementsText rest

def arrayText (texts : List (List Char)) : List Char := '[' :: (elementsText texts ++ [']'])

/-- No value begins with a closing bracket. -/
theorem Reads.head_ne {text : List Char} {v : Value} (h : Reads text v) {rest : List Char}
    (hrest : Stops rest) : (skipSpace (text ++ rest)).head? ≠ some ']' := by
  intro hhead
  obtain ⟨tail, htail⟩ := List.head?_eq_some_iff.mp hhead
  have hvalue := h (text.length + 1) rest (Nat.lt_succ_self _) hrest
  unfold value at hvalue
  rw [htail] at hvalue
  simp [number, unsigned, digits] at hvalue

theorem elements_reads {entries : List (List Char × Value)}
    (h : ∀ entry ∈ entries, Reads entry.1 entry.2)
    (hne : entries ≠ []) {fuel : Nat} (hfuel : (elementsText (entries.map Prod.fst)).length < fuel)
    (rest : List Char) :
    elements (fuel + 1) (elementsText (entries.map Prod.fst) ++ ']' :: rest) =
      some (entries.map Prod.snd, rest) := by
  induction entries generalizing fuel with
  | nil => exact absurd rfl hne
  | cons entry entries ih =>
    have hreads := h entry (List.mem_cons_self ..)
    cases entries with
    | nil =>
      have hvalue := hreads fuel (']' :: rest) hfuel (stops_cons (by decide) rest)
      unfold elements
      simp only [List.map_cons, List.map_nil, elementsText, hvalue, Option.bind_eq_bind,
        Option.bind_some]
      rfl
    | cons next entries =>
      have htext : elementsText ((entry :: next :: entries).map Prod.fst) =
          entry.1 ++ ',' :: elementsText ((next :: entries).map Prod.fst) := rfl
      rw [htext, List.length_append, List.length_cons] at hfuel
      obtain ⟨fuel, rfl⟩ : ∃ k, fuel = k + 1 := ⟨fuel - 1, by omega⟩
      have hvalue :=
        hreads (fuel + 1) (',' :: (elementsText ((next :: entries).map Prod.fst) ++ ']' :: rest))
        (by omega) (stops_cons (by decide) _)
      have htail := ih (fun e he => h e (List.mem_cons_of_mem _ he)) (List.cons_ne_nil _ _)
        (show (elementsText ((next :: entries).map Prod.fst)).length < fuel by omega)
      have hcomma : ∀ cs, skipSpace (',' :: cs) = ',' :: cs := fun _ => rfl
      rw [htext, List.append_assoc, List.cons_append]
      conv_lhs => unfold elements
      simp only [hvalue, Option.bind_eq_bind, Option.bind_some, hcomma, htail]
      rfl

theorem reads_array {entries : List (List Char × Value)}
    (h : ∀ entry ∈ entries, Reads entry.1 entry.2) :
    Reads (arrayText (entries.map Prod.fst)) (.array (entries.map Prod.snd)) := by
  intro fuel rest hfuel _
  obtain ⟨fuel, rfl⟩ : ∃ k, fuel = k + 2 := ⟨fuel - 2, by simp [arrayText] at hfuel; omega⟩
  have hskip : skipSpace (arrayText (entries.map Prod.fst) ++ rest) =
      '[' :: (elementsText (entries.map Prod.fst) ++ ']' :: rest) := by
    simp [arrayText, skipSpace, isSpace]
  unfold value
  rw [hskip]
  by_cases hne : entries = []
  · subst hne
    rfl
  · have helements := elements_reads h hne (show _ < fuel by simp [arrayText] at hfuel; omega) rest
    have hhead : (skipSpace (elementsText (entries.map Prod.fst) ++ ']' :: rest)).head? ≠
        some ']' := by
      obtain ⟨entry, entries, rfl⟩ := List.exists_cons_of_ne_nil hne
      have hreads := h entry (List.mem_cons_self ..)
      cases entries with
      | nil => exact hreads.head_ne (stops_cons (by decide) rest)
      | cons next entries =>
        have htext : elementsText ((entry :: next :: entries).map Prod.fst) ++ ']' :: rest =
            entry.1 ++ ',' :: (elementsText ((next :: entries).map Prod.fst) ++ ']' :: rest) := by
          simp [elementsText]
        rw [htext]
        exact hreads.head_ne (stops_cons (by decide) _)
    simp only [helements, if_neg hhead]
    rfl

/-! ## The scanner -/

section
variable (outer raw push : Char → List Char)

def scanStrings : Bool → Bool → List Char → List Char
  | _, _, [] => []
  | false, _, c :: cs => outer c ++ scanStrings (c == '"') false cs
  | true, true, c :: cs => raw c ++ scanStrings true false cs
  | true, false, c :: cs =>
    if c = '\\' then raw c ++ scanStrings true true cs
    else if c = '"' then outer c ++ scanStrings false false cs
    else push c ++ scanStrings true false cs

end

/-- The spelling of one character of a string. -/
inductive Piece : List Char → Prop
  | plain {c : Char} (hquote : c ≠ '"') (hslash : c ≠ '\\') : Piece [c]
  | escape (c : Char) {tail : List Char} (h : ∀ d ∈ tail, d ≠ '"' ∧ d ≠ '\\') :
    Piece ('\\' :: c :: tail)

/-- A spelling after the scanner. -/
def scanPiece (raw push : Char → List Char) : List Char → List Char
  | [] => []
  | [c] => push c
  | c :: d :: tail => raw c ++ (raw d ++ tail.flatMap push)

section
variable {outer raw push : Char → List Char}

theorem scan_plain {cs : List Char} (h : ∀ c ∈ cs, c ≠ '"' ∧ c ≠ '\\') (rest : List Char) :
    scanStrings outer raw push true false (cs ++ rest) =
      cs.flatMap push ++ scanStrings outer raw push true false rest := by
  induction cs with
  | nil => rfl
  | cons c cs ih =>
    have hc := h c (List.mem_cons_self ..)
    rw [List.cons_append, scanStrings, if_neg hc.2, if_neg hc.1,
      ih fun d hd => h d (List.mem_cons_of_mem _ hd), List.flatMap_cons, List.append_assoc]

theorem scan_piece {piece : List Char} (h : Piece piece) (rest : List Char) :
    scanStrings outer raw push true false (piece ++ rest) =
      scanPiece raw push piece ++ scanStrings outer raw push true false rest := by
  cases h with
  | plain hquote hslash => simp [scanStrings, scanPiece, hquote, hslash]
  | escape c h =>
    simp only [List.cons_append, scanStrings, if_true, scanPiece, List.append_assoc]
    rw [scan_plain h]

theorem scan_pieces {f : Char → List Char} (hf : ∀ c, Piece (f c)) (cs rest : List Char) :
    scanStrings outer raw push true false (cs.flatMap f ++ rest) =
      cs.flatMap (fun c => scanPiece raw push (f c)) ++
        scanStrings outer raw push true false rest := by
  induction cs with
  | nil => rfl
  | cons c cs ih =>
    rw [List.flatMap_cons, List.append_assoc, scan_piece (hf c), ih, List.flatMap_cons,
      List.append_assoc]

variable (outer raw push) in
/-- Outside the strings, `text` becomes `text'`, and the scanner is outside again. -/
def Scans (text text' : List Char) : Prop :=
  ∀ rest, scanStrings outer raw push false false (text ++ rest) =
    text' ++ scanStrings outer raw push false false rest

theorem Scans.append {a a' b b' : List Char} (ha : Scans outer raw push a a')
    (hb : Scans outer raw push b b') : Scans outer raw push (a ++ b) (a' ++ b') := by
  intro rest
  rw [List.append_assoc, ha, hb, List.append_assoc]

theorem scans_outer {cs : List Char} (h : ∀ c ∈ cs, c ≠ '"') :
    Scans outer raw push cs (cs.flatMap outer) := by
  intro rest
  induction cs with
  | nil => rfl
  | cons c cs ih =>
    rw [List.cons_append, scanStrings, beq_eq_false_iff_ne.mpr (h c (List.mem_cons_self ..)),
      ih fun d hd => h d (List.mem_cons_of_mem _ hd), List.flatMap_cons, List.append_assoc]

theorem scans_quoted {f : Char → List Char} (hf : ∀ c, Piece (f c)) (text : String) :
    Scans outer raw push (quoted f text)
      (outer '"' ++ (text.toList.flatMap (fun c => scanPiece raw push (f c)) ++ outer '"')) := by
  intro rest
  have hopen : scanStrings outer raw push false false (quoted f text ++ rest) =
      outer '"' ++ scanStrings outer raw push true false
        (text.toList.flatMap f ++ ('"' :: rest)) := by
    simp [quoted, scanStrings]
  have hclose : scanStrings outer raw push true false ('"' :: rest) =
      outer '"' ++ scanStrings outer raw push false false rest := by
    simp [scanStrings]
  rw [hopen, scan_pieces hf, hclose]
  simp only [List.append_assoc]

theorem scans_member {key : String} (hkey : PlainKey key) {text text' : List Char}
    (h : Scans outer raw push text text') : Scans outer raw push (memberText (key, text))
      (outer '"' ++ (key.toList.flatMap push ++ (outer '"' ++ (outer ':' ++ text')))) := by
  intro rest
  have hplain : ∀ c ∈ key.toList, c ≠ '"' ∧ c ≠ '\\' := fun c hc => ⟨(hkey c hc).1, (hkey c hc).2.1⟩
  have hopen : scanStrings outer raw push false false (memberText (key, text) ++ rest) =
      outer '"' ++ scanStrings outer raw push true false
        (key.toList ++ ('"' :: ':' :: (text ++ rest))) := by
    simp [memberText, scanStrings]
  have hclose : scanStrings outer raw push true false ('"' :: ':' :: (text ++ rest)) =
      outer '"' ++ (outer ':' ++ scanStrings outer raw push false false (text ++ rest)) := by
    simp [scanStrings]
  rw [hopen, scan_plain hplain, hclose, h]
  simp only [List.append_assoc]

/-! ### A scanner that changes spellings -/

/-- The scanner writes what it reads, but for the other characters of strings. -/
def Rewrites (push : Char → List Char) : List Char → List Char → Prop :=
  Scans (fun c => [c]) (fun c => [c]) push

theorem rewrites_self (cs : List Char) (h : ∀ c ∈ cs, c ≠ '"') : Rewrites push cs cs := by
  have hscans := @scans_outer (fun c => [c]) (fun c => [c]) push _ h
  rwa [List.flatMap_singleton'] at hscans

theorem rewrites_quoted {f : Char → List Char} (hf : ∀ c, Piece (f c)) (text : String) :
    Rewrites push (quoted f text) (quoted (fun c => scanPiece (fun c => [c]) push (f c)) text) :=
  scans_quoted hf text

/-- A key that the scanner leaves alone. -/
def Kept (push : Char → List Char) (key : String) : Prop :=
  PlainKey key ∧ key.toList.flatMap push = key.toList

theorem rewrites_member {key : String} (hkey : Kept push key) {text text' : List Char}
    (h : Rewrites push text text') :
    Rewrites push (memberText (key, text)) (memberText (key, text')) := by
  have hscans := scans_member hkey.1 h
  rw [hkey.2] at hscans
  exact hscans

theorem rewrites_members {entries : List (String × List Char × List Char)}
    (h : ∀ e ∈ entries, Kept push e.1 ∧ Rewrites push e.2.1 e.2.2) :
    Rewrites push (membersText (entries.map fun e => (e.1, e.2.1)))
      (membersText (entries.map fun e => (e.1, e.2.2))) := by
  induction entries with
  | nil => exact rewrites_self _ (by simp [membersText])
  | cons e entries ih =>
    have hfirst := rewrites_member (h e (List.mem_cons_self ..)).1 (h e (List.mem_cons_self ..)).2
    cases entries with
    | nil => exact hfirst
    | cons next entries =>
      have hrest := ih fun x hx => h x (List.mem_cons_of_mem _ hx)
      exact hfirst.append ((rewrites_self [','] (by simp)).append hrest)

theorem rewrites_object {entries : List (String × List Char × List Char)}
    (h : ∀ e ∈ entries, Kept push e.1 ∧ Rewrites push e.2.1 e.2.2) :
    Rewrites push (objectText (entries.map fun e => (e.1, e.2.1)))
      (objectText (entries.map fun e => (e.1, e.2.2))) :=
  (rewrites_self ['\x7b'] (by simp)).append
    ((rewrites_members h).append (rewrites_self _ (by simp)))

theorem rewrites_elements {entries : List (List Char × List Char)}
    (h : ∀ e ∈ entries, Rewrites push e.1 e.2) :
    Rewrites push (elementsText (entries.map Prod.fst)) (elementsText (entries.map Prod.snd)) := by
  induction entries with
  | nil => exact rewrites_self _ (by simp [elementsText])
  | cons e entries ih =>
    have hfirst := h e (List.mem_cons_self ..)
    cases entries with
    | nil => exact hfirst
    | cons next entries =>
      have hrest := ih fun x hx => h x (List.mem_cons_of_mem _ hx)
      exact hfirst.append ((rewrites_self [','] (by simp)).append hrest)

theorem rewrites_array {entries : List (List Char × List Char)}
    (h : ∀ e ∈ entries, Rewrites push e.1 e.2) :
    Rewrites push (arrayText (entries.map Prod.fst)) (arrayText (entries.map Prod.snd)) :=
  (rewrites_self ['['] (by simp)).append ((rewrites_elements h).append (rewrites_self _ (by simp)))

/-! ### What stands in the strings -/

/-- The characters between the quotes, as they are written. -/
def insideStrings (cs : List Char) : List Char :=
  scanStrings (fun _ => []) (fun c => [c]) (fun c => [c]) false false cs

/-- A text whose strings hold only characters with `P`. -/
def StringsAll (P : Char → Prop) (text : List Char) : Prop :=
  ∃ inside, Scans (fun _ => []) (fun c => [c]) (fun c => [c]) text inside ∧ ∀ c ∈ inside, P c

variable {P : Char → Prop}

theorem StringsAll.inside {text : List Char} (h : StringsAll P text) : ∀ c ∈ insideStrings text,
    P c := by
  obtain ⟨inside, hscans, hall⟩ := h
  have heq := hscans []
  rw [List.append_nil, scanStrings, List.append_nil] at heq
  unfold insideStrings
  rwa [heq]

theorem StringsAll.append {a b : List Char} (ha : StringsAll P a) (hb : StringsAll P b) :
    StringsAll P (a ++ b) := by
  obtain ⟨insideA, hscansA, hallA⟩ := ha
  obtain ⟨insideB, hscansB, hallB⟩ := hb
  exact ⟨insideA ++ insideB, hscansA.append hscansB,
    fun c hc => (List.mem_append.mp hc).elim (hallA c) (hallB c)⟩

theorem stringsAll_outer (cs : List Char) (h : ∀ c ∈ cs, c ≠ '"') : StringsAll P cs :=
  ⟨_, scans_outer h, by simp⟩

theorem scanPiece_self (piece : List Char) :
    scanPiece (fun c => [c]) (fun c => [c]) piece = piece := by
  rcases piece with _ | ⟨c, _ | ⟨d, tail⟩⟩
  · rfl
  · rfl
  · simp [scanPiece]

theorem stringsAll_quoted {f : Char → List Char} (hf : ∀ c, Piece (f c)) (hP : ∀ c, ∀ d ∈ f c, P d)
    (text : String) : StringsAll P (quoted f text) := by
  refine ⟨_, scans_quoted hf text, fun d hd => ?_⟩
  simp only [scanPiece_self, List.nil_append, List.append_nil, List.mem_flatMap] at hd
  obtain ⟨c, -, hd⟩ := hd
  exact hP c d hd

theorem stringsAll_member {key : String} (hkey : PlainKey key) (hP : ∀ c ∈ key.toList, P c)
    {text : List Char} (h : StringsAll P text) : StringsAll P (memberText (key, text)) := by
  obtain ⟨inside, hscans, hall⟩ := h
  refine ⟨_, scans_member hkey hscans, fun c hc => ?_⟩
  simp only [List.nil_append, List.flatMap_singleton', List.mem_append] at hc
  exact hc.elim (hP c) (hall c)

/-- A key whose characters have `P`. -/
def KeyAll (P : Char → Prop) (key : String) : Prop := PlainKey key ∧ ∀ c ∈ key.toList, P c

theorem stringsAll_object {members : List (String × List Char)}
    (h : ∀ m ∈ members, KeyAll P m.1 ∧ StringsAll P m.2) : StringsAll P (objectText members) := by
  have hmembers : StringsAll P (membersText members) := by
    induction members with
    | nil => exact stringsAll_outer _ (by simp [membersText])
    | cons m members ih =>
      obtain ⟨hkey, htext⟩ := h m (List.mem_cons_self ..)
      have hfirst := stringsAll_member hkey.1 hkey.2 htext
      cases members with
      | nil => exact hfirst
      | cons next members =>
        have hrest := ih fun x hx => h x (List.mem_cons_of_mem _ hx)
        exact hfirst.append ((stringsAll_outer [','] (by simp)).append hrest)
  exact (stringsAll_outer ['\x7b'] (by simp)).append
    (hmembers.append (stringsAll_outer _ (by simp)))

theorem stringsAll_array {texts : List (List Char)} (h : ∀ t ∈ texts, StringsAll P t) :
    StringsAll P (arrayText texts) := by
  have helements : StringsAll P (elementsText texts) := by
    induction texts with
    | nil => exact stringsAll_outer _ (by simp [elementsText])
    | cons t texts ih =>
      have hfirst := h t (List.mem_cons_self ..)
      cases texts with
      | nil => exact hfirst
      | cons next texts =>
        have hrest := ih fun x hx => h x (List.mem_cons_of_mem _ hx)
        exact hfirst.append ((stringsAll_outer [','] (by simp)).append hrest)
  exact (stringsAll_outer ['['] (by simp)).append (helements.append (stringsAll_outer _ (by simp)))

end

end Lib.JsonDecode
