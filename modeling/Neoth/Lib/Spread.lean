import Neoth.Lib.Text

/-!
# Texts spread over pieces

A text is spread over pieces if it is these pieces in order, with nothing but white space between
them. This is what is left of a text that was cut, trimmed and joined again.

* `isBlank_iff`, `trimEnd_blank`: trimming takes away white space and nothing else;
* `Spread`: `Spread.append`, `Spread.flatten`, `Spread.trimEnd`;
* `intercalate_splitPairs`: paragraphs, and the text that they come from.
-/

open Lib.Encoding

namespace Lib.Text

/-! ## Blank texts -/

theorem isBlank_iff {cs : List Char} : isBlank cs = true ↔ ∀ c ∈ cs, isWhitespace c = true := by
  unfold isBlank trimEnd trimStart
  rw [List.isEmpty_iff, List.rdropWhile_eq_nil_iff]
  constructor
  · intro h
    have hnil : cs.dropWhile isWhitespace = [] := by
      by_contra hne
      obtain ⟨c, rest, hrest⟩ := List.exists_cons_of_ne_nil hne
      have hnot := List.head?_dropWhile_not isWhitespace cs
      rw [hrest] at hnot
      simp [h c (by rw [hrest]; exact List.mem_cons_self)] at hnot
    exact List.dropWhile_eq_nil_iff.mp hnil
  · intro h c hc
    exact h c ((List.dropWhile_suffix _).subset hc)

@[simp] theorem isBlank_nil : isBlank [] = true := rfl

theorem isBlank_append {cs ds : List Char} : isBlank (cs ++ ds) = true ↔
    isBlank cs = true ∧ isBlank ds = true := by
  simp only [isBlank_iff, List.forall_mem_append]

theorem isBlank_false_of_within {cs ds : List Char} (h : cs <:+: ds) (hcs : isBlank cs = false) :
    isBlank ds = false := by
  rw [← Bool.not_eq_true] at hcs ⊢
  exact fun hds => hcs (isBlank_iff.mpr fun c hc => isBlank_iff.mp hds c (h.subset hc))

/-- What is trimmed is blank. -/
theorem trimEnd_blank (cs : List Char) : ∃ gap, cs = trimEnd cs ++ gap ∧ isBlank gap = true := by
  refine ⟨cs.rtakeWhile isWhitespace, List.rdropWhile_append_rtakeWhile.symm, ?_⟩
  exact isBlank_iff.mpr fun c hc => List.mem_rtakeWhile_imp hc

theorem bytes_trimEnd_le (cs : List Char) : bytes (trimEnd cs) ≤ bytes cs :=
  bytes_le_of_initial (List.rdropWhile_prefix _ _)

theorem getLast_trimEnd {cs : List Char} : ∀ c ∈ (trimEnd cs).getLast?, isWhitespace c = false := by
  intro c hc
  have hnot := List.head?_dropWhile_not isWhitespace cs.reverse
  rw [trimEnd, List.rdropWhile, List.getLast?_reverse] at hc
  rw [hc] at hnot
  simpa using hnot

/-- What is within a text is within the trimmed one, once it is trimmed itself. -/
theorem trimEnd_infix {cs ds : List Char} (h : cs <:+: ds) : trimEnd cs <:+: trimEnd ds := by
  have hwithin : trimEnd cs <:+: ds := (List.rdropWhile_prefix _ _).isInfix.trans h
  have hrev : (trimEnd cs).reverse <:+: ds.reverse := List.reverse_infix.mpr hwithin
  have hend :=
    @infix_dropWhile isWhitespace _ _ (by rw [List.head?_reverse]; exact getLast_trimEnd) hrev
  rw [← List.reverse_infix] at hend
  simpa only [trimEnd, List.rdropWhile, List.reverse_reverse] using hend

/-! ## Pieces -/

/-- The text is the pieces in order, with white space between them. -/
inductive Spread : List Char → List (List Char) → Prop
  | blank {gap : List Char} (hgap : isBlank gap = true) : Spread gap []
  | piece {gap rest : List Char} {pieces : List (List Char)} (hgap : isBlank gap = true)
    (piece : List Char)
      (hrest : Spread rest pieces) : Spread (gap ++ piece ++ rest) (piece :: pieces)

namespace Spread

variable {cs ds gap : List Char} {pieces pieces' : List (List Char)}

theorem lead (hgap : isBlank gap = true) (h : Spread cs pieces) : Spread (gap ++ cs) pieces := by
  cases h with
  | blank hcs => exact .blank (isBlank_append.mpr ⟨hgap, hcs⟩)
  | piece hcs piece hrest =>
    rw [← List.append_assoc, ← List.append_assoc]
    exact .piece (isBlank_append.mpr ⟨hgap, hcs⟩) piece hrest

theorem append (h : Spread cs pieces) (h' : Spread ds pieces') :
    Spread (cs ++ ds) (pieces ++ pieces') := by
  induction h with
  | blank hgap => exact h'.lead hgap
  | piece hgap piece _ ih =>
    rw [List.append_assoc]
    exact .piece hgap piece ih

theorem trimEnd (cs : List Char) : Spread cs [trimEnd cs] := by
  obtain ⟨gap, hcs, hgap⟩ := trimEnd_blank cs
  have h := Spread.piece isBlank_nil (Text.trimEnd cs) (.blank hgap)
  rwa [List.nil_append, ← hcs] at h

theorem flatten (pieces : List (List Char)) : Spread pieces.flatten pieces := by
  induction pieces with
  | nil => exact .blank isBlank_nil
  | cons piece pieces ih => exact .piece isBlank_nil piece ih

end Spread

/-! ## Paragraphs -/

theorem splitPairsFrom_ne_nil (c : Char) (part cs : List Char) : splitPairsFrom c part cs ≠ [] := by
  induction part, cs using splitPairsFrom.induct c with
  | case1 part => simp [splitPairsFrom]
  | case2 part a => simp [splitPairsFrom]
  | case3 part a b rest h ih => simp [splitPairsFrom, h]
  | case4 part a b rest h ih =>
    rw [splitPairsFrom, if_neg h]
    exact ih

theorem intercalate_splitPairsFrom (c : Char) (part cs : List Char) :
    [c, c].intercalate (splitPairsFrom c part cs) = part ++ cs := by
  induction part, cs using splitPairsFrom.induct c with
  | case1 part => simp [splitPairsFrom]
  | case2 part a => simp [splitPairsFrom]
  | case3 part a b rest h ih =>
    obtain ⟨rfl, rfl⟩ := h
    rw [splitPairsFrom, if_pos ⟨rfl, rfl⟩,
      List.intercalate_cons_of_ne_nil (splitPairsFrom_ne_nil _ _ _), ih]
    simp
  | case4 part a b rest h ih =>
    rw [splitPairsFrom, if_neg h, ih]
    simp

theorem intercalate_splitPairs (c : Char) (cs : List Char) :
    [c, c].intercalate (splitPairs c cs) = cs :=
  intercalate_splitPairsFrom c [] cs

theorem intercalate_cons_eq_flatMap {A : Type} (sep first : List A) (rest : List (List A)) :
    sep.intercalate (first :: rest) = first ++ rest.flatMap (sep ++ ·) := by
  induction rest generalizing first with
  | nil => simp
  | cons second rest ih => simp [List.intercalate_cons_cons, ih]

theorem infix_intercalate {A : Type} {sep x : List A} {xs : List (List A)} (h : x ∈ xs) :
    x <:+: sep.intercalate xs := by
  induction xs with
  | nil => cases h
  | cons first rest ih =>
    rcases eq_or_ne rest [] with rfl | hne
    · rw [List.mem_singleton.mp h, List.intercalate_singleton]
    · rw [List.intercalate_cons_of_ne_nil hne]
      rcases List.mem_cons.mp h with rfl | h
      · exact ((List.prefix_append _ _).trans (List.prefix_append _ _)).isInfix
      · exact (ih h).trans (List.suffix_append _ _).isInfix

theorem infix_of_mem_splitPairs {c : Char} {part cs : List Char} (h : part ∈ splitPairs c cs) :
    part <:+: cs := by
  have hwithin := @infix_intercalate _ [c, c] _ _ h
  rwa [intercalate_splitPairs] at hwithin

end Lib.Text
