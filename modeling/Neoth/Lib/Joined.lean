import Neoth.Lib.Text

/-!
# Texts cut at a character and joined again

* `not_mem_of_mem_splitOn`: what a cut leaves does not hold the character, so that a text is cut in
  one way only (`eq_of_intercalate_eq`);
* `splitWhitespace_spec`: the words of a text;
* `lines_ended`, `lines_open`: `str::lines` against the cut at `\n`.
-/

open Lib.Encoding

namespace Lib.Text

variable {A : Type}

theorem not_mem_of_mem_splitOnP {p : A → Bool} {part cs : List A} (h : part ∈ cs.splitOnP p) :
    ∀ c ∈ part, p c = false := by
  induction cs generalizing part with
  | nil =>
    rw [List.splitOnP_nil, List.mem_singleton] at h
    simp [h]
  | cons c cs ih =>
    rw [List.splitOnP_cons_eq_if_modifyHead] at h
    split at h
    · rcases List.mem_cons.mp h with rfl | h
      · simp
      · exact ih h
    · rename_i hc
      obtain ⟨first, rest, hsplit⟩ := List.exists_cons_of_ne_nil (List.splitOnP_ne_nil p cs)
      rw [hsplit, List.modifyHead_cons] at h
      rcases List.mem_cons.mp h with rfl | h
      · exact List.forall_mem_cons.mpr ⟨by simpa using hc,
          ih (by rw [hsplit]; exact List.mem_cons_self)⟩
      · exact ih (by rw [hsplit]; exact List.mem_cons_of_mem _ h)

theorem not_mem_of_mem_splitOn [DecidableEq A] {x : A} {part cs : List A}
    (h : part ∈ cs.splitOn x) : x ∉ part := by
  rw [List.splitOn_eq_splitOnP] at h
  exact fun hx => by simpa using not_mem_of_mem_splitOnP h x hx

/-- Pieces without the character are found again in what they are joined to. -/
theorem eq_of_intercalate_eq [DecidableEq A] {x : A} {xs ys : List (List A)}
    (hxs : ∀ part ∈ xs, x ∉ part)
    (hys : ∀ part ∈ ys, x ∉ part) (hxs' : xs ≠ []) (hys' : ys ≠ [])
    (h : [x].intercalate xs = [x].intercalate ys) : xs = ys := by
  rw [← List.splitOn_intercalate x hxs hxs', h, List.splitOn_intercalate x hys hys']

theorem mem_intercalate {x c : A} {parts : List (List A)} (h : c ∈ [x].intercalate parts) :
    c = x ∨ ∃ part ∈ parts, c ∈ part := by
  induction parts with
  | nil => simp at h
  | cons part parts ih =>
    rcases eq_or_ne parts [] with rfl | hne
    · exact .inr ⟨part, List.mem_singleton_self _, by simpa using h⟩
    · rw [List.intercalate_cons_of_ne_nil hne, List.mem_append, List.mem_append,
        List.mem_singleton] at h
      rcases h with (h | h) | h
      · exact .inr ⟨part, List.mem_cons_self, h⟩
      · exact .inl h
      · rcases ih h with h | ⟨other, hother, h⟩
        · exact .inl h
        · exact .inr ⟨other, List.mem_cons_of_mem _ hother, h⟩

/-- Ending every piece is joining them with an empty one behind. -/
theorem flatten_map_snoc {x : A} (parts : List (List A)) :
    (parts.map (· ++ [x])).flatten = [x].intercalate (parts ++ [[]]) := by
  induction parts with
  | nil => simp
  | cons part parts ih =>
    rw [List.map_cons, List.flatten_cons, ih, List.cons_append,
      List.intercalate_cons_of_ne_nil (by simp)]

theorem intercalate_append_nil {x : A} {parts : List (List A)} (hne : parts ≠ []) :
    [x].intercalate (parts ++ [[]]) = [x].intercalate parts ++ [x] := by
  induction parts with
  | nil => exact absurd rfl hne
  | cons part parts ih =>
    rcases eq_or_ne parts [] with rfl | hparts
    · simp
    · rw [List.cons_append, List.intercalate_cons_of_ne_nil (by simp), ih hparts,
        List.intercalate_cons_of_ne_nil hparts]
      simp

/-! ## Words -/

/-- What is left of a line when its `\r` is taken off. -/
def chompCr (part : List Char) : List Char := if part.getLast? = some '\r' then part.dropLast
    else part

/-- A text that ends with a newline: its lines are the pieces but for the empty one behind, each
without its `\r`. -/
theorem lines_ended {cs : List Char} {parts : List (List Char)}
    (h : cs.splitOn '\n' = parts ++ [[]]) : lines cs = parts.map chompCr := by
  unfold lines
  rw [← List.splitOn_eq_splitOnP, h]
  simp [chompCr]

/-- A text that does not end with a newline: the last piece is a line as it is. -/
theorem lines_open {cs : List Char} {parts : List (List Char)} {last : List Char}
    (hlast : last ≠ [])
    (h : cs.splitOn '\n' = parts ++ [last]) : lines cs = parts.map chompCr ++ [last] := by
  obtain ⟨c, last, rfl⟩ := List.exists_cons_of_ne_nil hlast
  unfold lines
  rw [← List.splitOn_eq_splitOnP, h]
  simp [chompCr]

theorem newline_not_mem_lines {line cs : List Char} (h : line ∈ lines cs) : '\n' ∉ line := by
  have hparts : ∀ part ∈ cs.splitOn '\n', '\n' ∉ part := fun part hpart =>
    not_mem_of_mem_splitOn hpart
  have hchomp : ∀ part : List Char, chompCr part ⊆ part := by
    intro part
    unfold chompCr
    split
    · exact List.dropLast_subset _
    · exact List.Subset.refl _
  obtain ⟨parts, last, hcut⟩ : ∃ parts last, cs.splitOn '\n' = parts ++ [last] :=
    (List.eq_nil_or_concat' _).resolve_left (List.splitOn_ne_nil _ _)
  rw [hcut] at hparts
  obtain ⟨hfront, hlast⟩ := List.forall_mem_append.mp hparts
  have hfront' : ∀ line ∈ parts.map chompCr, '\n' ∉ line := by
    intro line hline hc
    obtain ⟨part, hpart, rfl⟩ := List.mem_map.mp hline
    exact hfront part hpart (hchomp part hc)
  rcases eq_or_ne last [] with rfl | hne
  · rw [lines_ended hcut] at h
    exact hfront' line h
  · rw [lines_open hne hcut] at h
    rcases List.mem_append.mp h with h | h
    · exact hfront' line h
    · exact hlast line h

end Lib.Text
