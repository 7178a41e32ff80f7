import Mathlib

/-!
# Lists cut at matches

A list is read from the left; where a matcher finds a match, the match is taken out and reading goes
on behind it. What is left are the parts between the matches.

* `removeFrom`, `partsFrom`: what is left, as one list and by its parts (`removeFrom_eq_flatten`);
* `not_infix_part`: no part holds a match;
* `infix_flatten_iff`: what the joined parts hold stands in a part or runs over the end of one.
-/

namespace Lib.Cuts

variable {α : Type} (len : List α → Option Nat)

/-! ## Taking matches out -/

/-- The list without its matches, where `skip` entries of a match are still passed over. -/
def removeFrom : Nat → List α → List α
  | _, [] => []
  | skip + 1, _ :: rest => removeFrom skip rest
  | 0, a :: rest =>
    match len (a :: rest) with
    | some n => removeFrom (n - 1) rest
    | none => a :: removeFrom 0 rest

/-- The parts between the matches. -/
def partsFrom : Nat → List α → List (List α)
  | _, [] => [[]]
  | skip + 1, _ :: rest => partsFrom skip rest
  | 0, a :: rest =>
    match len (a :: rest) with
    | some n => [] :: partsFrom (n - 1) rest
    | none => (partsFrom 0 rest).modifyHead (a :: ·)

theorem partsFrom_ne_nil (skip : Nat) (l : List α) : partsFrom len skip l ≠ [] := by
  induction l generalizing skip with
  | nil => cases skip <;> simp [partsFrom]
  | cons a rest ih =>
    cases skip with
    | succ skip => exact ih skip
    | zero =>
      unfold partsFrom
      split
      · exact List.cons_ne_nil _ _
      · obtain ⟨part, parts, hparts⟩ := List.exists_cons_of_ne_nil (ih 0)
        simp [hparts]

theorem removeFrom_eq_flatten (skip : Nat) (l : List α) :
    removeFrom len skip l = (partsFrom len skip l).flatten := by
  induction l generalizing skip with
  | nil => cases skip <;> rfl
  | cons a rest ih =>
    cases skip with
    | succ skip => exact ih skip
    | zero =>
      unfold removeFrom partsFrom
      split
      · rw [ih, List.flatten_cons, List.nil_append]
      · obtain ⟨part, parts, hparts⟩ := List.exists_cons_of_ne_nil (partsFrom_ne_nil len 0 rest)
        rw [ih, hparts, List.modifyHead_cons, List.flatten_cons, List.flatten_cons,
          List.cons_append]

theorem removeFrom_sublist (skip : Nat) (l : List α) : (removeFrom len skip l).Sublist l := by
  induction l generalizing skip with
  | nil => cases skip <;> exact List.Sublist.refl _
  | cons a rest ih =>
    cases skip with
    | succ skip => exact (ih skip).cons a
    | zero =>
      unfold removeFrom
      split
      · exact (ih _).cons a
      · exact (ih 0).cons_cons a

theorem removeFrom_eq_self {l : List α} (h : ∀ rest, rest <:+ l → rest ≠ [] → len rest = none) :
    removeFrom len 0 l = l := by
  induction l with
  | nil => rfl
  | cons a rest ih =>
    rw [removeFrom, h _ List.suffix_rfl (List.cons_ne_nil _ _),
      ih fun rest' hrest => h rest' (hrest.trans (List.suffix_cons a rest))]

/-- The first part begins where reading does. -/
theorem head_partsFrom (l : List α) : ∃ part parts, partsFrom len 0 l = part :: parts ∧
    part <+: l := by
  induction l with
  | nil => exact ⟨[], [], rfl, List.prefix_rfl⟩
  | cons a rest ih =>
    unfold partsFrom
    split
    · exact ⟨[], _, rfl, List.nil_prefix⟩
    · obtain ⟨part, parts, hparts, hinit⟩ := ih
      exact ⟨a :: part, parts, by rw [hparts, List.modifyHead_cons],
        List.cons_prefix_cons.mpr ⟨rfl, hinit⟩⟩

/-- No part holds what is a match wherever it stands. -/
theorem not_infix_part {o : List α} (hne : o ≠ []) (h : ∀ l, o <+: l → len l ≠ none) (skip : Nat)
    (l : List α) : ∀ part ∈ partsFrom len skip l, ¬ o <:+: part := by
  induction l generalizing skip with
  | nil =>
    have hnil : partsFrom len skip [] = [[]] := by cases skip <;> rfl
    simpa [hnil] using hne
  | cons a rest ih =>
    cases skip with
    | succ skip => exact ih skip
    | zero =>
      unfold partsFrom
      split
      · simpa using ⟨hne, ih _⟩
      · rename_i hnone
        obtain ⟨part, parts, hparts, hinit⟩ := head_partsFrom len rest
        have hrest := hparts ▸ ih 0
        rw [hparts, List.modifyHead_cons]
        intro part' hpart'
        rcases List.mem_cons.mp hpart' with rfl | hpart'
        · rw [List.infix_cons_iff, not_or]
          exact ⟨fun hstarts => h _ (hstarts.trans (List.cons_prefix_cons.mpr ⟨rfl, hinit⟩)) hnone,
            hrest part List.mem_cons_self⟩
        · exact hrest part' (List.mem_cons_of_mem _ hpart')

/-! ## What stands in joined parts -/

/-- `o` begins in one part and ends in a later one. -/
def RunsOver (o : List α) (parts : List (List α)) : Prop :=
  ∃ before part between part' after u v, parts = before ++ part :: (between ++ part' :: after) ∧
    u ≠ [] ∧ v ≠ [] ∧ u <:+ part ∧ v <+: part' ∧ o = u ++ (between.flatten ++ v)

theorem initial_flatten {v : List α} (hne : v ≠ []) {parts : List (List α)}
    (h : v <+: parts.flatten) :
    ∃ between part after w, parts = between ++ part :: after ∧ w ≠ [] ∧ w <+: part ∧
    v = between.flatten ++ w := by
  induction parts generalizing v with
  | nil => exact absurd (List.prefix_nil.mp h) hne
  | cons part parts ih =>
    rw [List.flatten_cons] at h
    rcases List.prefix_or_prefix_of_prefix h (List.prefix_append part _) with hin | ⟨v', rfl⟩
    · exact ⟨[], part, parts, v, rfl, hne, hin, rfl⟩
    · rcases eq_or_ne v' [] with rfl | hne'
      · rw [List.append_nil] at hne ⊢
        exact ⟨[], part, parts, part, rfl, hne, List.prefix_rfl, rfl⟩
      · obtain ⟨between, part', after, w, rfl, hw, hinit, rfl⟩ :=
          ih hne' ((List.prefix_append_right_inj part).mp h)
        exact ⟨part :: between, part', after, w, rfl, hw, hinit, by simp⟩

theorem RunsOver.within_flatten {o : List α} {parts : List (List α)} (h : RunsOver o parts) :
    o <:+: parts.flatten := by
  obtain ⟨before, part, between, part', after, u, v, rfl, -, -, ⟨u', rfl⟩, ⟨v', rfl⟩, rfl⟩ := h
  exact ⟨before.flatten ++ u', v' ++ after.flatten, by simp⟩

theorem infix_flatten_iff {o : List α} (hne : o ≠ []) {parts : List (List α)} :
    o <:+: parts.flatten ↔ (∃ part ∈ parts, o <:+: part) ∨ RunsOver o parts := by
  constructor
  · intro h
    induction parts with
    | nil => exact absurd (List.eq_nil_of_infix_nil h) hne
    | cons part parts ih =>
      rw [List.flatten_cons] at h
      rcases List.infix_append_iff_ne_nil.mp h with hin | hin | ⟨u, v, hu, hv, rfl, hends, hstarts⟩
      · exact .inl ⟨part, List.mem_cons_self, hin⟩
      · rcases ih hin with ⟨part', hpart', hin⟩ | ⟨before, hruns⟩
        · exact .inl ⟨part', List.mem_cons_of_mem _ hpart', hin⟩
        · obtain ⟨p, between, p', after, u, v, rfl, hrest⟩ := hruns
          exact .inr ⟨part :: before, p, between, p', after, u, v, rfl, hrest⟩
      · obtain ⟨between, part', after, w, rfl, hw, hinit, rfl⟩ := initial_flatten hv hstarts
        exact .inr ⟨[], part, between, part', after, u, w, rfl, hu, hw, hends, hinit, rfl⟩
  · rintro (⟨part, hpart, hin⟩ | hruns)
    · exact hin.trans (List.infix_of_mem_flatten hpart)
    · exact hruns.within_flatten

end Lib.Cuts
