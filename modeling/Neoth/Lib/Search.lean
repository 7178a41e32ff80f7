import Neoth.Lib.Text

/-!
# Text searched by byte offsets

`str::find` and the slices `&s[a..]`, `&s[..b]`, `&s[a..b]` of a text given by its characters. 
Offsets count bytes; a slice at an offset inside a character is a panic, `none` here.

* `sliceFrom_append`, `sliceTo_append`: the slices at a character boundary;
* `find_some`, `find_none_iff`: the first occurrence of a pattern;
* `exists_first`, `NoneIn.unique`: a pattern that occurs has one first occurrence.
-/

namespace Lib.Text

/-! ## Slices -/

/-- `&s[n..]`. -/
def sliceFrom : Nat → List Char → Option (List Char)
  | 0, cs => some cs
  | _ + 1, [] => none
  | n + 1, c :: cs => if c.utf8Size ≤ n + 1 then sliceFrom (n + 1 - c.utf8Size) cs else none

/-- `&s[..n]`. -/
def sliceTo : Nat → List Char → Option (List Char)
  | 0, _ => some []
  | _ + 1, [] => none
  | n + 1, c :: cs => if c.utf8Size ≤ n + 1 then (sliceTo (n + 1 - c.utf8Size) cs).map (c :: ·)
    else none

/-- `&s[a..b]`. -/
def slice (a b : Nat) (cs : List Char) : Option (List Char) :=
  if a ≤ b then (sliceFrom a cs).bind (sliceTo (b - a)) else none

theorem sliceFrom_zero (cs : List Char) : sliceFrom 0 cs = some cs := by
  cases cs <;> rfl

theorem sliceTo_zero (cs : List Char) : sliceTo 0 cs = some [] := by
  cases cs <;> rfl

theorem exists_bytes_cons (c : Char) (cs : List Char) :
    ∃ n, bytes (c :: cs) = n + 1 ∧ c.utf8Size ≤ n + 1 ∧ n + 1 - c.utf8Size = bytes cs := by
  have hpos := utf8Size_pos c
  refine ⟨bytes (c :: cs) - 1, ?_⟩
  rw [bytes_cons]
  omega

@[simp] theorem sliceFrom_append (pre post : List Char) :
    sliceFrom (bytes pre) (pre ++ post) = some post := by
  induction pre with
  | nil => exact sliceFrom_zero post
  | cons c pre ih =>
    obtain ⟨n, hn, hle, hsize⟩ := exists_bytes_cons c pre
    rw [hn, List.cons_append, sliceFrom, if_pos hle, hsize, ih]

@[simp] theorem sliceTo_append (pre post : List Char) :
    sliceTo (bytes pre) (pre ++ post) = some pre := by
  induction pre with
  | nil => exact sliceTo_zero post
  | cons c pre ih =>
    obtain ⟨n, hn, hle, hsize⟩ := exists_bytes_cons c pre
    rw [hn, List.cons_append, sliceTo, if_pos hle, hsize, ih, Option.map_some]

theorem slice_append (pre mid post : List Char) :
    slice (bytes pre) (bytes pre + bytes mid) (pre ++ (mid ++ post)) = some mid := by
  unfold slice
  rw [if_pos (Nat.le_add_right _ _), sliceFrom_append, Option.bind_some, Nat.add_sub_cancel_left,
    sliceTo_append]

/-! ## The first occurrence -/

/-- `s.find(pattern)`. -/
def find (pattern : List Char) : List Char → Option Nat
  | [] => if pattern = [] then some 0 else none
  | c :: cs => if pattern.isPrefixOf (c :: cs) then some 0
    else (find pattern cs).map (· + c.utf8Size)

/-- No occurrence of the pattern begins inside a text that is followed by the pattern. -/
def NoneIn (pattern pre : List Char) : Prop :=
  ∀ before after, pre = before ++ after → after ≠ [] → ¬ pattern <+: after ++ pattern

theorem NoneIn.not_prefix {pattern pre : List Char} (h : NoneIn pattern pre) (hne : pre ≠ [])
    (post : List Char) : ¬ pattern <+: pre ++ (pattern ++ post) := by
  intro hstarts
  rw [← List.append_assoc] at hstarts
  exact h [] pre rfl hne (List.prefix_of_prefix_length_le hstarts (List.prefix_append _ _)
    (by simp))

theorem NoneIn.of_append {pattern before after : List Char} (h : NoneIn pattern (before ++ after)) :
    NoneIn pattern after := fun before' after' hsplit hne =>
  h (before ++ before') after' (by rw [hsplit, List.append_assoc]) hne

/-- There is one first occurrence. -/
theorem NoneIn.unique {pattern pre pre' post post' : List Char} (h : NoneIn pattern pre)
    (h' : NoneIn pattern pre')
    (heq : pre ++ (pattern ++ post) = pre' ++ (pattern ++ post')) : pre = pre' ∧ post = post' := by
  rcases List.append_eq_append_iff.mp heq with ⟨mid, hpre, hpost⟩ | ⟨mid, hpre, hpost⟩
  · rcases eq_or_ne mid [] with rfl | hne
    · rw [List.append_nil] at hpre
      exact ⟨hpre.symm, List.append_cancel_left hpost⟩
    · subst hpre
      exact absurd ⟨post, hpost⟩ (h'.of_append.not_prefix hne post')
  · rcases eq_or_ne mid [] with rfl | hne
    · rw [List.append_nil] at hpre
      exact ⟨hpre, (List.append_cancel_left hpost).symm⟩
    · subst hpre
      exact absurd ⟨post', hpost⟩ (h.of_append.not_prefix hne post)

theorem find_some {pattern cs : List Char} {n : Nat} (h : find pattern cs = some n) :
    ∃ pre post, cs = pre ++ (pattern ++ post) ∧ bytes pre = n ∧ NoneIn pattern pre := by
  induction cs generalizing n with
  | nil =>
    unfold find at h
    split at h
    · rename_i hnil
      cases h
      exact ⟨[], [], by simp [hnil], rfl, by simp [NoneIn]⟩
    · cases h
  | cons c cs ih =>
    unfold find at h
    split at h
    · rename_i hstarts
      obtain ⟨post, hpost⟩ := List.isPrefixOf_iff_prefix.mp hstarts
      cases h
      exact ⟨[], post, hpost.symm, rfl, by simp [NoneIn]⟩
    · rename_i hnot
      obtain ⟨m, hm, rfl⟩ := Option.map_eq_some_iff.mp h
      obtain ⟨pre, post, rfl, rfl, hnone⟩ := ih hm
      refine ⟨c :: pre, post, rfl, Nat.add_comm _ _, ?_⟩
      rintro (_ | ⟨b, before⟩) after hsplit hne hstarts
      · rw [List.nil_append] at hsplit
        subst hsplit
        refine hnot (List.isPrefixOf_iff_prefix.mpr (hstarts.trans ?_))
        rw [← List.append_assoc, ← List.cons_append, ← List.cons_append]
        exact List.prefix_append _ _
      · cases hsplit
        exact hnone before after rfl hne hstarts

theorem find_none_iff {pattern cs : List Char} : find pattern cs = none ↔ ¬ pattern <:+: cs := by
  induction cs with
  | nil =>
    unfold find
    split <;> simp_all
  | cons c cs ih =>
    unfold find
    rw [List.infix_cons_iff, not_or, ← ih]
    split
    · rename_i hstarts
      simp [List.isPrefixOf_iff_prefix.mp hstarts]
    · rename_i hnot
      simp [mt List.isPrefixOf_iff_prefix.mpr hnot]

/-- A pattern that occurs has a first occurrence. -/
theorem exists_first {pattern cs : List Char} (h : pattern <:+: cs) :
    ∃ pre post, cs = pre ++ (pattern ++ post) ∧ NoneIn pattern pre := by
  cases hfind : find pattern cs with
  | none => exact absurd h (find_none_iff.mp hfind)
  | some n =>
    obtain ⟨pre, post, hsplit, -, hnone⟩ := find_some hfind
    exact ⟨pre, post, hsplit, hnone⟩

end Lib.Text
