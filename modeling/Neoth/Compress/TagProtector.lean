import Neoth.Lib.Masks
import Neoth.Lib.Text

/-!
# Protected regions

`protected_line_mask` of `context/compress/tag_protector.rs`: the lines of code fences, and those
with a structural tag. `InRegion` says which these are (`marked_protectedLineMask`).
-/

open Lib.Text Lib.Masks

namespace Neoth.Compress

/-- `PROTECTED_TAG_RE.is_match`. -/
class ProtectedTags where
  isMatch : List Char → Bool

variable [ProtectedTags]

def isFenceDelimiter (line : List Char) : Bool :=
  let t := trimStart line
  "```".toList.isPrefixOf t || "~~~".toList.isPrefixOf t

/-- The mask of the lines that are left, inside or outside a fence. -/
def maskFrom (inFence : Bool) : List (List Char) → List Bool
  | [] => []
  | line :: rest =>
    if isFenceDelimiter line then true :: maskFrom (!inFence) rest
    else if inFence then true :: maskFrom inFence rest
    else ProtectedTags.isMatch line :: maskFrom inFence rest

def protectedLineMask (text : List Char) : List Bool := maskFrom false (lines text)

def hasProtectedRegions (text : List Char) : Bool :=
  (lines text).any fun line => isFenceDelimiter line || ProtectedTags.isMatch line

/-- The line is a delimiter, stands behind an odd number of them, or carries a tag. -/
def InRegion (ls : List (List Char)) (i : Nat) : Prop :=
  ∃ line, ls[i]? = some line ∧
    (isFenceDelimiter line = true ∨ (ls.take i).countP isFenceDelimiter % 2 = 1 ∨
      ProtectedTags.isMatch line = true)

@[simp] theorem length_maskFrom (inFence : Bool) (ls : List (List Char)) :
    (maskFrom inFence ls).length = ls.length := by
  induction ls generalizing inFence with
  | nil => rfl
  | cons line ls ih =>
    unfold maskFrom
    split_ifs <;> simp [ih]

theorem marked_maskFrom {inFence : Bool} {ls : List (List Char)} {i : Nat} :
    Marked (maskFrom inFence ls) i ↔
    ∃ line, ls[i]? = some line ∧ (isFenceDelimiter line = true ∨
      (inFence.toNat + (ls.take i).countP isFenceDelimiter) % 2 = 1 ∨
      ProtectedTags.isMatch line = true) := by
  induction ls generalizing inFence i with
  | nil => simp [maskFrom]
  | cons line ls ih =>
    unfold maskFrom
    cases i with
    | zero => cases inFence <;> by_cases hfence : isFenceDelimiter line = true <;> simp [hfence]
    | succ i =>
      cases inFence <;> by_cases hfence : isFenceDelimiter line = true <;> simp [hfence, ih] <;>
        refine exists_congr fun line' => and_congr_right fun _ =>
          or_congr_right (or_congr_left ?_) <;> omega

theorem marked_protectedLineMask {text : List Char} {i : Nat} :
    Marked (protectedLineMask text) i ↔ InRegion (lines text) i := by
  unfold protectedLineMask InRegion
  simpa using @marked_maskFrom _ false (lines text) i

theorem not_inRegion {text : List Char} (h : hasProtectedRegions text = false) (i : Nat) :
    ¬InRegion (lines text) i := by
  unfold hasProtectedRegions at h
  rw [List.any_eq_false] at h
  simp only [Bool.or_eq_true, not_or] at h
  rintro ⟨line, hline, hregion⟩
  have hmem : line ∈ lines text := List.mem_of_getElem? hline
  have hnone : (List.take i (lines text)).countP isFenceDelimiter = 0 :=
    List.countP_eq_zero.mpr fun line hline => (h line (List.mem_of_mem_take hline)).1
  rw [hnone] at hregion
  rcases hregion with hfence | hodd | htag
  · exact (h line hmem).1 hfence
  · cases hodd
  · exact (h line hmem).2 htag

end Neoth.Compress
