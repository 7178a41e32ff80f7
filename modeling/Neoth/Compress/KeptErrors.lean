import Neoth.Compress.LogOffload

/-!
# When a log keeps its errors

* `KeepsErrors`: head and tail, protected regions, stack traces and errors are kept;
* `ErrorsFit`: what a log has to satisfy for that;
* **`logOffload_keeps_iff`**: the two are the same, and the output is always the kept lines with the
  runs between them counted.
-/

open Lib.Text Lib.Masks

namespace Neoth.Compress

section
variable [LogPatterns] (cfg : LogOffloadConfig)

/-- The templates of the warnings that the passes before keep above the line `i`. -/
def earlierTemplates (ls : List (List Char)) (i : Nat) : Finset (List Char) :=
  templatesBefore (ls.zip (candidateMask cfg ls)) i

/-- A warning with the template of an earlier one. -/
def DuplicateWarning (ls : List (List Char)) (i : Nat) (line : List Char) : Prop :=
  isWarn line = true ∧ warnKey line ∈ earlierTemplates cfg ls i

variable [ProtectedTags]

structure KeepsErrors (content : List Char) : Prop where
  window : ∀ i line, (lines content)[i]? = some line →
    i < cfg.headTail ∨ (lines content).length - cfg.headTail ≤ i →
    ¬DuplicateWarning cfg (lines content) i line → Marked (keepMask cfg content) i
  region : ∀ i, InRegion (lines content) i → Marked (keepMask cfg content) i
  trace : ∀ i, InTrace (lines content) i → Marked (keepMask cfg content) i
  errors : (lines content).countP LogPatterns.high ≤ cfg.maxKeptPriority →
    ∀ i line, (lines content)[i]? = some line → LogPatterns.high line = true →
    Marked (keepMask cfg content) i

structure ErrorsFit (content : List Char) : Prop where
  /-- A new warning at the head or the tail finds room among the distinct ones. -/
  window : ∀ i line, (lines content)[i]? = some line →
    i < cfg.headTail ∨ (lines content).length - cfg.headTail ≤ i →
    isWarn line = true → ¬InRegion (lines content) i →
    warnKey line ∉ earlierTemplates cfg (lines content) i →
      (earlierTemplates cfg (lines content) i).card < cfg.maxDistinctWarnings
  /-- A warning in a stack trace is new and finds room. -/
  trace : ∀ i line, (lines content)[i]? = some line → InTrace (lines content) i →
    isWarn line = true →
    ¬InRegion (lines content) i → warnKey line ∉ earlierTemplates cfg (lines content) i ∧
      (earlierTemplates cfg (lines content) i).card < cfg.maxDistinctWarnings
  /-- An error that nothing else keeps is over the threshold, and the lines over it that come before
  leave room. -/
  errors : (lines content).countP LogPatterns.high ≤ cfg.maxKeptPriority →
    ∀ i line, (lines content)[i]? = some line → LogPatterns.high line = true → cfg.headTail ≤ i →
      i < (lines content).length - cfg.headTail → ¬InTrace (lines content) i →
      ¬InRegion (lines content) i →
        isScored cfg line = true ∧
          scoredBefore cfg ((lines content).zip (windowMask cfg (lines content).length)) i <
            cfg.maxKeptPriority

variable {cfg}

omit [ProtectedTags] in
/-- An error is not a warning. -/
theorem isWarn_of_high {line : List Char} (h : LogPatterns.high line = true) :
    isWarn line = false := by
  have hscore : lineImportance line = 0x3F666666 := by simp [lineImportance, h]
  rw [isWarn, hscore]
  decide

/-- One line is kept: it is protected, or a candidate that the warnings leave in. -/
theorem marked_keepMask_iff {content line : List Char} {i : Nat}
    (hline : (lines content)[i]? = some line) :
    Marked (keepMask cfg content) i ↔ InRegion (lines content) i ∨
      Marked (candidateMask cfg (lines content)) i ∧ (isWarn line = true →
        warnKey line ∉ earlierTemplates cfg (lines content) i ∧
          (earlierTemplates cfg (lines content) i).card < cfg.maxDistinctWarnings) := by
  rw [marked_keepMask]
  refine or_congr_right ⟨?_, fun h => ⟨line, hline, h⟩⟩
  rintro ⟨line', hline', h⟩
  obtain rfl := Option.some.inj (hline.symm.trans hline')
  exact h

omit [LogPatterns] [ProtectedTags] in
theorem marked_window {ls : List (List Char)} {line : List Char} {i : Nat}
    (hline : ls[i]? = some line) :
    Marked (windowMask cfg ls.length) i ↔ i < cfg.headTail ∨ ls.length - cfg.headTail ≤ i := by
  have hi := (List.getElem?_eq_some_iff.mp hline).1
  simp [marked_windowMask, hi]

theorem keepsErrors_iff {content : List Char} : KeepsErrors cfg content ↔
    ErrorsFit cfg content := by
  constructor
  · intro h
    refine ⟨?_, ?_, ?_⟩
    · intro i line hline hwindow hwarn hregion hnew
      have hkept := h.window i line hline hwindow fun hdup => hnew hdup.2
      exact ((((marked_keepMask_iff hline).mp hkept).resolve_left hregion).2 hwarn).2
    · intro i line hline htrace hwarn hregion
      exact (((marked_keepMask_iff hline).mp (h.trace i htrace)).resolve_left hregion).2 hwarn
    · intro hcount i line hline hhigh hhead htail htrace hregion
      have hkept :=
        ((marked_keepMask_iff hline).mp (h.errors hcount i line hline hhigh)).resolve_left hregion
      have hwindow : ¬Marked (windowMask cfg (lines content).length) i := by
        rw [marked_window hline]
        omega
      obtain ⟨line', hline', hscored⟩ :=
        ((marked_candidateMask.mp hkept.1).resolve_left hwindow).resolve_left htrace
      obtain rfl := Option.some.inj (hline.symm.trans hline')
      exact hscored
  · intro h
    refine ⟨?_, ?_, ?_, ?_⟩
    · intro i line hline hwindow hdup
      by_cases hregion : InRegion (lines content) i
      · exact (marked_keepMask_iff hline).mpr (.inl hregion)
      · refine (marked_keepMask_iff hline).mpr
          (.inr ⟨marked_candidateMask.mpr (.inl ?_), fun hwarn => ?_⟩)
        · exact (marked_window hline).mpr hwindow
        · have hnew : warnKey line ∉ earlierTemplates cfg (lines content) i :=
            fun hmem => hdup ⟨hwarn, hmem⟩
          exact ⟨hnew, h.window i line hline hwindow hwarn hregion hnew⟩
    · exact fun i hregion => marked_keepMask.mpr (.inl hregion)
    · intro i htrace
      have hi := htrace.1
      have hline : (lines content)[i]? = some (lines content)[i] :=
        List.getElem?_eq_getElem htrace.1
      by_cases hregion : InRegion (lines content) i
      · exact (marked_keepMask_iff hline).mpr (.inl hregion)
      · exact (marked_keepMask_iff hline).mpr (.inr ⟨marked_candidateMask.mpr (.inr (.inl htrace)),
          fun hwarn => h.trace i _ hline htrace hwarn hregion⟩)
    · intro hcount i line hline hhigh
      by_cases hregion : InRegion (lines content) i
      · exact (marked_keepMask_iff hline).mpr (.inl hregion)
      · refine (marked_keepMask_iff hline).mpr (.inr ⟨marked_candidateMask.mpr ?_, fun hwarn => ?_⟩)
        · by_cases hwindow : i < cfg.headTail ∨ (lines content).length - cfg.headTail ≤ i
          · exact .inl ((marked_window hline).mpr hwindow)
          · by_cases htrace : InTrace (lines content) i
            · exact .inr (.inl htrace)
            · exact .inr
                (.inr ⟨line, hline,
                  h.errors hcount i line hline hhigh (by omega) (by omega) htrace hregion⟩)
        · rw [isWarn_of_high hhigh] at hwarn
          cases hwarn

/-- **The output is the kept lines and the length of each run between them; it keeps what it should
if and only if the log fits.** -/
theorem logOffload_keeps_iff [Sha256] {S : Type} [CcrStore S] {content : List Char}
    {store store' : S}
    {out : OffloadOutput} (h : logOffload cfg content store = .ok (out, store')) :
    (∃ ls, Collapsed (omittedLines (markerFor (computeKey content)))
      ((lines content).zip (keepMask cfg content)) ls ∧
      out.output = joinLines content ls) ∧ (KeepsErrors cfg content ↔ ErrorsFit cfg content) := by
  refine ⟨?_, keepsErrors_iff⟩
  unfold logOffload at h
  dsimp only at h
  split_ifs at h
  obtain ⟨rfl, -⟩ := Prod.mk.inj (Except.ok.inj h)
  exact ⟨_, collapse_spec _ _, restoreEnd_lines content _⟩

end

/-- The patterns on lines with plain words. -/
@[reducible] def samplePatterns : LogPatterns where
  high line := decide ("ERROR".toList <:+: line)
  warn line := decide ("WARN".toList <:+: line)
  low line := decide ("INFO".toList <:+: line)

@[reducible] def noTags : ProtectedTags := ⟨fun _ => false⟩

/-- `steps` steps, an error, and thirty lines that say that nothing happened. -/
def stepLog (steps : Nat) : List Char :=
  ['\n'].intercalate (List.replicate steps "step".toList ++ "ERROR disk full".toList ::
    List.replicate 30 "INFO idle".toList)

attribute [local instance] samplePatterns noTags

/-- The offload succeeds on a log. -/
def isOffloaded (content : List Char) : Bool :=
  (@logOffload samplePatterns .default noTags Sha256.fips _ _ content
    ([] : List (String × List Char))).isOk

theorem exists_of_isOffloaded (content : List Char) (h : isOffloaded content = true) : ∃ out store',
    @logOffload samplePatterns .default noTags Sha256.fips _ _ content
      ([] : List (String × List Char)) = .ok (out, store') := by
  unfold isOffloaded at h
  revert h
  cases @logOffload samplePatterns .default noTags Sha256.fips _ _ content
    ([] : List (String × List Char)) with
  | error e => exact fun h => absurd h (by simp [Except.isOk, Except.toBool])
  | ok result => exact fun _ => ⟨result.1, result.2, rfl⟩

/-- With twenty steps, the error is kept. -/
theorem logOffload_keeps_iff_sample : ∃ out store',
    @logOffload samplePatterns .default noTags Sha256.fips _ _ (stepLog 20)
      ([] : List (String × List Char)) = .ok (out, store') ∧ KeepsErrors .default (stepLog 20) := by
  obtain ⟨out, store', h⟩ := exists_of_isOffloaded (stepLog 20) (by
    unfold isOffloaded
    rw [Sha256.fips_eq]
    decide +kernel)
  refine ⟨out, store', h,
    (@logOffload_keeps_iff samplePatterns _ noTags Sha256.fips _ _ _ _ _ _ h).2.mpr ?_⟩
  have hwarn : ∀ line ∈ lines (stepLog 20), isWarn line = false := by decide +kernel
  have hnowarn : ∀ {i : Nat} {line : List Char}, (lines (stepLog 20))[i]? = some line →
      isWarn line = true → False := by
    intro i line hline h
    rw [hwarn line (List.mem_of_getElem? hline)] at h
    cases h
  have hroom : ∀ i < (lines (stepLog 20)).length, ∀ line ∈ (lines (stepLog 20))[i]?,
      LogPatterns.high line = true → isScored .default line = true ∧
        scoredBefore .default
          ((lines (stepLog 20)).zip (windowMask .default (lines (stepLog 20)).length)) i < 50 := by
    decide +kernel
  refine ⟨fun i line hline _ h => (hnowarn hline h).elim,
    fun i line hline _ h => (hnowarn hline h).elim, ?_⟩
  intro _ i line hline hhigh _ _ _ _
  exact hroom i (List.getElem?_eq_some_iff.mp hline).1 line hline hhigh

/-- With sixty, the steps take the room of the only error. -/
theorem error_is_dropped : ¬∀ content (store : List (String × List Char)) out store',
    @logOffload samplePatterns .default noTags Sha256.fips _ _ content store = .ok (out, store') →
      KeepsErrors .default content := by
  intro hall
  obtain ⟨out, store', h⟩ := exists_of_isOffloaded (stepLog 60) (by
    unfold isOffloaded
    rw [Sha256.fips_eq]
    decide +kernel)
  have hcount : (lines (stepLog 60)).countP LogPatterns.high ≤
      LogOffloadConfig.default.maxKeptPriority := by
    decide +kernel
  have hline : (lines (stepLog 60))[60]? = some "ERROR disk full".toList := by decide +kernel
  have hkept := (hall (stepLog 60) [] out store' h).errors hcount 60 _ hline (by decide +kernel)
  exact absurd hkept (by decide +kernel)

end Neoth.Compress
