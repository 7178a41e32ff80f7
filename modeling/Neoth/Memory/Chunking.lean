import Neoth.Lib.Spread
import Neoth.Memory.ContextIndex

/-!
# What chunking keeps

`split_chunks` cuts a text at headings, at paragraphs and at the cap, and trims what it cuts off.

* `Laid`: chunks of one title over which a text is spread, in pieces that fit;
* `laid_flushWithCaps`: what one flush adds;
* `sections`: the lines between two headings; `kept_foldl`: the loop flushes each that is not blank;
* **`splitChunks_keeps`**: every section is spread over chunks of its own, and a paragraph that fits
  is not cut.
-/

open Lib.Encoding Lib.Text

namespace Neoth.Memory

/-! ## Flushing -/

/-- The chunks carry the title and fit, and the text is spread over them. -/
structure Laid (title : Option String) (text : List Char) (group : List Chunk) : Prop where
  title : ∀ chunk ∈ group, chunk.title = title
  fits : ∀ chunk ∈ group, bytes chunk.body.toList ≤ chunkByteCap
  spread : Spread text (group.map (·.body.toList))

/-- A paragraph that fits is within one of the chunks, but for white space at its end. -/
def Whole (para : List Char) (group : List Chunk) : Prop :=
  bytes para ≤ chunkByteCap → isBlank para = false → ∃ chunk ∈ group, trimEnd para <:+:
  chunk.body.toList

variable {title : Option String} {text text' para : List Char} {group group' : List Chunk}

theorem Laid.append (h : Laid title text group) (h' : Laid title text' group') :
    Laid title (text ++ text') (group ++ group') where
  title := List.forall_mem_append.mpr ⟨h.title, h'.title⟩
  fits := List.forall_mem_append.mpr ⟨h.fits, h'.fits⟩
  spread := by
    rw [List.map_append]
    exact h.spread.append h'.spread

theorem Laid.blank (h : Laid title text group) {gap : List Char} (hgap : isBlank gap = true) :
    Laid title (text ++ gap) group := by
  have hnone : Laid title gap [] := ⟨by simp, by simp, .blank hgap⟩
  simpa using h.append hnone

theorem Laid.trimmed (h : bytes text ≤ chunkByteCap) :
    Laid title text [⟨title, String.ofList (trimEnd text)⟩] where
  title := by simp
  fits := by simpa using (bytes_trimEnd_le text).trans h
  spread := by simpa using Spread.trimEnd text

theorem Laid.sliced (text : List Char) :
    Laid title text ((hardSlice chunkByteCap text).map fun slice =>
      ⟨title, String.ofList slice⟩) where
  title := by simp
  fits := by
    intro chunk hchunk
    obtain ⟨slice, hslice, rfl⟩ := List.mem_map.mp hchunk
    simpa using mem_hardSlice hslice
  spread := by
    have h := Spread.flatten (hardSlice chunkByteCap text)
    rw [flatten_hardSlice (by decide)] at h
    simpa [Function.comp_def] using h

theorem Whole.mono (h : Whole para group) (hsub : ∀ chunk ∈ group, chunk ∈ group') :
    Whole para group' := by
  intro hfits hblank
  obtain ⟨chunk, hchunk, hwithin⟩ := h hfits hblank
  exact ⟨chunk, hsub chunk hchunk, hwithin⟩

/-- The loop over paragraphs: `done` is spread over the chunks so far and the open text, and no
paragraph is cut. -/
structure Flushing (title : Option String) (out : List Chunk) (done : List Char)
    (paras : List (List Char)) (state : List Chunk × List Char) : Prop where
  laid : ∃ group front, state.1 = out ++ group ∧ done = front ++ state.2 ∧ Laid title front group ∧
    ∀ para ∈ paras, Whole para group ∨ para <:+: state.2
  fits : bytes state.2 ≤ chunkByteCap

variable {out chunks : List Chunk} {done sep : List Char} {paras : List (List Char)}
  {state : List Chunk × List Char}

/-- The open text becomes a chunk. -/
theorem Flushing.close (h : Flushing title out done paras state) :
    Flushing title out done paras (state.1 ++ [⟨title, String.ofList (trimEnd state.2)⟩], []) where
  laid := by
    obtain ⟨group, front, hout, hdone, hlaid, hwhole⟩ := h.laid
    refine ⟨group ++ [⟨title, String.ofList (trimEnd state.2)⟩], done, by simp [hout], by
      simp, ?_, ?_⟩
    · rw [hdone]
      exact hlaid.append (.trimmed h.fits)
    · intro para hpara
      refine .inl fun hfits hblank => ?_
      rcases hwhole para hpara with hpast | hopen
      · obtain ⟨chunk, hchunk, hwithin⟩ := hpast hfits hblank
        exact ⟨chunk, List.mem_append_left _ hchunk, hwithin⟩
      · exact ⟨_, List.mem_append_right _ (List.mem_singleton_self _), by
          simpa using trimEnd_infix hopen⟩
  fits := by simp

/-- Nothing is open: a paragraph begins, behind blank text. -/
theorem Flushing.start (h : Flushing title out done paras (chunks, [])) (hsep : isBlank sep = true)
    (hfits : bytes para ≤ chunkByteCap) :
      Flushing title out (done ++ sep ++ para) (para :: paras) (chunks, para) where
  laid := by
    obtain ⟨group, front, hout, hdone, hlaid, hwhole⟩ := h.laid
    refine ⟨group, front ++ sep, hout, by simp [hdone], hlaid.blank hsep, ?_⟩
    intro p hp
    rcases List.mem_cons.mp hp with rfl | hp
    · exact .inr List.infix_rfl
    · rcases hwhole p hp with hpast | hopen
      · exact .inl hpast
      · exact .inr (hopen.trans List.nil_infix)
  fits := hfits

/-- Nothing is open: a paragraph that does not fit is cut. -/
theorem Flushing.slice (h : Flushing title out done paras (chunks, [])) (hsep : isBlank sep = true)
    (hover : chunkByteCap < bytes para) : Flushing title out (done ++ sep ++ para) (para :: paras)
      (chunks ++ (hardSlice chunkByteCap para).map fun slice => ⟨title, String.ofList slice⟩,
        []) where
  laid := by
    obtain ⟨group, front, hout, hdone, hlaid, hwhole⟩ := h.laid
    dsimp only at hout
    refine ⟨group ++ _, front ++ sep ++ para, by rw [← List.append_assoc, ← hout], by simp [hdone],
      (hlaid.blank hsep).append (.sliced para), ?_⟩
    intro p hp
    rcases List.mem_cons.mp hp with rfl | hp
    · exact .inl fun hfits => absurd hfits (not_le.mpr hover)
    · rcases hwhole p hp with hpast | hopen
      · exact .inl (hpast.mono fun chunk hchunk => List.mem_append_left _ hchunk)
      · exact .inr hopen
  fits := by simp

/-- A paragraph goes on in the open text. -/
theorem Flushing.extend (h : Flushing title out done paras state)
    (hfits : bytes state.2 + bytes para + 2 ≤ chunkByteCap) :
    Flushing title out (done ++ ['\n', '\n'] ++ para) (para :: paras)
      (state.1, state.2 ++ ['\n', '\n'] ++ para) where
  laid := by
    obtain ⟨group, front, hout, hdone, hlaid, hwhole⟩ := h.laid
    refine ⟨group, front, hout, by simp [hdone], hlaid, ?_⟩
    intro p hp
    rcases List.mem_cons.mp hp with rfl | hp
    · exact .inr (List.suffix_append _ _).isInfix
    · rcases hwhole p hp with hpast | hopen
      · exact .inl hpast
      · exact .inr (hopen.trans ((List.prefix_append _ _).trans (List.prefix_append _ _)).isInfix)
  fits := by
    have hnewline : bytes ['\n', '\n'] = 2 := rfl
    rw [bytes_append, bytes_append, hnewline]
    omega

/-- **What one paragraph keeps.** -/
theorem Flushing.paragraph (h : Flushing title out done paras state) (hsep : isBlank sep = true)
    (hopen : state.2 ≠ [] → sep = ['\n', '\n']) :
    Flushing title out (done ++ sep ++ para) (para :: paras) (flushParagraph title state para) := by
  obtain ⟨chunks, current⟩ := state
  unfold flushParagraph
  dsimp only at hopen ⊢
  by_cases hflush : chunkByteCap < bytes current + bytes para + 2 ∧ current ≠ []
  · rw [if_pos hflush]
    dsimp only
    split_ifs with hover hempty
    · exact h.close.slice hsep hover
    · exact h.close.start hsep (not_lt.mp hover)
    · exact absurd rfl hempty
  · rw [if_neg hflush]
    dsimp only
    split_ifs with hover hempty
    · have hempty : current = [] := by
        by_contra hne
        exact hflush ⟨by omega, hne⟩
      subst hempty
      exact h.slice hsep hover
    · subst hempty
      exact h.start hsep (not_lt.mp hover)
    · obtain rfl := hopen hempty
      exact h.extend (not_lt.mp fun hlt => hflush ⟨hlt, hempty⟩)

theorem Flushing.foldl (h : Flushing title out done paras state) (more : List (List Char)) :
    Flushing title out (done ++ more.flatMap (['\n', '\n'] ++ ·)) (more.reverse ++ paras)
      (more.foldl (flushParagraph title) state) := by
  induction more generalizing done paras state with
  | nil => simpa using h
  | cons para more ih =>
    have hstep : Flushing title out (done ++ ['\n', '\n'] ++ para) (para :: paras) _ :=
      h.paragraph rfl fun _ => rfl
    have hnext := ih hstep
    simpa using hnext

/-- **What one flush adds.** -/
theorem laid_flushWithCaps (out : List Chunk) (title : Option String) (text : List Char) :
    ∃ group, flushWithCaps out title text = out ++ group ∧ Laid title text group ∧
      ∀ para ∈ splitPairs '\n' text, Whole para group := by
  unfold flushWithCaps
  split
  · rename_i hfits
    refine ⟨_, rfl, .trimmed hfits, fun para hpara _ _ => ⟨_, List.mem_singleton_self _, ?_⟩⟩
    simpa using trimEnd_infix (infix_of_mem_splitPairs hpara)
  · obtain ⟨first, rest, hparas⟩ := List.exists_cons_of_ne_nil (splitPairsFrom_ne_nil '\n' [] text)
    have htext := intercalate_splitPairs '\n' text
    rw [← splitPairs] at hparas
    rw [hparas, intercalate_cons_eq_flatMap] at htext
    have hstart : Flushing title out [] [] (out, []) :=
      ⟨⟨[], [], by simp, rfl, ⟨by simp, by simp, .blank rfl⟩, by simp⟩, by simp⟩
    have hfirst : Flushing title out ([] ++ [] ++ first)
        [first] (flushParagraph title (out, []) first) :=
      hstart.paragraph rfl fun h => absurd rfl h
    have hall := hfirst.foldl rest
    rw [List.append_nil, List.nil_append, htext, ← List.foldl_cons, ← hparas] at hall
    generalize (splitPairs '\n' text).foldl (flushParagraph title) (out, []) = state at hall
    have hmem : ∀ para ∈ splitPairs '\n' text, para ∈ rest.reverse ++ [first] := by
      intro para hpara
      rw [hparas] at hpara
      simpa [or_comm] using hpara
    dsimp only
    split
    · rename_i hblank
      obtain ⟨group, front, hout, hdone, hlaid, hwhole⟩ := hall.laid
      refine ⟨group, hout, hdone ▸ hlaid.blank hblank, fun para hpara => ?_⟩
      rcases hwhole para (hmem para hpara) with hpast | hopen
      · exact hpast
      · intro _ hnot
        rw [isBlank_false_of_within hopen hnot] at hblank
        cases hblank
    · obtain ⟨group, front, hout, hdone, hlaid, hwhole⟩ := hall.close.laid
      rw [List.append_nil] at hdone
      refine ⟨group, hout, hdone ▸ hlaid, fun para hpara => ?_⟩
      rcases hwhole para (hmem para hpara) with hpast | hopen
      · exact hpast
      · intro _ hnot
        rw [List.eq_nil_of_infix_nil hopen] at hnot
        cases hnot

/-! ## Sections -/

/-- The title of a heading. -/
def headingOf (line : List Char) : Option String :=
  match trimStart line with
  | '#' :: stripped => some (String.ofList (trimText (stripped.dropWhile (· == '#'))))
  | _ => none

/-- The text between two headings, with the title of the first; `text` is what comes before these
lines. -/
def sections (title : Option String) (text : List Char) : List (List Char) →
    List (Option String × List Char)
  | [] => [(title, text)]
  | line :: rest =>
    match headingOf line with
    | some heading => (title, text) :: sections (some heading) [] rest
    | none => sections title (text ++ line ++ ['\n']) rest

/-- The sections that are not blank. -/
def filled (title : Option String) (text : List Char) (rest : List (List Char)) :
    List (Option String × List Char) :=
  (sections title text rest).filter fun sec => !isBlank sec.2

/-- Chunks with the title of the section, over which it is spread behind blank lines; a paragraph
that fits is not cut. -/
def Kept (sec : Option String × List Char) (group : List Chunk) : Prop :=
  ∃ lead, isBlank lead = true ∧ Laid sec.1 (lead ++ sec.2) group ∧
    ∀ para ∈ splitPairs '\n' (lead ++ sec.2), Whole para group

/-- The end of the loop. -/
def Splitting.finish (s : Splitting) : List Chunk :=
  if isBlank s.buffer then s.out else flushWithCaps s.out s.currentTitle s.buffer

theorem headingOf_eq_some_iff {line : List Char} {heading : String} :
    headingOf line = some heading ↔
    ∃ stripped, trimStart line = '#' :: stripped ∧
      String.ofList (trimText (stripped.dropWhile (· == '#'))) = heading := by
  unfold headingOf
  split
  · rename_i hline
    simp [hline]
  · rename_i hline
    simpa using fun stripped h => absurd h (hline stripped)

theorem Splitting.line_heading {s : Splitting} {line : List Char} {heading : String}
    (h : headingOf line = some heading) :
    s.line line = if isBlank s.buffer then { s with currentTitle := some heading }
      else ⟨flushWithCaps s.out s.currentTitle s.buffer, some heading, []⟩ := by
  obtain ⟨stripped, hline, rfl⟩ := headingOf_eq_some_iff.mp h
  unfold Splitting.line
  rw [hline]
  rfl

theorem Splitting.line_text {s : Splitting} {line : List Char} (h : headingOf line = none) :
    s.line line = { s with buffer := s.buffer ++ line ++ ['\n'] } := by
  unfold Splitting.line
  split
  · rename_i stripped hline
    have hheading := headingOf_eq_some_iff.mpr ⟨stripped, hline, rfl⟩
    rw [h] at hheading
    cases hheading
  · rfl

theorem kept_finish (s : Splitting) {lead text : List Char} (hbuffer : s.buffer = lead ++ text)
    (hlead : isBlank lead = true) : ∃ groups, s.finish = s.out ++ groups.flatten ∧
      List.Forall₂ Kept (filled s.currentTitle text []) groups := by
  have hblank : isBlank s.buffer = isBlank text := by
    rw [hbuffer, Bool.eq_iff_iff, isBlank_append, and_iff_right hlead]
  unfold Splitting.finish
  split
  · rename_i h
    rw [hblank] at h
    exact ⟨[], by simp, by simp [filled, sections, h]⟩
  · rename_i h
    rw [hblank, Bool.not_eq_true] at h
    obtain ⟨group, hflush, hlaid, hwhole⟩ := laid_flushWithCaps s.out s.currentTitle s.buffer
    have hkept : Kept (s.currentTitle, text) group :=
      ⟨lead, hlead, hbuffer ▸ hlaid, hbuffer ▸ hwhole⟩
    exact ⟨[group], by simp [hflush], by simpa [filled, sections, h] using hkept⟩

theorem filled_heading {line : List Char} {heading : String} (h : headingOf line = some heading)
    (title : Option String) (text : List Char) (rest : List (List Char)) :
    filled title text (line :: rest) = filled title text [] ++ filled (some heading) [] rest := by
  simp only [filled, sections, h]
  rw [← List.filter_append, List.singleton_append]

theorem filled_text {line : List Char} (h : headingOf line = none) (title : Option String)
    (text : List Char)
    (rest : List (List Char)) :
      filled title text (line :: rest) = filled title (text ++ line ++ ['\n']) rest := by
  simp only [filled, sections, h]

/-- **The loop flushes every section that is not blank.** -/
theorem kept_foldl (rest : List (List Char)) (s : Splitting) {lead text : List Char}
    (hbuffer : s.buffer = lead ++ text)
    (hlead : isBlank lead = true) : ∃ groups,
      (rest.foldl Splitting.line s).finish = s.out ++ groups.flatten ∧
      List.Forall₂ Kept (filled s.currentTitle text rest) groups := by
  induction rest generalizing s lead text with
  | nil => exact kept_finish s hbuffer hlead
  | cons line rest ih =>
    rw [List.foldl_cons]
    cases hline : headingOf line with
    | some heading =>
      obtain ⟨groups, hfinish, hgroups⟩ := kept_finish s hbuffer hlead
      rw [Splitting.line_heading hline, filled_heading hline]
      unfold Splitting.finish at hfinish
      split
      · rename_i hblank
        rw [if_pos hblank] at hfinish
        obtain ⟨groups', hfinish', hgroups'⟩ :=
          @ih { s with currentTitle := some heading } s.buffer [] (List.append_nil _).symm hblank
        refine ⟨groups ++ groups', ?_, List.rel_append hgroups hgroups'⟩
        rw [hfinish', List.flatten_append, ← List.append_assoc, ← hfinish]
      · rename_i hblank
        rw [if_neg hblank] at hfinish
        obtain ⟨groups', hfinish', hgroups'⟩ :=
          @ih ⟨flushWithCaps s.out s.currentTitle s.buffer, some heading, []⟩ [] [] rfl rfl
        refine ⟨groups ++ groups', ?_, List.rel_append hgroups hgroups'⟩
        rw [hfinish', List.flatten_append, ← List.append_assoc, ← hfinish]
    | none =>
      rw [Splitting.line_text hline, filled_text hline]
      exact @ih { s with buffer := s.buffer ++ line ++ ['\n'] } lead (text ++ line ++ ['\n'])
        (by simp [hbuffer]) hlead

theorem Kept.fits {sec : Option String × List Char} {group : List Chunk} (h : Kept sec group) :
    ∀ chunk ∈ group, bytes chunk.body.toList ≤ chunkByteCap := by
  obtain ⟨_, _, hlaid, _⟩ := h
  exact hlaid.fits

theorem fits_of_forall₂ {secs : List (Option String × List Char)} {groups : List (List Chunk)}
    (h : List.Forall₂ Kept secs groups) : ∀ chunk ∈ groups.flatten,
      bytes chunk.body.toList ≤ chunkByteCap := by
  induction h with
  | nil => simp
  | cons hkept _ ih =>
    rw [List.flatten_cons]
    exact List.forall_mem_append.mpr ⟨hkept.fits, ih⟩

/-- What becomes of other text than code. -/
theorem splitChunks_sections {content contentType : String} (hcode : contentType ≠ "code") :
    (∀ chunk ∈ splitChunks content contentType, bytes chunk.body.toList ≤ chunkByteCap) ∧
      (∃ groups, groups.flatten.Sublist (splitChunks content contentType) ∧
        List.Forall₂ Kept (filled none [] (lines content.toList)) groups) ∧
      (filled none [] (lines content.toList) = [] →
        Spread content.toList ((splitChunks content contentType).map (·.body.toList))) := by
  obtain ⟨groups, hfinish, hgroups⟩ := @kept_foldl (lines content.toList) ⟨[], none, []⟩ []
    [] rfl rfl
  rw [List.nil_append] at hfinish
  have hchunks : splitChunks content contentType =
      if groups.flatten = [] ∧ ¬ isBlank content.toList
        then flushWithCaps groups.flatten none content.toList
      else groups.flatten := by
    rw [← hfinish, splitChunks, if_neg hcode]
    rfl
  rw [hchunks]
  split
  · rename_i hfallback
    obtain ⟨group, hflush, hlaid, -⟩ := laid_flushWithCaps groups.flatten none content.toList
    rw [hflush, hfallback.1, List.nil_append]
    exact ⟨hlaid.fits, ⟨groups, by simp [hfallback.1], hgroups⟩, fun _ => hlaid.spread⟩
  · rename_i hout
    refine ⟨fits_of_forall₂ hgroups, ⟨groups, List.Sublist.refl _, hgroups⟩, fun hempty => ?_⟩
    rw [hempty, List.forall₂_nil_left_iff] at hgroups
    subst hgroups
    exact .blank (by simpa using hout)

/-- **What the chunks of a text keep.**  All bodies fit. Those of code that is not blank are the
text. In any other text the sections that are not blank are spread, in order, over chunks with their
titles, of which each keeps the paragraphs that fit in one piece; a text of headings only is spread
over chunks as it is. -/
theorem splitChunks_keeps (content contentType : String) :
    (∀ chunk ∈ splitChunks content contentType, byteLen chunk.body ≤ chunkByteCap) ∧
      (contentType = "code" → isBlank content.toList = false →
        ((splitChunks content contentType).map (·.body.toList)).flatten = content.toList) ∧
      (contentType ≠ "code" →
        (∃ groups, groups.flatten.Sublist (splitChunks content contentType) ∧
          List.Forall₂ Kept (filled none [] (lines content.toList)) groups) ∧
        (filled none [] (lines content.toList) = [] →
          Spread content.toList ((splitChunks content contentType).map (·.body.toList)))) := by
  by_cases hcode : contentType = "code"
  · subst hcode
    refine ⟨?_, fun _ hblank => (splitChunks_code hblank).1, fun h => absurd rfl h⟩
    cases hblank : isBlank content.toList with
    | true => simp [splitChunks, hblank]
    | false => exact (splitChunks_code hblank).2
  · obtain ⟨hfits, hkept⟩ := @splitChunks_sections content contentType hcode
    refine ⟨fun chunk hchunk => ?_, fun h => absurd h hcode, fun _ => hkept⟩
    rw [byteLen_eq_bytes]
    exact hfits chunk hchunk

/-! ## Texts that lose their layout -/

/-- A line that no chunk can hold. -/
def sampleLongLine : String := String.ofList (List.replicate (chunkByteCap + 1) 'a')

/-- Blank code has no chunks; the white space at the end of a chunk is trimmed; a line above the cap
is cut. -/
theorem chunks_lose_layout :
    splitChunks " " "code" = [] ∧ splitChunks "a " "text" = [⟨none, "a"⟩] ∧
    lines "a ".toList = ["a ".toList] ∧
      ∀ chunk ∈ splitChunks sampleLongLine "text", ¬ sampleLongLine.toList <:+:
      chunk.body.toList := by
  refine ⟨by decide, by decide, by decide, fun chunk hchunk hwithin => ?_⟩
  have hfits := (@splitChunks_sections sampleLongLine "text" (by decide)).1 chunk hchunk
  have hlong : sampleLongLine.toList.length = chunkByteCap + 1 := by
    rw [sampleLongLine, String.toList_ofList, List.length_replicate]
  have hle := hwithin.length_le.trans ((length_le_bytes _).trans hfits)
  omega

end Neoth.Memory
