import Neoth.Compress.DiffCompressor

/-!
# Unified diffs

A well-formed diff, and how `parse_segments` and `split_into_hunks` read it.

* `Hunk`, `FileDiff`, `IsDiff`: the format, with the line counts that a hunk header declares;
* `parseSegments_diff`: the files are found again;
* `splitIntoHunks_body`: and so are their hunks.
-/

open Lib.Text

namespace Neoth.Compress

/-! ## The format -/

/-- A start and a count of lines; the count may be left out if it is one. -/
def RangeText (count : Nat) (text : List Char) : Prop :=
  ∃ start : Nat, text = Nat.toDigits 10 start ++ ',' :: Nat.toDigits 10 count ∨
  count = 1 ∧ text = Nat.toDigits 10 start

/-- The header of a hunk with so many lines of the old file, and so many of the new one. -/
def Declares (header : List Char) (old new : Nat) : Prop :=
  ∃ oldRange newRange heading, RangeText old oldRange ∧ RangeText new newRange ∧
    header = "@@ -".toList ++ oldRange ++ " +".toList ++ newRange ++ " @@".toList ++ heading

def hasSign (signs : List Char) (line : List Char) : Bool := line.head?.any fun c =>
  signs.contains c

structure Hunk where
  header : List Char
  body : List (List Char)
  declares : Declares header (body.countP (hasSign [' ', '-'])) (body.countP (hasSign [' ', '+']))
  signs : ∀ line ∈ body, hasSign ['+', '-', ' ', '\\'] line = true

structure FileDiff where
  header : List Char
  /-- The lines up to the first hunk. -/
  extended : List (List Char)
  hunks : List Hunk
  opens : isDiffHeader header = true
  plain : ∀ line ∈ extended, isDiffHeader line = false ∧ isHunkHeader line = false

namespace FileDiff

variable (f : FileDiff)

def headerLines : List (List Char) := f.header :: f.extended

def body : List (List Char) := f.hunks.flatMap fun h => h.header :: h.body

def lines : List (List Char) := f.headerLines ++ f.body

def segment : Segment := ⟨parseNewPath f.header, f.headerLines, f.body⟩

end FileDiff

/-- The content is a diff of these files, behind some other lines. -/
structure IsDiff (content : List Char) (leading : List (List Char)) (files : List FileDiff) :
    Prop where
  lines : lines content = leading ++ files.flatMap FileDiff.lines
  leading : ∀ line ∈ leading, isDiffHeader line = false

/-! ## Lines of a body -/

variable {h : Hunk} {f : FileDiff}

theorem Hunk.isHunkHeader_header (h : Hunk) : isHunkHeader h.header = true := by
  obtain ⟨oldRange, newRange, heading, -, -, hheader⟩ := h.declares
  rw [hheader]
  rfl

theorem Hunk.isDiffHeader_header (h : Hunk) : isDiffHeader h.header = false := by
  obtain ⟨oldRange, newRange, heading, -, -, hheader⟩ := h.declares
  rw [hheader]
  rfl

/-- A line of a hunk is no header. -/
theorem Hunk.not_header (h : Hunk) {line : List Char} (hline : line ∈ h.body) :
    isHunkHeader line = false ∧ isDiffHeader line = false := by
  have hsign := h.signs line hline
  cases line with
  | nil => cases hsign
  | cons c line =>
    have hc : c = '+' ∨ c = '-' ∨ c = ' ' ∨ c = '\\' := by simpa [hasSign] using hsign
    rcases hc with rfl | rfl | rfl | rfl <;> exact ⟨rfl, rfl⟩

/-- A line of a body starts with one of these signs, and is no header of a file. -/
theorem FileDiff.sign_of_mem_body {line : List Char} (hline : line ∈ f.body) :
    hasSign ['+', '-', ' ', '\\', '@'] line = true ∧ isDiffHeader line = false := by
  obtain ⟨h, -, hmem⟩ := List.mem_flatMap.mp hline
  rcases List.mem_cons.mp hmem with rfl | hmem
  · refine ⟨?_, h.isDiffHeader_header⟩
    obtain ⟨oldRange, newRange, heading, -, -, hheader⟩ := h.declares
    rw [hheader]
    rfl
  · refine ⟨?_, (h.not_header hmem).2⟩
    have hsign := h.signs line hmem
    cases line with
    | nil => cases hsign
    | cons c line => simp [hasSign] at hsign ⊢; tauto

/-! ## Parsing -/

theorem foldl_extended (segments : List Segment) (seg : Segment) {ls : List (List Char)}
    (h : ∀ line ∈ ls, isDiffHeader line = false ∧ isHunkHeader line = false) :
    ls.foldl parseLine ⟨segments, some seg, false⟩ =
      ⟨segments, some { seg with headerLines := seg.headerLines ++ ls }, false⟩ := by
  induction ls generalizing seg with
  | nil => simp
  | cons line ls ih =>
    obtain ⟨⟨hdiff, hhunk⟩, hrest⟩ := List.forall_mem_cons.mp h
    rw [List.foldl_cons, parseLine, hdiff]
    simp [hhunk, ih _ hrest]

theorem foldl_body (segments : List Segment) (seg : Segment) {ls : List (List Char)}
    (h : ∀ line ∈ ls, isDiffHeader line = false) :
    ls.foldl parseLine ⟨segments, some seg, true⟩ =
      ⟨segments, some { seg with bodyLines := seg.bodyLines ++ ls }, true⟩ := by
  induction ls generalizing seg with
  | nil => simp
  | cons line ls ih =>
    obtain ⟨hdiff, hrest⟩ := List.forall_mem_cons.mp h
    rw [List.foldl_cons, parseLine, hdiff]
    simp [ih _ hrest]

theorem foldl_file (s : Parsing) (f : FileDiff) : ∃ inBody, f.lines.foldl parseLine s =
    ⟨s.segments ++ s.current.toList, some f.segment, inBody⟩ := by
  have hopen : parseLine s f.header = ⟨s.segments ++ s.current.toList,
      some ⟨parseNewPath f.header, [f.header], []⟩, false⟩ := by
    rw [parseLine, if_pos f.opens]
  have hbody : ∀ line ∈ f.body, isDiffHeader line = false := fun line hline =>
    (f.sign_of_mem_body hline).2
  unfold FileDiff.lines FileDiff.headerLines
  rw [List.cons_append, List.foldl_cons, hopen, List.foldl_append, foldl_extended _ _ f.plain]
  unfold FileDiff.segment FileDiff.headerLines
  cases hhunks : f.hunks with
  | nil => exact ⟨false, by simp [FileDiff.body, hhunks]⟩
  | cons h hunks =>
    have hcons : f.body = h.header :: (h.body ++ hunks.flatMap fun h => h.header :: h.body) := by
      simp [FileDiff.body, hhunks]
    rw [hcons] at hbody ⊢
    obtain ⟨hfirst, hrest⟩ := List.forall_mem_cons.mp hbody
    rw [List.foldl_cons, parseLine, hfirst]
    simp only [Bool.false_eq_true, if_false, h.isHunkHeader_header, if_true]
    rw [foldl_body _ _ hrest]
    exact ⟨true, by simp⟩

theorem foldl_files (s : Parsing) (files : List FileDiff) :
    ((files.flatMap FileDiff.lines).foldl parseLine s).segments ++
      ((files.flatMap FileDiff.lines).foldl parseLine s).current.toList =
        s.segments ++ s.current.toList ++ files.map FileDiff.segment := by
  induction files generalizing s with
  | nil => simp
  | cons f files ih =>
    obtain ⟨inBody, hfile⟩ := foldl_file s f
    rw [List.flatMap_cons, List.foldl_append, hfile, ih]
    simp

theorem foldl_leading (inBody : Bool) {ls : List (List Char)}
    (h : ∀ line ∈ ls, isDiffHeader line = false) :
    ls.foldl parseLine ⟨[], none, inBody⟩ = ⟨[], none, inBody⟩ := by
  induction ls with
  | nil => rfl
  | cons line ls ih =>
    obtain ⟨hdiff, hrest⟩ := List.forall_mem_cons.mp h
    rw [List.foldl_cons, parseLine, hdiff]
    exact ih hrest

variable {content : List Char} {leading : List (List Char)} {files : List FileDiff}

/-- **The files of a diff are found again.** -/
theorem parseSegments_diff (h : IsDiff content leading files) :
    parseSegments content = files.map FileDiff.segment := by
  unfold parseSegments
  rw [h.lines, List.foldl_append, foldl_leading _ h.leading]
  simpa using foldl_files ⟨[], none, false⟩ files

theorem leadingPreDiffLines_diff (h : IsDiff content leading files) :
    leadingPreDiffLines content = leading := by
  unfold leadingPreDiffLines
  rw [h.lines, List.takeWhile_append_of_pos (fun line hline => by simp [h.leading line hline])]
  cases files with
  | nil => simp
  | cons f files => simp [FileDiff.lines, FileDiff.headerLines, f.opens]

/-! ## Hunks -/

theorem foldl_splitStep_body (done : List (List (List Char))) {current ls : List (List Char)}
    (h : ∀ line ∈ ls, isHunkHeader line = false) :
      ls.foldl splitStep (done, current) = (done, current ++ ls) := by
  induction ls generalizing current with
  | nil => simp
  | cons line ls ih =>
    obtain ⟨hline, hrest⟩ := List.forall_mem_cons.mp h
    rw [List.foldl_cons, splitStep, if_neg (by simp [hline]), ih hrest, List.append_assoc,
      List.singleton_append]

theorem closeSlices_foldl (s : List (List (List Char)) × List (List Char)) (hunks : List Hunk) :
    closeSlices ((hunks.flatMap fun h => h.header :: h.body).foldl splitStep s) =
      closeSlices s ++ hunks.map fun h => h.header :: h.body := by
  induction hunks generalizing s with
  | nil => simp
  | cons h hunks ih =>
    have hstep : splitStep s h.header = (closeSlices s, [h.header]) := by
      unfold splitStep closeSlices
      by_cases hnil : s.2 = []
      · simp [hnil]
      · simp [hnil, h.isHunkHeader_header]
    rw [List.flatMap_cons, List.cons_append, List.foldl_cons, hstep, List.foldl_append,
      foldl_splitStep_body _ fun line hline => (h.not_header hline).1, ih]
    simp [closeSlices]

/-- **The hunks of a file are found again.** -/
theorem splitIntoHunks_body (f : FileDiff) :
    splitIntoHunks f.body = f.hunks.map fun h => h.header :: h.body := by
  unfold splitIntoHunks FileDiff.body
  rw [closeSlices_foldl]
  rfl

end Neoth.Compress
