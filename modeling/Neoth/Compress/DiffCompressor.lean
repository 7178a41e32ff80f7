import Neoth.Lib.Masks
import Neoth.Compress.Transform

/-!
# Diff compression

`DiffCompressor::apply` of `context/compress/diff_compressor.rs`.

* `parseSegments`: the files of a diff;
* `keepMask`, `trimContext`, `selectHunks`: what is kept of a file;
* `diffCompressor`: the whole pass;
* `marked_windowed`: which lines of a body the mask keeps.
-/

open Lib.Encoding Lib.Text Lib.Masks

namespace Neoth.Compress

/-! ## The code -/

structure DiffCompressorConfig where
  lockfileSuffixes : List (List Char)
  dropWhitespaceOnlyHunks : Bool
  contextLines : Nat
  maxFiles : Nat
  maxHunksPerFile : Nat

def DiffCompressorConfig.default : DiffCompressorConfig where
  lockfileSuffixes :=
    ["Cargo.lock", "package-lock.json", "yarn.lock", "pnpm-lock.yaml", "poetry.lock", "go.sum",
    "Gemfile.lock", "composer.lock"].map String.toList
  dropWhitespaceOnlyHunks := true
  contextLines := 3
  maxFiles := 20
  maxHunksPerFile := 8

def isDiffHeader (line : List Char) : Bool := "diff --git".toList.isPrefixOf line

def isHunkHeader (line : List Char) : Bool := "@@".toList.isPrefixOf line

structure Segment where
  newPath : List Char
  headerLines : List (List Char)
  bodyLines : List (List Char)

/-- What stands behind the last occurrence. -/
def afterLast (needle : List Char) : List Char → Option (List Char)
  | [] => none
  | c :: cs =>
    match afterLast needle cs with
    | some rest => some rest
    | none => if needle.isPrefixOf (c :: cs) then some ((c :: cs).drop needle.length) else none

def parseNewPath (header : List Char) : List Char := (afterLast " b/".toList header).getD []

structure Parsing where
  segments : List Segment
  current : Option Segment
  inBody : Bool

def parseLine (s : Parsing) (line : List Char) : Parsing :=
  if isDiffHeader line then
    ⟨s.segments ++ s.current.toList, some ⟨parseNewPath line, [line], []⟩, false⟩
  else match s.current with
    | none => s
    | some seg =>
      if s.inBody then { s with current := some { seg with bodyLines := seg.bodyLines ++ [line] } }
      else if isHunkHeader line then
        ⟨s.segments, some { seg with bodyLines := seg.bodyLines ++ [line] }, true⟩
      else { s with current := some { seg with headerLines := seg.headerLines ++ [line] } }

def parseSegments (content : List Char) : List Segment :=
  let s := (lines content).foldl parseLine ⟨[], none, false⟩
  s.segments ++ s.current.toList

def leadingPreDiffLines (content : List Char) : List (List Char) :=
  (lines content).takeWhile fun line => !isDiffHeader line

def isLockfile (cfg : DiffCompressorConfig) (path : List Char) : Bool :=
  !path.isEmpty && cfg.lockfileSuffixes.any fun suffix =>
    suffix.isSuffixOf path &&
      match (path.take (path.length - suffix.length)).getLast? with
      | none => true
      | some prev => prev == '/' || prev == '\\'

def isAsciiWhitespace (c : Char) : Bool := c == ' ' || c == '\t' || c == '\n' || c == '\x0c' ||
    c == '\r'

def stripWs (s : List Char) : List Char := s.filter (!isAsciiWhitespace ·)

/-- A line with this sign, unless the sign stands there three times. -/
def isSigned (sign : Char) (line : List Char) : Bool :=
  line.head? == some sign && !(List.replicate 3 sign).isPrefixOf line

def isChangeLine (line : List Char) : Bool := isSigned '+' line || isSigned '-' line

/-- The texts of the lines with this sign. -/
def signedTexts (sign : Char) (body : List (List Char)) : List (List Char) :=
  (body.filter (isSigned sign)).map fun line => stripWs line.tail

def bodyIsWhitespaceOnly (body : List (List Char)) : Bool :=
  body.any isChangeLine && signedTexts '+' body == signedTexts '-' body

/-- `for k in keep.iter_mut().take(hi + 1).skip(lo) { *k = true; }`. -/
def setRange (keep : List Bool) (lo hi : Nat) : List Bool := keep.mapIdx fun k b =>
  b || decide (lo ≤ k ∧ k ≤ hi)

def windowed (body : List (List Char)) (context : Nat) : List Bool :=
  let keep := body.map fun line => isHunkHeader line || isChangeLine line
  let changes := (List.range body.length).filter fun i => isChangeLine (body.getD i [])
  changes.foldl (fun keep c => setRange keep (c - context) (min (c + context) (body.length - 1)))
    keep

def trimmedLines (marker : String) (dropped : Nat) : List Char :=
  "[… ".toList ++ Nat.toDigits 10 dropped ++ " context lines trimmed — retrieve ".toList ++
    marker.toList ++ " …]".toList

/-- The body, and whether a line is missing. -/
def trimContext (body : List (List Char)) (context : Nat) (marker : String) :
    List (List Char) × Bool :=
  let keep := windowed body context
  (collapse (trimmedLines marker) (body.zip keep), keep.any (!·))

/-! ### Hunks -/

/-- The finished slices and the one that goes on. -/
def splitStep (s : List (List (List Char)) × List (List Char)) (line : List Char) :
    List (List (List Char)) × List (List Char) :=
  if s.2 ≠ [] ∧ isHunkHeader line then (s.1 ++ [s.2], [line]) else (s.1, s.2 ++ [line])

def closeSlices (s : List (List (List Char)) × List (List Char)) : List (List (List Char)) :=
  if s.2 = [] then s.1 else s.1 ++ [s.2]

def splitIntoHunks (body : List (List Char)) : List (List (List Char)) :=
  closeSlices (body.foldl splitStep ([], []))

def priorityPatterns : List (List Char) :=
  ["test", "error", "auth", "security", "token", "permission", "panic", "unsafe", "secret", "crypt",
    "admin", "fix"].map String.toList

/-- The `f32` that `hunk_score` adds up, by its place in the order of `total_cmp`: from the number
of changed lines, the number of query words that occur, and whether a pattern does. -/
class HunkScore where
  place : Nat → Nat → Bool → Int

section
variable [HunkScore]

def hunkScore (hunk : List (List Char)) (queryWords : List (List Char)) : Int :=
  let joined :=
    ['\n'].intercalate (hunk.map fun line => (toAsciiLowercase (String.ofList line)).toList)
  HunkScore.place (hunk.countP isChangeLine) (queryWords.countP fun w => decide (w <:+: joined))
    (priorityPatterns.any fun p => decide (p <:+: joined))

def selectHunks (hunks : List (List (List Char))) (queryWords : List (List Char)) (cap : Nat) :
    Finset Nat :=
  let n := hunks.length
  let keep : Finset Nat := {0, n - 1}
  let scored := ((List.range (n - 1)).drop 1).map fun i =>
    (i, hunkScore (hunks.getD i []) queryWords)
  let sorted := scored.mergeSort fun a b => b.2 ≤ a.2
  keep ∪ ((sorted.take (cap - keep.card)).map Prod.fst).toFinset

structure HunkOutput where
  out : List (List Char)
  changed : Bool
  lastDropped : Bool

def keepHunk (keep : Finset Nat) (context : Nat) (marker : String) (s : HunkOutput)
    (hunk : List (List Char) × Nat) : HunkOutput :=
  if hunk.2 ∈ keep then
    let trimmed := trimContext hunk.1 context marker
    ⟨s.out ++ trimmed.1, s.changed || trimmed.2, false⟩
  else if s.lastDropped then s
  else
    ⟨s.out ++ ["[… less-relevant hunks dropped — retrieve ".toList ++ marker.toList ++
      " …]".toList], true, true⟩

/-! ### Files -/

variable (cfg : DiffCompressorConfig) (queryWords : List (List Char)) (marker : String)

def droppedHunk (reason : String) (count : Nat) : List Char :=
  "[diff_compressor: ".toList ++ reason.toList ++ " hunk dropped (".toList ++
    Nat.toDigits 10 count ++ " lines) — retrieve ".toList ++ marker.toList ++ "]".toList

/-- What stands for the body of a file, and whether it differs from the body. -/
def segmentBody (seg : Segment) : List (List Char) × Bool :=
  if isLockfile cfg seg.newPath then ([droppedHunk marker "lockfile" seg.bodyLines.length], true)
  else if cfg.dropWhitespaceOnlyHunks && bodyIsWhitespaceOnly seg.bodyLines then
    ([droppedHunk marker "whitespace-only" seg.bodyLines.length], true)
  else
    let hunks := splitIntoHunks seg.bodyLines
    if hunks.length ≤ cfg.maxHunksPerFile then trimContext seg.bodyLines cfg.contextLines marker
    else
      let keep := selectHunks hunks queryWords cfg.maxHunksPerFile
      let s := hunks.zipIdx.foldl (keepHunk keep cfg.contextLines marker) ⟨[], false, false⟩
      (s.out, s.changed)

def moreFiles (remaining : Nat) : List Char :=
  "[… ".toList ++ Nat.toDigits 10 remaining ++ " more changed files trimmed — retrieve ".toList ++
    marker.toList ++ " …]".toList

/-- The loop over the segments, of which `idx` are behind it. -/
def compressSegments : Nat → List Segment → List (List Char) × Bool
  | _, [] => ([], false)
  | idx, seg :: rest =>
    if cfg.maxFiles ≤ idx then ([moreFiles marker (rest.length + 1)], true)
    else
      let body := segmentBody cfg queryWords marker seg
      let others := compressSegments (idx + 1) rest
      (seg.headerLines ++ body.1 ++ others.1, body.2 || others.2)

end

def queryWordsOf (query : List Char) : List (List Char) :=
  ((splitWhitespace query).filter fun w => 3 ≤ bytes w).map fun w =>
    (toAsciiLowercase (String.ofList w)).toList

def diffCompressor [HunkScore] [Sha256] {S : Type} [CcrStore S] (cfg : DiffCompressorConfig)
    (content query : List Char) (store : S) : Except TransformError (OffloadOutput × S) :=
  let segments := parseSegments content
  if segments = [] then .error (.skipped "diff_compressor" "no diff sections")
  else
    let key := computeKey content
    let body := compressSegments cfg (queryWordsOf query) (markerFor key) 0 segments
    let out := restoreEnd content ((leadingPreDiffLines content ++ body.1).flatMap (· ++ ['\n']))
    if body.2 = false ∨ bytes content ≤ bytes out
      then .error (.skipped "diff_compressor" "nothing droppable")
    else .ok (.fromLengths (bytes content) out key, CcrStore.put store key content)

/-! ## Windows -/

@[simp] theorem length_setRange (keep : List Bool) (lo hi : Nat) :
    (setRange keep lo hi).length = keep.length := by
  simp [setRange]

theorem marked_setRange {keep : List Bool} {lo hi k : Nat} :
    Marked (setRange keep lo hi) k ↔ Marked keep k ∨ k < keep.length ∧ lo ≤ k ∧ k ≤ hi := by
  unfold Marked setRange
  by_cases hk : k < keep.length
  · simp [hk]
  · simp [hk]

theorem marked_foldl_setRange {keep : List Bool} {n : Nat} (lo hi : Nat → Nat) (cs : List Nat)
    (hlen : keep.length = n)
    (k : Nat) : Marked (cs.foldl (fun keep c => setRange keep (lo c) (hi c)) keep) k ↔
      Marked keep k ∨ k < n ∧ ∃ c ∈ cs, lo c ≤ k ∧ k ≤ hi c := by
  induction cs generalizing keep with
  | nil => simp
  | cons c cs ih =>
    rw [List.foldl_cons, ih (by simpa using hlen), marked_setRange, hlen]
    simp only [List.mem_cons, exists_eq_or_imp, and_or_left, or_assoc]

theorem length_windowed (body : List (List Char)) (context : Nat) :
    (windowed body context).length = body.length := by
  unfold windowed
  dsimp only
  generalize List.filter _ _ = cs
  generalize hkeep : body.map _ = keep
  have hlen : keep.length = body.length := by rw [← hkeep, List.length_map]
  clear hkeep
  induction cs generalizing keep with
  | nil => exact hlen
  | cons c cs ih => exact ih _ (by simpa using hlen)

/-- **The mask keeps the hunk headers, and what is near a line that it takes for a change.** -/
theorem marked_windowed {body : List (List Char)} {context k : Nat} {line : List Char}
    (hline : body[k]? = some line) : Marked (windowed body context) k ↔ isHunkHeader line = true ∨
      ∃ c change, body[c]? = some change ∧ isChangeLine change = true ∧ c - context ≤ k ∧
      k ≤ c + context := by
  have hk := (List.getElem?_eq_some_iff.mp hline).1
  unfold windowed
  dsimp only
  rw [marked_foldl_setRange (n := body.length) (fun c => c - context)
    (fun c => min (c + context) (body.length - 1)) _ (by simp) k]
  have hmap : Marked (body.map fun line => isHunkHeader line || isChangeLine line) k ↔
      isHunkHeader line = true ∨ isChangeLine line = true := by
    simp [Marked, hline]
  rw [hmap]
  have hchange : (∃ c ∈ (List.range body.length).filter fun i => isChangeLine (body.getD i []),
      c - context ≤ k ∧ k ≤ min (c + context) (body.length - 1)) ↔
        ∃ c change, body[c]? = some change ∧ isChangeLine change = true ∧ c - context ≤ k ∧
        k ≤ c + context := by
    constructor
    · rintro ⟨c, hc, hlo, hhi⟩
      obtain ⟨hrange, hchange⟩ := List.mem_filter.mp hc
      have hc := List.mem_range.mp hrange
      exact ⟨c, body[c], List.getElem?_eq_getElem hc, by simpa [hc] using hchange, hlo, by omega⟩
    · rintro ⟨c, change, hc, hchange, hlo, hhi⟩
      obtain ⟨hlt, rfl⟩ := List.getElem?_eq_some_iff.mp hc
      exact ⟨c, List.mem_filter.mpr ⟨List.mem_range.mpr hlt, by simpa [hlt] using hchange⟩,
        hlo, by omega⟩
  rw [hchange, and_iff_right hk, or_assoc]
  refine or_congr_right ⟨?_, .inr⟩
  rintro (hself | hnear)
  · exact ⟨k, line, hline, hself, by omega, by omega⟩
  · exact hnear

end Neoth.Compress
