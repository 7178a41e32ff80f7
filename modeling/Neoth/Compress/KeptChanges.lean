import Neoth.Compress.GitDiff

/-!
# When a diff keeps its changes

* `KeepsChanges`: only context lines are gone from the body of a file, each run of them with its
  length;
* `Recognised`: the code sees every change of the file, or has it in the window of one that it sees;
* **`diffCompressor_keeps_iff`**: the two are the same.
-/

open Lib.Text Lib.Masks

namespace Neoth.Compress

/-- The texts of the added lines are those of the removed ones, up to white space. -/
def TextsEqual (f : FileDiff) : Prop :=
  ((f.body.filter (hasSign ['+'])).map fun line => stripWs line.tail) =
    (f.body.filter (hasSign ['-'])).map fun line => stripWs line.tail

def isContext (line : List Char) : Bool := hasSign [' '] line

/-- `out` is the body, where runs of context lines are replaced by their length. -/
def KeepsChanges (marker : String) (f : FileDiff) (out : List (List Char)) : Prop :=
  ∃ mask : List Bool, mask.length = f.body.length ∧
  Collapsed (trimmedLines marker) (f.body.zip mask) out ∧
    ∀ k line, f.body[k]? = some line → isContext line = false → Marked mask k

structure Recognised (cfg : DiffCompressorConfig) (f : FileDiff) : Prop where
  /-- What the code takes for changes is not whitespace only. -/
  texts : cfg.dropWhitespaceOnlyHunks = true → bodyIsWhitespaceOnly f.body = false
  /-- A line that is neither context nor a hunk header is close to what the code takes for a
  change. -/
  near : ∀ k line, f.body[k]? = some line → isContext line = false → isHunkHeader line = false →
    ∃ c change, f.body[c]? = some change ∧ isChangeLine change = true ∧ c - cfg.contextLines ≤ k ∧
      k ≤ c + cfg.contextLines

/-! ## Counting what is kept -/

section
variable {A : Type} {mark : Nat → A} {xs : List (A × Bool)} {out : List A}

theorem countP_collapsed {p : A → Bool} (h : Collapsed mark xs out)
    (hmark : ∀ n, p (mark n) = false) : out.countP p = xs.countP fun x => x.2 && p x.1 := by
  induction h with
  | nil => rfl
  | keep a _ ih => simp [List.countP_cons, ih]
  | drop hrun hend _ ih => simp [List.countP_append, hmark, ih, Function.comp_def]

theorem mem_of_collapsed (h : Collapsed mark xs out) {a : A} (ha : (a, true) ∈ xs) : a ∈ out := by
  induction h with
  | nil => cases ha
  | keep b _ ih =>
    rcases List.mem_cons.mp ha with heq | ha
    · exact List.mem_cons.mpr (.inl (Prod.mk.inj heq).1)
    · exact List.mem_cons_of_mem _ (ih ha)
  | drop hrun hend _ ih =>
    rcases List.mem_append.mp ha with ha | ha
    · simp at ha
    · exact List.mem_cons_of_mem _ (ih ha)

theorem kept_of_countP {p : A → Bool}
    (h : xs.countP (fun x => x.2 && p x.1) = (xs.map Prod.fst).countP p) :
    ∀ x ∈ xs, p x.1 = true → x.2 = true := by
  have hsplit : ∀ xs : List (A × Bool), (xs.map Prod.fst).countP p =
      xs.countP (fun x => x.2 && p x.1) + xs.countP fun x => !x.2 && p x.1 := by
    intro xs
    induction xs with
    | nil => rfl
    | cons x xs ih =>
      obtain ⟨a, k⟩ := x
      cases k <;> simp [List.countP_cons, ih] <;> omega
  have hnone : (xs.countP fun x => !x.2 && p x.1) = 0 := by
    have := hsplit xs
    omega
  intro x hx hp
  by_contra hk
  exact List.countP_eq_zero.mp hnone x hx (by simp [hk, hp])

end

/-! ## One file -/

variable {f : FileDiff} {marker : String}

/-- No line of a body looks like a mark. -/
theorem mark_ne_body {line : List Char} (h : line ∈ f.body) : line.head? ≠ some '[' := by
  have hsign := (f.sign_of_mem_body h).1
  intro hhead
  rw [hasSign, hhead] at hsign
  exact absurd hsign (by decide)

theorem mem_zip_of_marked {body : List (List Char)} {mask : List Bool} {k : Nat} {line : List Char}
    (hline : body[k]? = some line) (hk : Marked mask k) : (line, true) ∈ body.zip mask :=
  List.mem_of_getElem? (List.getElem?_zip_eq_some.mpr ⟨hline, hk⟩)

/-- **Trimming keeps the changes if and only if each is close to one that the code sees.** -/
theorem keepsChanges_trimmed_iff (context : Nat) :
    KeepsChanges marker f (trimContext f.body context marker).1 ↔
      ∀ k line, f.body[k]? = some line → isContext line = false → isHunkHeader line = false →
        ∃ c change, f.body[c]? = some change ∧ isChangeLine change = true ∧ c - context ≤ k ∧
        k ≤ c + context := by
  have hlen := length_windowed f.body context
  unfold trimContext
  dsimp only
  constructor
  · rintro ⟨mask, hmask, hcollapsed, hkept⟩ k line hline hcontext hheader
    -- the lines that are neither context nor a mark: the body has as many of them as the output
    let p : List Char → Bool := fun line => !isContext line && !hasSign ['['] line
    have hmarks : ∀ n, p (trimmedLines marker n) = false := fun n => rfl
    have hout := countP_collapsed hcollapsed hmarks
    have hcode :=
      countP_collapsed (collapse_spec (trimmedLines marker) (f.body.zip (windowed f.body context)))
        hmarks
    have hall : (f.body.zip mask).countP (fun x => x.2 && p x.1) =
        ((f.body.zip mask).map Prod.fst).countP p := by
      rw [List.countP_map]
      refine List.countP_congr fun x hx => ?_
      obtain ⟨i, hi⟩ := List.getElem?_of_mem hx
      obtain ⟨hbody, hbit⟩ := List.getElem?_zip_eq_some.mp hi
      by_cases hp : p x.1 = true
      · have hcontext : isContext x.1 = false := by
          have := (Bool.and_eq_true_iff.mp hp).1
          simpa using this
        have hmarked := hkept i x.1 hbody hcontext
        have hx2 : x.2 = true := Option.some.inj (hbit.symm.trans hmarked)
        simp [hx2]
      · simp [hp]
    have hfst : ∀ mask : List Bool, mask.length = f.body.length →
        (f.body.zip mask).map Prod.fst = f.body :=
      fun mask h => List.map_fst_zip h.ge
    rw [hout, hall, hfst mask hmask] at hcode
    have hi := (List.getElem?_eq_some_iff.mp hline).1
    have hbit :
        (windowed f.body context)[k]? = some ((windowed f.body context).get ⟨k, hlen ▸ hi⟩) :=
      List.getElem?_eq_getElem _
    have hzip := List.mem_of_getElem? (List.getElem?_zip_eq_some (z := (line, _)).mpr ⟨hline, hbit⟩)
    have hp : p line = true := by
      have hne := mark_ne_body (List.mem_of_getElem? hline)
      have hbracket : hasSign ['['] line = false := by
        unfold hasSign
        cases hhead : line.head? with
        | none => rfl
        | some c =>
          have hc : c ≠ '[' := fun h => hne (by rw [hhead, h])
          simp [hc]
      simp [p, hcontext, hbracket]
    have hkeep := kept_of_countP (by rw [hfst _ hlen, ← hcode]) _ hzip hp
    have hmarked : Marked (windowed f.body context) k := by
      unfold Marked
      rw [hbit]
      exact congrArg some hkeep
    exact ((marked_windowed hline).mp hmarked).resolve_left (by simp [hheader])
  · intro hnear
    refine ⟨windowed f.body context, hlen, collapse_spec _ _, ?_⟩
    intro k line hline hcontext
    rw [marked_windowed hline]
    by_cases hheader : isHunkHeader line = true
    · exact .inl hheader
    · exact .inr (hnear k line hline hcontext (by simpa using hheader))

section
variable [HunkScore] {cfg : DiffCompressorConfig} {words : List (List Char)}

/-- What the output holds in place of the body of a file. -/
def fileBody (cfg : DiffCompressorConfig) (words : List (List Char)) (marker : String)
    (f : FileDiff) : List (List Char) := (segmentBody cfg words marker f.segment).1

theorem keepsChanges_iff (hlock : isLockfile cfg (parseNewPath f.header) = false)
    (hhunks : f.hunks.length ≤ cfg.maxHunksPerFile) :
    KeepsChanges marker f (fileBody cfg words marker f) ↔ Recognised cfg f := by
  have hsplit : (splitIntoHunks f.body).length = f.hunks.length := by
    rw [splitIntoHunks_body, List.length_map]
  unfold fileBody segmentBody
  simp only [FileDiff.segment, hlock, Bool.false_eq_true, if_false, hsplit, hhunks, if_true]
  by_cases hspace : (cfg.dropWhitespaceOnlyHunks && bodyIsWhitespaceOnly f.body) = true
  · rw [if_pos hspace]
    obtain ⟨hdrop, hbody⟩ := Bool.and_eq_true_iff.mp hspace
    refine iff_of_false ?_ fun h => ?_
    · rintro ⟨mask, -, hcollapsed, hkept⟩
      -- a change that the code sees would have to be in the output
      obtain ⟨change, hmem, hchange⟩ := List.any_eq_true.mp (Bool.and_eq_true_iff.mp hbody).1
      obtain ⟨k, hk⟩ := List.getElem?_of_mem hmem
      have hcontext : isContext change = false := by
        unfold isContext hasSign
        unfold isChangeLine isSigned at hchange
        cases hhead : change.head? with
        | none => rfl
        | some c =>
          rw [hhead] at hchange
          have hc : c ≠ ' ' := by
            rintro rfl
            simp at hchange
          simp [hc]
      have hout := mem_of_collapsed hcollapsed (mem_zip_of_marked hk (hkept k change hk hcontext))
      refine mark_ne_body hmem ?_
      rw [List.mem_singleton.mp hout]
      rfl
    · rw [h.texts hdrop] at hbody
      cases hbody
  · rw [if_neg hspace, keepsChanges_trimmed_iff]
    refine ⟨fun h => ⟨fun hdrop => ?_, h⟩, fun h => h.near⟩
    simpa [hdrop] using hspace

/-! ## The diff -/

theorem compressSegments_eq (idx : Nat) (segs : List Segment) (hidx : idx ≤ cfg.maxFiles) :
    (compressSegments cfg words marker idx segs).1 =
      ((segs.take (cfg.maxFiles - idx)).flatMap fun seg => seg.headerLines ++
        (segmentBody cfg words marker seg).1) ++
        if cfg.maxFiles < idx + segs.length then
          [moreFiles marker (idx + segs.length - cfg.maxFiles)] else [] := by
  induction segs generalizing idx with
  | nil => simp [compressSegments, hidx]
  | cons seg segs ih =>
    unfold compressSegments
    rcases Nat.lt_or_ge idx cfg.maxFiles with hlt | hge
    · obtain ⟨room, hroom⟩ : ∃ room, cfg.maxFiles - idx = room + 1 :=
        ⟨cfg.maxFiles - idx - 1, by omega⟩
      have hnext : cfg.maxFiles - (idx + 1) = room := by omega
      rw [if_neg (not_le.mpr hlt), hroom, List.take_succ_cons, List.flatMap_cons]
      dsimp only
      rw [ih (idx + 1) hlt, hnext, List.length_cons, Nat.add_right_comm idx 1, ← Nat.add_assoc]
      simp only [List.append_assoc]
    · obtain rfl : idx = cfg.maxFiles := by omega
      simp

/-- **Every file within the cap keeps its header; a file that is neither a lockfile nor over the cap
of hunks keeps its changes, and loses nothing but counted runs of context, if and only if the code
recognises them.** -/
theorem diffCompressor_keeps_iff [Sha256] {S : Type} [CcrStore S] {content query : List Char}
    {store store' : S}
    {out : OffloadOutput} {leading : List (List Char)} {files : List FileDiff}
    (hdiff : IsDiff content leading files)
    (h : diffCompressor cfg content query store = .ok (out, store')) :
    out.output = joinLines content (leading ++ ((files.take cfg.maxFiles).flatMap fun f =>
      f.headerLines ++ fileBody cfg (queryWordsOf query) (markerFor (computeKey content)) f) ++
        if cfg.maxFiles < files.length then
          [moreFiles (markerFor (computeKey content)) (files.length - cfg.maxFiles)]
        else []) ∧
      ∀ f ∈ files.take cfg.maxFiles, isLockfile cfg (parseNewPath f.header) = false →
        f.hunks.length ≤ cfg.maxHunksPerFile →
          (KeepsChanges (markerFor (computeKey content)) f
            (fileBody cfg (queryWordsOf query) (markerFor (computeKey content)) f) ↔
            Recognised cfg f) := by
  refine ⟨?_, fun f _ hlock hhunks => keepsChanges_iff hlock hhunks⟩
  unfold diffCompressor at h
  dsimp only at h
  split_ifs at h
  obtain ⟨rfl, -⟩ := Prod.mk.inj (Except.ok.inj h)
  refine (restoreEnd_lines content _).trans ?_
  rw [leadingPreDiffLines_diff hdiff, parseSegments_diff hdiff,
    compressSegments_eq 0 _ (Nat.zero_le _), List.append_assoc, List.length_map, Nat.zero_add,
    Nat.sub_zero, ← List.map_take, List.flatMap_map]
  rfl

end

/-! ## Samples -/

/-- The score in hundredths. -/
@[reducible] def sampleScore : HunkScore :=
  ⟨fun changes overlap boost => min (3 * changes) 30 + 20 * overlap + if boost then 30 else 0⟩

def counterHeader : List Char := "@@ -1,41 +1,42 @@".toList

/-- A change, and twenty lines behind it another line that is added. -/
def counterBody (added : List Char) : List (List Char) :=
  ["-a".toList, "+b".toList] ++ List.replicate 20 " keep".toList ++ ['+' :: added] ++
    List.replicate 20 " keep".toList

theorem declares_counterBody (added : List Char) : Declares counterHeader
    ((counterBody added).countP (hasSign [' ', '-']))
      ((counterBody added).countP (hasSign [' ', '+'])) := by
  have hold : (counterBody added).countP (hasSign [' ', '-']) = 41 := rfl
  have hnew : (counterBody added).countP (hasSign [' ', '+']) = 42 := rfl
  rw [hold, hnew]
  exact ⟨"1,41".toList, "1,42".toList, [], ⟨1, .inl (by decide)⟩, ⟨1, .inl (by decide)⟩, by decide⟩

theorem signs_counterBody (added : List Char) :
    ∀ line ∈ counterBody added, hasSign ['+', '-', ' ', '\\'] line = true := by
  have hkeep : ∀ line ∈ List.replicate 20 " keep".toList,
      hasSign ['+', '-', ' ', '\\'] line = true := by decide
  unfold counterBody
  simp only [List.forall_mem_append, List.forall_mem_cons]
  exact ⟨⟨⟨⟨rfl, rfl, by simp⟩, hkeep⟩, rfl, by simp⟩, hkeep⟩

theorem opens_counter : isDiffHeader "diff --git a/counter.c b/counter.c".toList = true := by decide

theorem plain_counter : ∀ line ∈ ["--- a/counter.c".toList, "+++ b/counter.c".toList],
    isDiffHeader line = false ∧ isHunkHeader line = false := by decide

def counterFile (added : List Char) : FileDiff where
  header := "diff --git a/counter.c b/counter.c".toList
  extended := ["--- a/counter.c".toList, "+++ b/counter.c".toList]
  hunks := [⟨counterHeader, counterBody added, declares_counterBody added, signs_counterBody added⟩]
  opens := opens_counter
  plain := plain_counter

def counterDiff (added : List Char) : List Char := ['\n'].intercalate (counterFile added).lines

attribute [local instance] sampleScore

/-- The compression succeeds on a diff. -/
def isCompressed (content : List Char) : Bool :=
  (@diffCompressor sampleScore Sha256.fips _ _ .default content []
    ([] : List (String × List Char))).isOk

theorem exists_of_isCompressed (content : List Char) (h : isCompressed content = true) :
    ∃ out store',
    @diffCompressor sampleScore Sha256.fips _ _ .default content []
      ([] : List (String × List Char)) = .ok (out, store') := by
  unfold isCompressed at h
  revert h
  cases @diffCompressor sampleScore Sha256.fips _ _ .default content []
    ([] : List (String × List Char)) with
  | error e => exact fun h => absurd h (by simp [Except.isOk, Except.toBool])
  | ok result => exact fun _ => ⟨result.1, result.2, rfl⟩

/-- A line that is added far from the first change, and kept. -/
theorem diffCompressor_keeps_iff_sample : ∃ out store',
    @diffCompressor sampleScore Sha256.fips _ _ .default (counterDiff "i;".toList) []
      ([] : List (String × List Char)) = .ok (out, store') ∧
    KeepsChanges (markerFor (@computeKey Sha256.fips (counterDiff "i;".toList)))
      (counterFile "i;".toList)
      (@fileBody sampleScore .default (queryWordsOf [])
        (markerFor (@computeKey Sha256.fips (counterDiff "i;".toList)))
        (counterFile "i;".toList)) := by
  obtain ⟨out, store', h⟩ := exists_of_isCompressed (counterDiff "i;".toList) (by
    unfold isCompressed
    rw [Sha256.fips_eq]
    decide +kernel)
  have hdiff : IsDiff (counterDiff "i;".toList) [] [counterFile "i;".toList] :=
    ⟨by decide +kernel, by simp⟩
  refine ⟨out, store', h,
    ((@diffCompressor_keeps_iff sampleScore _ Sha256.fips _ _ _ _ _ _ _ _ _ hdiff h).2
    (counterFile "i;".toList) (by simp [DiffCompressorConfig.default]) (by decide +kernel)
      (by decide)).mpr ?_⟩
  refine ⟨fun _ => by decide +kernel, fun k line hline hcontext hheader => ?_⟩
  -- whatever is neither context nor a header is seen as a change
  have hseen : ∀ line ∈ (counterFile "i;".toList).body,
      isContext line = false → isHunkHeader line = false → isChangeLine line = true := by
        decide +kernel
  exact ⟨k, line, hline, hseen line (List.mem_of_getElem? hline) hcontext hheader, Nat.sub_le _ _,
    Nat.le_add_right _ _⟩

/-- An added line that starts with two plus signs is trimmed as context. -/
theorem increment_is_trimmed :
    ¬∀ content query (store : List (String × List Char)) out store' leading files,
    IsDiff content leading files →
      @diffCompressor sampleScore Sha256.fips _ _ .default content query store = .ok (out, store') →
        ∀ f ∈ files.take DiffCompressorConfig.default.maxFiles,
          isLockfile .default (parseNewPath f.header) = false →
          f.hunks.length ≤ DiffCompressorConfig.default.maxHunksPerFile → ¬TextsEqual f →
            KeepsChanges (markerFor (@computeKey Sha256.fips content)) f
              (@fileBody sampleScore .default
              (queryWordsOf query) (markerFor (@computeKey Sha256.fips content)) f) := by
  intro hall
  obtain ⟨out, store', h⟩ := exists_of_isCompressed (counterDiff "++i;".toList) (by
    unfold isCompressed
    rw [Sha256.fips_eq]
    decide +kernel)
  have hdiff : IsDiff (counterDiff "++i;".toList) [] [counterFile "++i;".toList] :=
    ⟨by decide +kernel, by simp⟩
  have hkept := hall _ [] [] out store' [] _ hdiff h (counterFile "++i;".toList)
    (by simp [DiffCompressorConfig.default])
    (by decide +kernel) (by decide) (by unfold TextsEqual; decide +kernel)
  have hseen := (keepsChanges_iff (by decide +kernel) (by decide)).mp hkept
  obtain ⟨c, change, hc, hchange, hlo, hhi⟩ :=
    hseen.near 23 "+++i;".toList (by decide +kernel) (by decide) (by decide)
  have hnone : ∀ c < 27, 20 ≤ c → ∀ line ∈ (counterFile "++i;".toList).body[c]?,
      isChangeLine line = false := by
    decide +kernel
  change c - 3 ≤ 23 at hlo
  change 23 ≤ c + 3 at hhi
  rw [hnone c (by omega) (by omega) change hc] at hchange
  cases hchange

end Neoth.Compress
