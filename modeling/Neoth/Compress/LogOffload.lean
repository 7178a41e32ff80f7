import Neoth.Lib.Binary32
import Neoth.Compress.TagProtector
import Neoth.Compress.Transform

/-!
# Log offload

`LogOffload::apply` of `context/compress/log_compressor.rs`: which lines of a log are kept.

* `windowMask`, `priorityScan`, `extendTraceBlocks`, `dedupWarnings`: the passes of the code over
  one mask;
* `marked_priorityScan`, `marked_extendTraceBlocks`, `marked_dedupWarnings`: what each pass keeps,
  one line at a time;
* `marked_keepMask`: what is kept in the end.
-/

open Lib.Encoding Lib.Text Lib.Masks

namespace Neoth.Compress

/-! ## The code -/

/-- `is_match` of `HIGH_RE`, `WARN_RE` and `LOW_RE`. -/
class LogPatterns where
  high : List Char → Bool
  warn : List Char → Bool
  low : List Char → Bool

structure LogOffloadConfig where
  minLines : Nat
  /-- The bits of an `f32`. -/
  highPriorityThreshold : UInt32
  maxKeptPriority : Nat
  headTail : Nat
  maxDistinctWarnings : Nat

def LogOffloadConfig.default : LogOffloadConfig where
  minLines := 50
  highPriorityThreshold := 0x3ECCCCCD
  maxKeptPriority := 50
  headTail := 3
  maxDistinctWarnings := 10

def warnKeyFrom (inDigits : Bool) : List Char → List Char
  | [] => []
  | c :: cs =>
    if c.isDigit then (if inDigits then [] else ['#']) ++ warnKeyFrom true cs
    else c :: warnKeyFrom false cs

def warnKey (line : List Char) : List Char := warnKeyFrom false line

/-! ### Stack traces -/

def isOpener (line : List Char) : Bool :=
  decide ("Traceback (most recent call last)".toList <:+: line)

def isContinuation (line : List Char) : Bool := line.head?.all fun c => c == ' ' || c == '\t'

def isFrame (line : List Char) : Bool :=
  let t := trimStart line
  "at ".toList.isPrefixOf t && t.contains '('

/-- The frame lines from `j` on, and the line that closes them. -/
def markBlock (keep : List Bool) (j : Nat) : List (List Char) → List Bool
  | [] => keep
  | line :: rest => if isContinuation line then markBlock (keep.set j true) (j + 1) rest
    else keep.set j true

def extendAt (ls : List (List Char)) (keep : List Bool) (i : Nat) : List Bool :=
  let line := ls.getD i []
  let keep := if isOpener line then markBlock (keep.set i true) (i + 1) (ls.drop (i + 1)) else keep
  if isFrame line then
    let keep := keep.set i true
    if 0 < i ∧ keep.getD (i - 1) false = false ∧ isFrame (ls.getD (i - 1) []) = false
      then keep.set (i - 1) true
    else keep
  else keep

def extendTraceBlocks (ls : List (List Char)) (keep : List Bool) : List Bool :=
  (List.range ls.length).foldl (extendAt ls) keep

/-! ### The passes -/

section
variable [LogPatterns] (cfg : LogOffloadConfig)

/-- The bits of 0.9, 0.6, 0.2 and 0.5. -/
def lineImportance (line : List Char) : UInt32 :=
  if LogPatterns.high line then 0x3F666666
  else if LogPatterns.warn line then 0x3F19999A
  else if LogPatterns.low line then 0x3E4CCCCD
  else 0x3F000000

/-- `line_importance(line) > self.config.high_priority_threshold`. -/
def isScored (line : List Char) : Bool :=
  Lib.Binary32.lt cfg.highPriorityThreshold (lineImportance line)

/-- `(0.55..0.75).contains(&line_importance(line))`. -/
def isWarn (line : List Char) : Bool :=
  !Lib.Binary32.lt (lineImportance line) 0x3F0CCCCD &&
  Lib.Binary32.lt (lineImportance line) 0x3F400000

def windowMask (n : Nat) : List Bool :=
  (List.range n).map fun i => decide (i < min cfg.headTail n ∨ n - cfg.headTail ≤ i)

def priorityScan (kept : Nat) : List (List Char × Bool) → List Bool
  | [] => []
  | (line, k) :: rest =>
    if k then true :: priorityScan kept rest
    else if cfg.maxKeptPriority ≤ kept then false :: rest.map Prod.snd
    else if isScored cfg line then true :: priorityScan (kept + 1) rest
    else false :: priorityScan kept rest

def dedupWarnings (seen : Finset (List Char)) : List (List Char × Bool) → List Bool
  | [] => []
  | (line, k) :: rest =>
    if k ∧ isWarn line then
      let key := warnKey line
      if key ∈ seen then false :: dedupWarnings seen rest
      else if cfg.maxDistinctWarnings ≤ seen.card then false :: dedupWarnings seen rest
      else true :: dedupWarnings (insert key seen) rest
    else k :: dedupWarnings seen rest

/-- The mask before the warnings are looked at. -/
def candidateMask (ls : List (List Char)) : List Bool :=
  extendTraceBlocks ls (priorityScan cfg 0 (ls.zip (windowMask cfg ls.length)))

variable [ProtectedTags]

def keepMask (content : List Char) : List Bool :=
  let ls := lines content
  let keep := dedupWarnings cfg ∅ (ls.zip (candidateMask cfg ls))
  if hasProtectedRegions content then List.zipWith (· || ·) keep (protectedLineMask content)
  else keep

def omittedLines (marker : String) (dropped : Nat) : List Char :=
  "[… ".toList ++ Nat.toDigits 10 dropped ++ " log lines omitted — retrieve ".toList ++
    marker.toList ++ " …]".toList

variable [Sha256] {S : Type} [CcrStore S]

def logOffload (content : List Char) (store : S) : Except TransformError (OffloadOutput × S) :=
  let ls := lines content
  if ls.length < cfg.minLines then .error (.skipped "log_offload" "below min_lines")
  else
    let keep := keepMask cfg content
    if ls.length ≤ keep.count true then .error (.skipped "log_offload" "nothing droppable")
    else
      let key := computeKey content
      let out :=
        restoreEnd content ((collapse (omittedLines (markerFor key)) (ls.zip keep)).flatMap
          (· ++ ['\n']))
      if bytes content ≤ bytes out then .error (.skipped "log_offload" "no byte savings")
      else .ok (.fromLengths (bytes content) out key, CcrStore.put store key content)

end

/-! ## Stack traces -/

@[simp] theorem length_markBlock (keep : List Bool) (j : Nat) (ls : List (List Char)) :
    (markBlock keep j ls).length = keep.length := by
  induction ls generalizing keep j with
  | nil => rfl
  | cons line ls ih =>
    unfold markBlock
    split
    · rw [ih, List.length_set]
    · exact List.length_set

@[simp] theorem length_extendAt (ls : List (List Char)) (keep : List Bool) (i : Nat) :
    (extendAt ls keep i).length = keep.length := by
  unfold extendAt
  dsimp only
  split_ifs <;> simp

@[simp] theorem length_extendTraceBlocks (ls : List (List Char)) (keep : List Bool) :
    (extendTraceBlocks ls keep).length = keep.length := by
  unfold extendTraceBlocks
  induction List.range ls.length generalizing keep with
  | nil => rfl
  | cons i is ih => rw [List.foldl_cons, ih, length_extendAt]

theorem marked_markBlock {ls : List (List Char)} {keep : List Bool} (hlen : keep.length = ls.length)
    (j k : Nat) : Marked (markBlock keep j (ls.drop j)) k ↔ Marked keep k ∨ j ≤ k ∧ k < ls.length ∧
      ∀ m, j ≤ m → m < k → isContinuation (ls.getD m []) = true := by
  rcases Nat.lt_or_ge j ls.length with hj | hj
  · rw [List.drop_eq_getElem_cons hj, markBlock]
    have hget : ls.getD j [] = ls[j] := by simp [hj]
    by_cases hcont : isContinuation ls[j] = true
    · rw [if_pos hcont, marked_markBlock (by simpa using hlen) (j + 1) k, marked_set, hlen,
        or_assoc]
      refine or_congr_right ⟨?_, ?_⟩
      · rintro (⟨rfl, hk⟩ | ⟨hle, hk, hall⟩)
        · exact ⟨le_rfl, hk, fun m hm hmk => absurd hm (not_le.mpr hmk)⟩
        · refine ⟨by omega, hk, fun m hm hmk => ?_⟩
          rcases Nat.eq_or_lt_of_le hm with rfl | hlt
          · rwa [hget]
          · exact hall m hlt hmk
      · rintro ⟨hle, hk, hall⟩
        rcases Nat.eq_or_lt_of_le hle with rfl | hlt
        · exact .inl ⟨rfl, hk⟩
        · exact .inr ⟨hlt, hk, fun m hm hmk => hall m (by omega) hmk⟩
    · rw [if_neg hcont, marked_set, hlen]
      refine or_congr_right ⟨?_, ?_⟩
      · rintro ⟨rfl, hk⟩
        exact ⟨le_rfl, hk, fun m hm hmk => absurd hm (not_le.mpr hmk)⟩
      · rintro ⟨hle, hk, hall⟩
        rcases Nat.eq_or_lt_of_le hle with rfl | hlt
        · exact ⟨rfl, hk⟩
        · exact absurd (hget ▸ hall j le_rfl hlt) hcont
  · rw [List.drop_eq_nil_of_le hj, markBlock]
    refine ⟨.inl, fun h => h.resolve_right ?_⟩
    rintro ⟨hle, hk, -⟩
    omega
termination_by ls.length - j

/-- The line `i` makes the code keep the line `k`: it opens a traceback whose frames go on up to
`k`, or it is a frame and `k` is this line or the header right above the first one. -/
def TracedBy (ls : List (List Char)) (i k : Nat) : Prop :=
  (isOpener (ls.getD i []) = true ∧ i ≤ k ∧ ∀ m, i < m → m < k →
    isContinuation (ls.getD m []) = true) ∨
    (isFrame (ls.getD i []) = true ∧ (k = i ∨ k + 1 = i ∧ isFrame (ls.getD k []) = false))

/-- The line `k` is part of a stack trace. -/
def InTrace (ls : List (List Char)) (k : Nat) : Prop := k < ls.length ∧ ∃ i < ls.length,
    TracedBy ls i k

variable {ls : List (List Char)} {keep : List Bool}

theorem marked_opened (hlen : keep.length = ls.length) (i k : Nat) :
    Marked (markBlock (keep.set i true) (i + 1) (ls.drop (i + 1))) k ↔
    Marked keep k ∨ k < ls.length ∧ i ≤ k ∧
      ∀ m, i < m → m < k → isContinuation (ls.getD m []) = true := by
  rw [marked_markBlock (by simpa using hlen) (i + 1) k, marked_set, hlen, or_assoc]
  refine or_congr_right ⟨?_, ?_⟩
  · rintro (⟨rfl, hk⟩ | ⟨hle, hk, hall⟩)
    · exact ⟨hk, le_rfl, fun m hm hmk => absurd hm (not_lt.mpr hmk.le)⟩
    · exact ⟨hk, by omega, hall⟩
  · rintro ⟨hk, hle, hall⟩
    rcases Nat.eq_or_lt_of_le hle with rfl | hlt
    · exact .inl ⟨rfl, hk⟩
    · exact .inr ⟨hlt, hk, hall⟩

variable {i : Nat}

theorem marked_framed (hlen : keep.length = ls.length) (hi : i < ls.length) (k : Nat) :
    Marked (if 0 < i ∧ (keep.set i true).getD (i - 1) false = false ∧
      isFrame (ls.getD (i - 1) []) = false then
      (keep.set i true).set (i - 1) true else keep.set i true) k ↔
        Marked keep k ∨ k < ls.length ∧ (k = i ∨ k + 1 = i ∧ isFrame (ls.getD k []) = false) := by
  have hset : Marked (keep.set i true) k ↔ Marked keep k ∨ k = i ∧ k < ls.length := by
    rw [marked_set, hlen]
  by_cases hback : k + 1 = i
  · subst hback
    have hne : k ≠ k + 1 := by omega
    have hmarked : (keep.set (k + 1) true).getD k false = true ↔ Marked keep k := by
      unfold Marked
      rw [List.getD_eq_getElem?_getD, List.getElem?_set_ne (by omega)]
      cases keep[k]? <;> simp
    split
    · rename_i h
      rw [marked_set, hset, List.length_set, hlen]
      simp only [Nat.add_sub_cancel] at h ⊢
      simp only [h.2.2, and_true, true_and, hne, false_and, or_false, false_or, and_comm]
    · rename_i h
      rw [hset]
      simp only [Nat.add_sub_cancel, Nat.succ_pos, true_and, not_and, Bool.not_eq_false] at h
      simp only [hne, false_and, or_false, false_or, true_and]
      constructor
      · exact .inl
      · rintro (hk | ⟨-, hframe⟩)
        · exact hk
        · by_contra hk
          rw [← hmarked, Bool.not_eq_true] at hk
          rw [h hk] at hframe
          cases hframe
  · have hrest : ∀ b : Prop, (k < ls.length ∧ (k = i ∨ k + 1 = i ∧ b) ↔ k = i ∧ k < ls.length) := by
      intro b
      simp only [hback, false_and, or_false]
      exact and_comm
    split
    · rename_i h
      have hne : k ≠ i - 1 := by omega
      rw [marked_set, hset, hrest]
      simp only [hne, false_and, or_false]
    · rw [hset, hrest]

/-- **What the line `i` makes the code keep.** -/
theorem marked_extendAt (hlen : keep.length = ls.length) (hi : i < ls.length) (k : Nat) :
    Marked (extendAt ls keep i) k ↔ Marked keep k ∨ k < ls.length ∧ TracedBy ls i k := by
  unfold extendAt TracedBy
  dsimp only
  by_cases hopen : isOpener (ls.getD i []) = true
  · have hlen' : (markBlock (keep.set i true) (i + 1) (ls.drop (i + 1))).length = ls.length := by
      simpa using hlen
    by_cases hframe : isFrame (ls.getD i []) = true
    · rw [if_pos hopen, if_pos hframe, marked_framed hlen' hi, marked_opened hlen]
      simp only [hopen, hframe, true_and]
      tauto
    · rw [if_pos hopen, if_neg hframe, marked_opened hlen]
      simp only [hopen, hframe, true_and, Bool.false_eq_true, false_and, or_false]
  · by_cases hframe : isFrame (ls.getD i []) = true
    · rw [if_neg hopen, if_pos hframe, marked_framed hlen hi]
      simp only [hopen, hframe, true_and, Bool.false_eq_true, false_and, false_or]
    · rw [if_neg hopen, if_neg hframe]
      simp only [hopen, hframe, Bool.false_eq_true, false_and, or_false, and_false]

/-- **Exactly the lines of stack traces are added.** -/
theorem marked_extendTraceBlocks (hlen : keep.length = ls.length) (k : Nat) :
    Marked (extendTraceBlocks ls keep) k ↔ Marked keep k ∨ InTrace ls k := by
  have hrun : ∀ n ≤ ls.length, ((List.range n).foldl (extendAt ls) keep).length = ls.length ∧
      (Marked ((List.range n).foldl (extendAt ls) keep) k ↔ Marked keep k ∨ k < ls.length ∧ ∃ i < n,
        TracedBy ls i k) := by
    intro n hn
    induction n with
    | zero => simpa using hlen
    | succ n ih =>
      obtain ⟨hlen', hmarked⟩ := ih (by omega)
      rw [List.range_succ, List.foldl_append, List.foldl_cons, List.foldl_nil]
      refine ⟨by rw [length_extendAt, hlen'], ?_⟩
      rw [marked_extendAt hlen' (by omega), hmarked]
      simp only [Nat.lt_succ_iff_lt_or_eq, or_and_right, exists_or, exists_eq_left]
      rw [or_assoc, ← and_or_left]
  exact (hrun ls.length le_rfl).2

/-! ## The passes -/

variable {cfg : LogOffloadConfig}

@[simp] theorem length_windowMask (n : Nat) : (windowMask cfg n).length = n := by
  simp [windowMask]

theorem marked_windowMask {n i : Nat} : Marked (windowMask cfg n) i ↔
    i < n ∧ (i < cfg.headTail ∨ n - cfg.headTail ≤ i) := by
  unfold windowMask
  rw [marked_map_range, decide_eq_true_iff]
  omega

section
variable [LogPatterns]

@[simp] theorem length_priorityScan (kept : Nat) (xs : List (List Char × Bool)) :
    (priorityScan cfg kept xs).length = xs.length := by
  induction xs generalizing kept with
  | nil => rfl
  | cons x xs ih =>
    unfold priorityScan
    split_ifs <;> simp [ih]

/-- The lines over the threshold that the pass counts before the line `i`. -/
def scoredBefore (cfg : LogOffloadConfig) (xs : List (List Char × Bool)) (i : Nat) : Nat :=
  (xs.take i).countP fun (line, k) => !k && isScored cfg line

theorem scoredBefore_cons (line : List Char) (k : Bool) (xs : List (List Char × Bool)) (i : Nat) :
    scoredBefore cfg ((line, k) :: xs) (i + 1) =
      scoredBefore cfg xs i + if k = false ∧ isScored cfg line = true then 1 else 0 := by
  simp [scoredBefore, List.countP_cons]

variable {xs : List (List Char × Bool)}

theorem marked_priorityScan {kept : Nat} :
    Marked (priorityScan cfg kept xs) i ↔ ∃ line k, xs[i]? = some (line, k) ∧
      (k = true ∨ isScored cfg line = true ∧
        kept + scoredBefore cfg xs i < cfg.maxKeptPriority) := by
  induction xs generalizing kept i with
  | nil => simp [priorityScan]
  | cons x xs ih =>
    obtain ⟨line, k⟩ := x
    unfold priorityScan
    cases i with
    | zero =>
      cases k with
      | true => simp
      | false =>
        by_cases hfull : cfg.maxKeptPriority ≤ kept
        · simp [hfull, scoredBefore]
        · by_cases hscored : isScored cfg line = true
          · simp [hfull, hscored, scoredBefore, not_le.mp hfull]
          · simp [hfull, hscored]
    | succ i =>
      rw [List.getElem?_cons_succ]
      cases k with
      | true => simp [ih, scoredBefore_cons]
      | false =>
        by_cases hfull : cfg.maxKeptPriority ≤ kept
        · have hnone : ∀ n, ¬kept + n < cfg.maxKeptPriority := by omega
          simp only [hfull, Bool.false_eq_true, if_false, if_true, marked_cons_succ, hnone,
            and_false, or_false]
          simp [Marked]
        · by_cases hscored : isScored cfg line = true
          · simp [hfull, hscored, ih, scoredBefore_cons, Nat.add_assoc, Nat.add_comm 1]
          · simp [hfull, hscored, ih, scoredBefore_cons]

@[simp] theorem length_dedupWarnings (seen : Finset (List Char)) (xs : List (List Char × Bool)) :
    (dedupWarnings cfg seen xs).length = xs.length := by
  induction xs generalizing seen with
  | nil => rfl
  | cons x xs ih =>
    unfold dedupWarnings
    dsimp only
    split_ifs <;> simp [ih]

/-- The templates of the kept warnings before the line `i`. -/
def templatesBefore (xs : List (List Char × Bool)) (i : Nat) : Finset (List Char) :=
  (((xs.take i).filter fun (line, k) => k && isWarn line).map fun (line, _) =>
    warnKey line).toFinset

@[simp] theorem templatesBefore_zero (xs : List (List Char × Bool)) : templatesBefore xs 0 = ∅ :=
  rfl

theorem templatesBefore_cons (line : List Char) (k : Bool) (xs : List (List Char × Bool))
    (i : Nat) : templatesBefore ((line, k) :: xs) (i + 1) =
      if k = true ∧ isWarn line = true then insert (warnKey line) (templatesBefore xs i)
      else templatesBefore xs i := by
  unfold templatesBefore
  rw [List.take_succ_cons]
  by_cases hwarn : k = true ∧ isWarn line = true
  · simp [hwarn]
  · rw [if_neg hwarn, List.filter_cons_of_neg (by simpa using hwarn)]

theorem marked_dedupWarnings {seen : Finset (List Char)} :
    Marked (dedupWarnings cfg seen xs) i ↔ ∃ line,
      xs[i]? = some (line, true) ∧ (isWarn line = true →
      warnKey line ∉ seen ∪ templatesBefore xs i ∧
      (seen ∪ templatesBefore xs i).card < cfg.maxDistinctWarnings) := by
  induction xs generalizing seen i with
  | nil => simp [dedupWarnings]
  | cons x xs ih =>
    obtain ⟨line, k⟩ := x
    unfold dedupWarnings
    dsimp only
    cases i with
    | zero =>
      by_cases hwarn : k = true ∧ isWarn line = true
      · simp only [hwarn, and_self, if_true]
        split_ifs with hseen hfull
        · simp [hseen, hwarn.2]
        · simp [hwarn.2, not_lt.mpr hfull]
        · simp [hwarn.2, hseen, not_le.mp hfull]
      · rw [if_neg hwarn]
        cases k with
        | true => simp [show ¬isWarn line = true from fun h => hwarn ⟨rfl, h⟩]
        | false => simp
    | succ i =>
      rw [List.getElem?_cons_succ, templatesBefore_cons]
      by_cases hwarn : k = true ∧ isWarn line = true
      · simp only [hwarn, and_self, if_true]
        split_ifs with hseen hfull
        · rw [marked_cons_succ, ih, Finset.union_insert,
            Finset.insert_eq_of_mem (Finset.mem_union_left _ hseen)]
        · rw [marked_cons_succ, ih]
          have hcard : ∀ other : Finset (List Char), seen ⊆ other →
              ¬other.card < cfg.maxDistinctWarnings :=
            fun other hsub => not_lt.mpr (hfull.trans (Finset.card_le_card hsub))
          simp only [hcard _ Finset.subset_union_left, and_false]
        · rw [marked_cons_succ, ih, Finset.union_insert, Finset.insert_union]
      · rw [if_neg hwarn, if_neg hwarn, marked_cons_succ, ih]

/-! ## What is kept -/

@[simp] theorem length_candidateMask (ls : List (List Char)) :
    (candidateMask cfg ls).length = ls.length := by
  simp [candidateMask]

/-- **What the mask holds before the warnings are looked at**: head and tail, the stack traces, and
the lines over the threshold as long as the cap has room. -/
theorem marked_candidateMask : Marked (candidateMask cfg ls) i ↔
    Marked (windowMask cfg ls.length) i ∨ InTrace ls i ∨ ∃ line,
      ls[i]? = some line ∧ isScored cfg line = true ∧
      scoredBefore cfg (ls.zip (windowMask cfg ls.length)) i < cfg.maxKeptPriority := by
  have hscan : Marked (priorityScan cfg 0 (ls.zip (windowMask cfg ls.length))) i ↔
      Marked (windowMask cfg ls.length) i ∨ ∃ line, ls[i]? = some line ∧ isScored cfg line = true ∧
        scoredBefore cfg (ls.zip (windowMask cfg ls.length)) i < cfg.maxKeptPriority := by
    rw [marked_priorityScan, Nat.zero_add]
    simp only [List.getElem?_zip_eq_some]
    constructor
    · rintro ⟨line, k, ⟨hline, hk⟩, rfl | hscored⟩
      · exact .inl hk
      · exact .inr ⟨line, hline, hscored⟩
    · rintro (hk | ⟨line, hline, hscored⟩)
      · have hi : i < ls.length := by simpa using hk.lt
        exact ⟨ls[i], true, ⟨List.getElem?_eq_getElem hi, hk⟩, .inl rfl⟩
      · have hi : i < (windowMask cfg ls.length).length := by
          simpa using (List.getElem?_eq_some_iff.mp hline).1
        exact ⟨line, _, ⟨hline, List.getElem?_eq_getElem hi⟩, .inr hscored⟩
  unfold candidateMask
  rw [marked_extendTraceBlocks (by simp), hscan, or_assoc]
  exact or_congr_right or_comm

variable [ProtectedTags]

/-- **What is kept**: the protected lines, and of the others those that the warnings do not take
out. -/
theorem marked_keepMask {content : List Char} : Marked (keepMask cfg content) i ↔
    InRegion (lines content) i ∨ ∃ line, (lines content)[i]? = some line ∧
      Marked (candidateMask cfg (lines content)) i ∧ (isWarn line = true →
        warnKey line ∉ templatesBefore ((lines content).zip (candidateMask cfg (lines content))) i ∧
          (templatesBefore ((lines content).zip (candidateMask cfg (lines content))) i).card <
            cfg.maxDistinctWarnings) := by
  have hdedup :
      Marked (dedupWarnings cfg ∅ ((lines content).zip (candidateMask cfg (lines content)))) i ↔
      _ :=
    marked_dedupWarnings
  simp only [List.getElem?_zip_eq_some, Finset.empty_union, and_assoc] at hdedup
  unfold keepMask
  dsimp only
  split
  · rw [marked_zipWith_or (by simp [protectedLineMask]), hdedup, marked_protectedLineMask, or_comm]
    rfl
  · rename_i hnone
    rw [hdedup]
    exact (or_iff_right (not_inRegion (by simpa using hnone) i)).symm

end

end Neoth.Compress
