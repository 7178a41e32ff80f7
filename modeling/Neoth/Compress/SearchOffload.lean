import Neoth.Compress.Transform

/-!
# Search offload

`SearchOffload::apply` of `context/compress/search_compressor.rs`: the hits of a search by file, and
which are kept.

* `parseLinePath`, `group`, `rankAndKeep`, `searchOffload`: the code;
* `takeUpTo_spec`: what the selection loop collects;
* `Thinned`: what is kept of the hits of one file (`thinned_rankAndKeep`);
* `grouped_group`: the hits of each file; `hitsLeftOut`, `filesLeftOut`: what a line of the output
  says of them;
* **`searchOffload_thins`**: which hits and numbers the output holds.
-/

open Lib.Encoding Lib.Text
open scoped List

namespace Neoth.Compress

/-! ## The code -/

def parseLinePath (line : List Char) : Option (List Char) :=
  let scanFrom := match line with
    | drive :: colon :: slash :: _ =>
      if drive.isAlpha && colon == ':' && (slash == '\\' || slash == '/') then 3 else 0
    | _ => 0
  let beforeColon := (line.drop scanFrom).takeWhile (· ≠ ':')
  let colon := scanFrom + beforeColon.length
  match line.drop colon with
  | [] => none
  | _ :: number =>
    let digits := number.takeWhile Char.isDigit
    if digits = [] ∨ (number.drop digits.length).head? ≠ some ':' then none
    else
      let path := line.take colon
      if path = [] ∨ path.any (fun c => c == ' ' || c == '\t' || c == '\n' || c == '\x0c' ||
        c == '\r') then none
      else some path

structure SearchOffloadConfig where
  minMatches : Nat
  perFileKeep : Nat
  maxFiles : Nat

def SearchOffloadConfig.default : SearchOffloadConfig := ⟨10, 3, 30⟩

structure Match where
  file : List Char
  line : List Char

def parseMatches (content : List Char) : List Match :=
  (lines content).filterMap fun line => (parseLinePath line).map fun file => ⟨file, line⟩

/-- The files as they were first seen, and the hits of each. -/
structure Grouping where
  order : List (List Char)
  byFile : List Char → Option (List (List Char))

def groupMatch (s : Grouping) (m : Match) : Grouping :=
  ⟨if (s.byFile m.file).isSome then s.order else s.order ++ [m.file],
    Function.update s.byFile m.file (some ((s.byFile m.file).getD [] ++ [m.line]))⟩

def group (matches' : List Match) : Grouping := matches'.foldl groupMatch ⟨[], fun _ => none⟩

/-- Collects indices until there are `keep`. -/
def takeUpTo (keep : Nat) (wanted : List Nat → Nat → Bool) (chosen : List Nat) : List Nat → List Nat
  | [] => chosen
  | i :: rest =>
    if wanted chosen i then
      if (chosen ++ [i]).length = keep then chosen ++ [i]
      else takeUpTo keep wanted (chosen ++ [i]) rest
    else takeUpTo keep wanted chosen rest

/-- `str::to_lowercase`. -/
class Lowercase where
  toLowercase : List Char → List Char

section
variable [Lowercase] (cfg : SearchOffloadConfig)

def queryTermsOf (query : List Char) : List (List Char) :=
  ((splitWhitespace query).filter fun w => 1 < bytes w).map Lowercase.toLowercase

/-- `query_terms.iter().any(|t| lower.contains(t.as_str()))`. -/
def hitsQuery (terms : List (List Char)) (line : List Char) : Bool :=
  terms.any fun t => decide (t <:+: Lowercase.toLowercase line)

def rankAndKeep (hits terms : List (List Char)) : List (List Char) :=
  if hits.length ≤ cfg.perFileKeep then hits
  else if terms = [] then hits.take cfg.perFileKeep
  else
    let chosen := takeUpTo cfg.perFileKeep (fun _ i => hitsQuery terms (hits.getD i []))
      [] (List.range hits.length)
    let chosen := if chosen.length < cfg.perFileKeep then
        takeUpTo cfg.perFileKeep (fun chosen i => !chosen.contains i) chosen
          (List.range hits.length)
      else chosen
    (chosen.insertionSort (· ≤ ·)).map fun i => hits.getD i []

def moreMatches (file : List Char) (marker : String) (count : Nat) : List Char :=
  "[… ".toList ++ Nat.toDigits 10 count ++ " more matches in ".toList ++ file ++
    " — retrieve ".toList ++ marker.toList ++ " …]".toList

def moreFilesWithMatches (marker : String) (count : Nat) : List Char :=
  "[… ".toList ++ Nat.toDigits 10 count ++ " more files with matches — retrieve ".toList ++
    marker.toList ++ " …]".toList

/-- The loop over the files, of which `idx` are behind it: the lines, and whether a hit is
missing. -/
def writeFiles (byFile : List Char → Option (List (List Char))) (terms : List (List Char))
    (marker : String) : Nat → List (List Char) → List (List Char) × Bool
  | _, [] => ([], false)
  | idx, file :: rest =>
    if cfg.maxFiles ≤ idx then ([moreFilesWithMatches marker (rest.length + 1)], true)
    else
      let hits := (byFile file).getD []
      let kept := rankAndKeep cfg hits terms
      let others := writeFiles byFile terms marker (idx + 1) rest
      if kept.length < hits.length then
        (kept ++ moreMatches file marker (hits.length - kept.length) :: others.1, true)
      else (kept ++ others.1, others.2)

def searchOffload [Sha256] {S : Type} [CcrStore S] (content query : List Char) (store : S) :
    Except TransformError (OffloadOutput × S) :=
  let found := parseMatches content
  if found.length < cfg.minMatches then .error (.skipped "search_offload" "below min_matches")
  else
    let grouping := group found
    let key := computeKey content
    let body := writeFiles cfg grouping.byFile (queryTermsOf query) (markerFor key) 0 grouping.order
    let out := restoreEnd content (body.1.flatMap (· ++ ['\n']))
    if body.2 = false ∨ bytes content ≤ bytes out
      then .error (.skipped "search_offload" "nothing to thin")
    else .ok (.fromLengths (bytes content) out key, CcrStore.put store key content)

end

/-! ## Selection -/

/-- **What the loop collects**: what was chosen before, indices it wanted, each once, and at most
`keep`; below that, all it wanted. -/
theorem takeUpTo_spec {keep : Nat} {wanted : List Nat → Nat → Bool} {chosen is : List Nat}
    (hroom : chosen.length < keep) :
    let out := takeUpTo keep wanted chosen is
    chosen <+: out ∧ out.length ≤ keep ∧
    (∀ i ∈ out, i ∈ chosen ∨ i ∈ is ∧ ∃ past, past <+: out ∧ wanted past i = true) ∧
      (out.length < keep → ∀ i ∈ is, i ∈ out ∨ ∃ past, past <+: out ∧ wanted past i = false) := by
  induction is generalizing chosen with
  | nil => exact ⟨List.prefix_rfl, hroom.le, fun i hi => .inl hi, by simp⟩
  | cons i is ih =>
    rw [takeUpTo]
    split_ifs with hwanted hfull
    · refine ⟨List.prefix_append _ _, hfull.le, ?_, fun hless => absurd hfull hless.ne⟩
      intro j hj
      rcases List.mem_append.mp hj with hj | hj
      · exact .inl hj
      · obtain rfl := List.mem_singleton.mp hj
        exact .inr ⟨List.mem_cons_self, chosen, List.prefix_append _ _, hwanted⟩
    · have hroom' : (chosen ++ [i]).length < keep := by
        rw [List.length_append, List.length_singleton] at hfull ⊢
        omega
      obtain ⟨hinit, hlen, hmem, hall⟩ := ih hroom'
      have hchosen := (List.prefix_append chosen [i]).trans hinit
      refine ⟨hchosen, hlen, ?_, ?_⟩
      · intro j hj
        rcases hmem j hj with hj | ⟨hj, hpast⟩
        · rcases List.mem_append.mp hj with hj | hj
          · exact .inl hj
          · obtain rfl := List.mem_singleton.mp hj
            exact .inr ⟨List.mem_cons_self, chosen, hchosen, hwanted⟩
        · exact .inr ⟨List.mem_cons_of_mem _ hj, hpast⟩
      · intro hless j hj
        rcases List.mem_cons.mp hj with rfl | hj
        · exact .inl (hinit.subset (by simp))
        · exact hall hless j hj
    · obtain ⟨hinit, hlen, hmem, hall⟩ := ih hroom
      refine ⟨hinit, hlen, fun j hj => ?_, fun hless j hj => ?_⟩
      · exact (hmem j hj).imp_right fun h => ⟨List.mem_cons_of_mem _ h.1, h.2⟩
      · rcases List.mem_cons.mp hj with rfl | hj
        · exact .inr ⟨chosen, hinit, by simpa using hwanted⟩
        · exact hall hless j hj

theorem takeUpTo_sublist {keep : Nat} {wanted : List Nat → Nat → Bool} {chosen is : List Nat} :
    takeUpTo keep wanted chosen is <+ chosen ++ is := by
  induction is generalizing chosen with
  | nil => simp [takeUpTo]
  | cons i is ih =>
    have hsnoc : chosen ++ i :: is = chosen ++ [i] ++ is := by simp
    rw [takeUpTo]
    split_ifs
    · rw [hsnoc]
      exact List.sublist_append_left _ _
    · rw [hsnoc]
      exact ih
    · exact ih.trans ((List.sublist_cons_self i is).append_left chosen)

theorem takeUpTo_nodup {keep : Nat} {wanted : List Nat → Nat → Bool} {chosen is : List Nat}
    (hchosen : chosen.Nodup)
    (hnew : ∀ past i, wanted past i = true → i ∉ past) :
      (takeUpTo keep wanted chosen is).Nodup := by
  induction is generalizing chosen with
  | nil => exact hchosen
  | cons i is ih =>
    have hsnoc : wanted chosen i = true → (chosen ++ [i]).Nodup := fun h =>
      List.nodup_append.mpr ⟨hchosen, List.nodup_singleton i, fun a ha b hb hab =>
        hnew chosen i h (List.mem_singleton.mp hb ▸ hab ▸ ha)⟩
    rw [takeUpTo]
    split_ifs with hwanted hfull
    · exact hsnoc hwanted
    · exact ih (hsnoc hwanted)
    · exact ih hchosen

section
variable [Lowercase] {cfg : SearchOffloadConfig}

/-- What is kept of the hits of a file: as many as may be, in order, and no match of the query goes
while another line stays. -/
structure Thinned (terms : List (List Char)) (keep : Nat) (hits kept : List (List Char)) :
    Prop where
  sublist : kept <+ hits
  length : kept.length = min keep hits.length
  preferred : ∃ is, is <+ List.range hits.length ∧ kept = is.map (fun i => hits.getD i []) ∧
    ∀ i < hits.length, i ∉ is → hitsQuery terms (hits.getD i []) = true →
      ∀ j ∈ is, hitsQuery terms (hits.getD j []) = true

omit [Lowercase] in
theorem map_getD_range (hits : List (List Char)) :
    (List.range hits.length).map (fun i => hits.getD i []) = hits := by
  refine List.ext_getElem (by simp) fun i hi hi' => ?_
  simp [hi']

theorem Thinned.of_indices {terms hits : List (List Char)} {keep : Nat} {is : List Nat}
    (his : is <+ List.range hits.length) (hlen : is.length = min keep hits.length)
    (hpreferred : ∀ i < hits.length, i ∉ is → hitsQuery terms (hits.getD i []) = true →
      ∀ j ∈ is, hitsQuery terms (hits.getD j []) = true) :
    Thinned terms keep hits (is.map fun i => hits.getD i []) where
  sublist := by
    have h := his.map fun i => hits.getD i []
    rwa [map_getD_range] at h
  length := by rw [List.length_map, hlen]
  preferred := ⟨is, his, rfl, hpreferred⟩

/-- **The ranking thins the hits of a file.** -/
theorem thinned_rankAndKeep (hkeep : 0 < cfg.perFileKeep) (hits terms : List (List Char)) :
    Thinned terms cfg.perFileKeep hits (rankAndKeep cfg hits terms) := by
  unfold rankAndKeep
  split_ifs with hfew hterms
  · have h : Thinned terms cfg.perFileKeep hits
        ((List.range hits.length).map fun i => hits.getD i []) := by
      refine Thinned.of_indices (List.Sublist.refl _) (by simp [hfew]) fun i hi hout => ?_
      exact absurd (List.mem_range.mpr hi) hout
    rwa [map_getD_range] at h
  · have htake : hits.take cfg.perFileKeep = (List.range cfg.perFileKeep).map fun i =>
        hits.getD i [] := by
      refine List.ext_getElem (by simp; omega) fun i hi hi' => ?_
      have hlt : i < hits.length := by
        rw [List.length_take] at hi
        omega
      simp [hlt]
    rw [htake]
    have hless : cfg.perFileKeep ≤ hits.length := by omega
    refine Thinned.of_indices (List.range_sublist.mpr hless) (by simp [hless]) fun i _ _ hhit => ?_
    rw [hterms] at hhit
    cases hhit
  · dsimp only
    generalize hfirst : takeUpTo cfg.perFileKeep (fun _ i => hitsQuery terms (hits.getD i [])) []
      (List.range hits.length) = first
    generalize hchosen : (if first.length < cfg.perFileKeep then
        takeUpTo cfg.perFileKeep (fun chosen i => !chosen.contains i) first (List.range hits.length)
      else first) = chosen
    obtain ⟨-, hfirstLen, hfirstMem, hfirstAll⟩ := @takeUpTo_spec cfg.perFileKeep
      (fun _ i => hitsQuery terms (hits.getD i [])) [] (List.range hits.length) hkeep
    rw [hfirst] at hfirstLen hfirstMem hfirstAll
    have hfirstSub : first <+ List.range hits.length := by
      rw [← hfirst]
      exact takeUpTo_sublist
    have hfirstHits : ∀ i ∈ first, hitsQuery terms (hits.getD i []) = true := by
      intro i hi
      obtain ⟨-, past, -, hhit⟩ := (hfirstMem i hi).resolve_left List.not_mem_nil
      exact hhit
    have hspec : chosen.Nodup ∧ chosen.length = cfg.perFileKeep ∧ chosen ⊆ List.range hits.length ∧
        ∀ i < hits.length, i ∉ chosen → hitsQuery terms (hits.getD i []) = true →
          ∀ j ∈ chosen, hitsQuery terms (hits.getD j []) = true := by
      split_ifs at hchosen with hshort
      · obtain ⟨hinit, hlen, hmem, hall⟩ :=
          @takeUpTo_spec cfg.perFileKeep (fun chosen i => !chosen.contains i) first
          (List.range hits.length) hshort
        have hnodup := @takeUpTo_nodup cfg.perFileKeep (fun chosen i => !chosen.contains i) first
          (List.range hits.length) (hfirstSub.nodup List.nodup_range) (by simp)
        rw [hchosen] at hinit hlen hmem hall hnodup
        have hsub : chosen ⊆ List.range hits.length := fun i hi =>
          (hmem i hi).elim (fun h => hfirstSub.subset h) fun h => h.1
        refine ⟨hnodup, ?_, hsub, fun i hi hout hhit => ?_⟩
        · by_contra hne
          have hless : chosen.length < cfg.perFileKeep := by omega
          have hcover : List.range hits.length ⊆ chosen := by
            intro i hi
            rcases hall hless i hi with h | ⟨past, hpast, hold⟩
            · exact h
            · exact hpast.subset (by simpa using hold)
          have hcount := (List.nodup_range.subperm hcover).length_le
          rw [List.length_range] at hcount
          omega
        · rcases hfirstAll hshort i (List.mem_range.mpr hi) with h | ⟨past, -, hno⟩
          · exact absurd (hinit.subset h) hout
          · rw [hhit] at hno
            cases hno
      · rw [← hchosen]
        exact ⟨hfirstSub.nodup List.nodup_range, by omega, hfirstSub.subset,
          fun _ _ _ _ => hfirstHits⟩
    obtain ⟨hnodup, hlen, hsub, hpreferred⟩ := hspec
    have hperm : (chosen.insertionSort (· ≤ ·)).Perm chosen := List.perm_insertionSort _ _
    refine Thinned.of_indices ?_ ?_ ?_
    · refine List.sublist_of_subperm_of_sortedLE ?_ ?_ ?_
      · exact (hperm.nodup_iff.mpr hnodup).subperm fun i hi => hsub (hperm.subset hi)
      · exact (List.pairwise_insertionSort (· ≤ ·) chosen).sortedLE
      · exact (List.sortedLT_range _).sortedLE
    · rw [hperm.length_eq, hlen]
      omega
    · intro i hi hout hhit j hj
      exact hpreferred i hi (fun h => hout (hperm.mem_iff.mpr h)) hhit j (hperm.subset hj)

end

/-! ## Files -/

/-- The hits of a file, in order. -/
def hitsIn (found : List Match) (file : List Char) : List (List Char) :=
  (found.filter (·.file = file)).map Match.line

structure Grouped (found : List Match) (s : Grouping) : Prop where
  nodup : s.order.Nodup
  mem : ∀ file, file ∈ s.order ↔ ∃ m ∈ found, m.file = file
  known : ∀ file, (s.byFile file).isSome = true ↔ file ∈ s.order
  hits : ∀ file, (s.byFile file).getD [] = hitsIn found file

theorem Grouped.snoc {found : List Match} {s : Grouping} (h : Grouped found s) (m : Match) :
    Grouped (found ++ [m]) (groupMatch s m) := by
  have horder : ∀ file, file ∈ (groupMatch s m).order ↔ file ∈ s.order ∨ file = m.file := by
    intro file
    unfold groupMatch
    by_cases hknown : (s.byFile m.file).isSome = true
    · have hmem := (h.known m.file).mp hknown
      simp only [hknown, if_true]
      exact ⟨.inl, fun hfile => hfile.elim id fun heq => heq ▸ hmem⟩
    · simp [hknown]
  refine ⟨?_, fun file => ?_, fun file => ?_, fun file => ?_⟩
  · unfold groupMatch
    dsimp only
    split
    · exact h.nodup
    · rename_i hknown
      have hnew : m.file ∉ s.order := fun hmem => hknown ((h.known m.file).mpr hmem)
      exact List.nodup_append.mpr ⟨h.nodup, List.nodup_singleton _, fun a ha b hb hab =>
        hnew (List.mem_singleton.mp hb ▸ hab ▸ ha)⟩
  · rw [horder, h.mem]
    simp only [List.mem_append, List.mem_singleton, or_and_right, exists_or, exists_eq_left]
    exact or_congr_right eq_comm
  · rw [horder]
    by_cases hfile : file = m.file
    · subst hfile
      simp [groupMatch]
    · simp [groupMatch, hfile, h.known]
  · by_cases hfile : file = m.file
    · subst hfile
      simp [groupMatch, hitsIn, h.hits m.file]
    · simp [groupMatch, hitsIn, hfile, Ne.symm hfile, h.hits file]

/-- **Every file with a hit is there once, with its hits.** -/
theorem grouped_group (found : List Match) : Grouped found (group found) := by
  have hrun : ∀ (past rest : List Match) (s : Grouping), Grouped past s →
      Grouped (past ++ rest) (rest.foldl groupMatch s) := by
    intro past rest
    induction rest generalizing past with
    | nil => simp
    | cons m rest ih =>
      intro s hs
      have h := ih (past ++ [m]) (groupMatch s m) (hs.snoc m)
      rwa [List.append_assoc, List.singleton_append] at h
  have hnone : Grouped [] ⟨[], fun _ => none⟩ :=
    ⟨List.nodup_nil, by simp, by simp, by simp [hitsIn]⟩
  exact hrun [] found _ hnone

/-- The hits of different files add up. -/
theorem sum_hitsIn (found : List Match) {files : List (List Char)} (hfiles : files.Nodup) :
    (files.map fun file => (hitsIn found file).length).sum = found.countP (·.file ∈ files) := by
  induction files with
  | nil => simp
  | cons file files ih =>
    obtain ⟨hnew, hrest⟩ := List.nodup_cons.mp hfiles
    have hcount : found.countP (·.file ∈ file :: files) =
        found.countP (·.file = file) + found.countP (·.file ∈ files) := by
      clear ih
      induction found with
      | nil => rfl
      | cons m found ih =>
        by_cases hm : m.file = file
        · subst hm
          simp only [List.countP_cons, List.mem_cons, true_or, decide_true, if_true, hnew,
            decide_false] at ih ⊢
          rw [ih]
          simp
          omega
        · simp only [List.countP_cons, List.mem_cons, hm, false_or, decide_false] at ih ⊢
          rw [ih]
          simp
          omega
    rw [List.map_cons, List.sum_cons, ih hrest, hcount, hitsIn, List.length_map,
      ← List.countP_eq_length_filter]

section
variable [Lowercase] {cfg : SearchOffloadConfig}

/-- What the output holds of a file: the kept hits, and the number of the others if there are
any. -/
def fileBlock (marker : String) (file : List Char) (hits kept : List (List Char)) :
    List (List Char) :=
  kept ++ if kept.length < hits.length then [moreMatches file marker (hits.length - kept.length)]
    else []

theorem writeFiles_eq (byFile : List Char → Option (List (List Char))) (terms : List (List Char))
    (marker : String) (idx : Nat) (files : List (List Char)) (hidx : idx ≤ cfg.maxFiles) :
    (writeFiles cfg byFile terms marker idx files).1 =
      ((files.take (cfg.maxFiles - idx)).flatMap fun file =>
        fileBlock marker file ((byFile file).getD [])
        (rankAndKeep cfg ((byFile file).getD []) terms)) ++
        if cfg.maxFiles < idx + files.length then
          [moreFilesWithMatches marker (idx + files.length - cfg.maxFiles)]
        else [] := by
  induction files generalizing idx with
  | nil => simp [writeFiles, hidx]
  | cons file files ih =>
    unfold writeFiles
    rcases Nat.lt_or_ge idx cfg.maxFiles with hlt | hge
    · obtain ⟨room, hroom⟩ : ∃ room, cfg.maxFiles - idx = room + 1 :=
        ⟨cfg.maxFiles - idx - 1, by omega⟩
      have hnext : cfg.maxFiles - (idx + 1) = room := by omega
      rw [if_neg (not_le.mpr hlt), hroom, List.take_succ_cons, List.flatMap_cons]
      dsimp only
      rw [ih (idx + 1) hlt, hnext, List.length_cons, Nat.add_right_comm idx 1, ← Nat.add_assoc]
      unfold fileBlock
      split <;> simp
    · obtain rfl : idx = cfg.maxFiles := by omega
      simp

end

/-! ## What a line of the output says -/

/-- The number that a placeholder begins with, and what follows it. -/
def placeholder (line : List Char) : Option (Nat × List Char) :=
  if "[… ".toList <+: line then
    let digits := (line.drop 3).takeWhile Char.isDigit
    some (Nat.ofDigitChars 10 digits 0, (line.drop 3).dropWhile Char.isDigit)
  else none

/-- The number of hits of a file that the line says are left out. -/
def hitsLeftOut (marker : String) (line : List Char) : Option Nat :=
  (placeholder line).bind fun said =>
    if " more matches in ".toList <+: said.2 ∧
    " — retrieve ".toList ++ marker.toList ++ " …]".toList <:+ said.2 then
      some said.1
    else none

/-- The number of files that the line says are left out. -/
def filesLeftOut (marker : String) (line : List Char) : Option Nat :=
  (placeholder line).bind fun said =>
    if said.2 = " more files with matches — retrieve ".toList ++ marker.toList ++ " …]".toList
      then some said.1
    else none

/-- The line is a hit, or a placeholder. -/
def isEntry (marker : String) (line : List Char) : Bool :=
  (parseLinePath line).isSome || (hitsLeftOut marker line).isSome ||
  (filesLeftOut marker line).isSome

/-- The hits among the lines, with those that the lines say are left out. -/
def hitsSaid (marker : String) (ls : List (List Char)) : Nat :=
  ls.countP (fun line => (parseLinePath line).isSome) + (ls.filterMap (hitsLeftOut marker)).sum

theorem hitsSaid_append (marker : String) (ls ls' : List (List Char)) :
    hitsSaid marker (ls ++ ls') = hitsSaid marker ls + hitsSaid marker ls' := by
  unfold hitsSaid
  rw [List.countP_append, List.filterMap_append, List.sum_append]
  omega

theorem hitsSaid_flatMap (marker : String) {B : Type} (f : B → List (List Char)) (bs : List B) :
    hitsSaid marker (bs.flatMap f) = (bs.map fun b => hitsSaid marker (f b)).sum := by
  induction bs with
  | nil => rfl
  | cons b bs ih => rw [List.flatMap_cons, hitsSaid_append, ih, List.map_cons, List.sum_cons]

theorem placeholder_number (count : Nat) (rest : List Char)
    (h : ∀ c ∈ rest.head?, c.isDigit = false) :
    placeholder ("[… ".toList ++ Nat.toDigits 10 count ++ rest) = some (count, rest) := by
  have hdigits : ∀ c ∈ Nat.toDigits 10 count, c.isDigit = true := fun c =>
    Nat.isDigit_of_mem_toDigits (by decide) (by decide)
  have hrest : rest.takeWhile Char.isDigit = [] ∧ rest.dropWhile Char.isDigit = rest := by
    cases rest with
    | nil => exact ⟨rfl, rfl⟩
    | cons c rest =>
      have hc := h c rfl
      exact ⟨List.takeWhile_cons_of_neg (by simp [hc]), List.dropWhile_cons_of_neg (by simp [hc])⟩
  have hdrop : ("[… ".toList ++ (Nat.toDigits 10 count ++ rest)).drop 3 =
      Nat.toDigits 10 count ++ rest := rfl
  unfold placeholder
  rw [List.append_assoc, if_pos (List.prefix_append _ _)]
  dsimp only
  rw [hdrop, List.takeWhile_append_of_pos hdigits, List.dropWhile_append_of_pos hdigits, hrest.1,
    hrest.2, List.append_nil, Nat.ofDigitChars_ten_toDigits]

theorem placeholder_moreMatches (file : List Char) (marker : String) (count : Nat) :
    placeholder (moreMatches file marker count) = some (count, " more matches in ".toList ++ file ++
      (" — retrieve ".toList ++ marker.toList ++ " …]".toList)) := by
  have hnumber := placeholder_number count (" more matches in ".toList ++ file ++
    (" — retrieve ".toList ++ marker.toList ++ " …]".toList)) (by rintro c ⟨⟩; decide)
  rw [← hnumber]
  simp only [moreMatches, List.append_assoc]

theorem placeholder_moreFiles (marker : String) (count : Nat) :
    placeholder (moreFilesWithMatches marker count) =
      some (count, " more files with matches — retrieve ".toList ++ marker.toList ++
        " …]".toList) := by
  have hnumber := placeholder_number count
    (" more files with matches — retrieve ".toList ++ marker.toList ++ " …]".toList)
      (by rintro c ⟨⟩; decide)
  rw [← hnumber]
  simp only [moreFilesWithMatches, List.append_assoc]

theorem hitsLeftOut_moreMatches (file : List Char) (marker : String) (count : Nat) :
    hitsLeftOut marker (moreMatches file marker count) = some count := by
  rw [hitsLeftOut, placeholder_moreMatches, Option.bind_some]
  refine if_pos ⟨?_, List.suffix_append _ _⟩
  rw [List.append_assoc]
  exact List.prefix_append _ _

theorem filesLeftOut_moreFiles (marker : String) (count : Nat) :
    filesLeftOut marker (moreFilesWithMatches marker count) = some count := by
  rw [filesLeftOut, placeholder_moreFiles, Option.bind_some]
  exact if_pos rfl

theorem hitsLeftOut_moreFiles (marker : String) (count : Nat) :
    hitsLeftOut marker (moreFilesWithMatches marker count) = none := by
  rw [hitsLeftOut, placeholder_moreFiles, Option.bind_some]
  refine if_neg fun h => ?_
  obtain ⟨rest, hrest⟩ := h.1
  exact absurd (congrArg (·[6]?) hrest) (by simp)

/-- The blank of a placeholder is in front of every colon. -/
theorem parseLinePath_placeholder {line : List Char} (h : "[… ".toList <+: line) :
    parseLinePath line = none := by
  obtain ⟨rest, rfl⟩ := h
  have hline : "[… ".toList ++ rest = '[' :: '…' :: ' ' :: rest := rfl
  have halpha : '['.isAlpha = false := by decide
  rw [hline]
  unfold parseLinePath
  simp only [halpha, Bool.false_and, Bool.false_eq_true, if_false, List.drop_zero, Nat.zero_add]
  have hbefore : (('[' :: '…' :: ' ' :: rest).takeWhile (· ≠ ':')).length =
      (rest.takeWhile (· ≠ ':')).length + 3 := rfl
  simp only [hbefore, List.take_succ_cons]
  split
  · rfl
  · split_ifs <;> simp_all

theorem parseLinePath_initial {line path : List Char} (h : parseLinePath line = some path) :
    path <+: line := by
  unfold parseLinePath at h
  dsimp only at h
  split at h
  · cases h
  · split_ifs at h
    cases h
    exact List.take_prefix _ _

theorem newline_not_mem_toDigits (n : Nat) : '\n' ∉ Nat.toDigits 10 n := fun h =>
  absurd (Nat.isDigit_of_mem_toDigits (by decide) (by decide) h) (by decide)

theorem newline_not_mem_markerFor [Sha256] (content : List Char) :
    '\n' ∉ (markerFor (computeKey content)).toList := by
  have hdigit : ∀ n < 16, hexDigit n ≠ '\n' := by decide
  simp only [markerFor, computeKey, hexEncode, String.toList_append, String.toList_ofList,
    List.mem_append, List.mem_flatMap, not_or, not_exists, not_and]
  refine ⟨⟨by decide, fun b _ hb => ?_⟩, by decide⟩
  rcases List.mem_pair.mp hb with hb | hb
  · exact hdigit _ (by have := b.toNat_lt; omega) hb.symm
  · exact hdigit _ (Nat.mod_lt _ (by decide)) hb.symm

theorem hit_of_mem_hitsIn {content file line : List Char}
    (h : line ∈ hitsIn (parseMatches content) file) :
    line ∈ lines content ∧ parseLinePath line = some file := by
  obtain ⟨m, hm, rfl⟩ := List.mem_map.mp h
  obtain ⟨hmem, hfile⟩ := List.mem_filter.mp hm
  obtain ⟨line, hline, hparse⟩ := List.mem_filterMap.mp hmem
  obtain ⟨path, hpath, rfl⟩ := Option.map_eq_some_iff.mp hparse
  obtain rfl := of_decide_eq_true hfile
  exact ⟨hline, hpath⟩

/-- A hit says nothing of others. -/
theorem hitsLeftOut_hit {line path : List Char} (marker : String)
    (h : parseLinePath line = some path) : hitsLeftOut marker line = none := by
  have hno : ¬ "[… ".toList <+: line := fun hstart => by
    rw [parseLinePath_placeholder hstart] at h
    cases h
  rw [hitsLeftOut, placeholder, if_neg hno, Option.bind_none]

theorem parseLinePath_moreMatches (file : List Char) (marker : String) (count : Nat) :
    parseLinePath (moreMatches file marker count) = none := by
  refine parseLinePath_placeholder ?_
  simp only [moreMatches, List.append_assoc]
  exact List.prefix_append _ _

theorem parseLinePath_moreFiles (marker : String) (count : Nat) :
    parseLinePath (moreFilesWithMatches marker count) = none := by
  refine parseLinePath_placeholder ?_
  simp only [moreFilesWithMatches, List.append_assoc]
  exact List.prefix_append _ _

/-- A block says how many hits its file has. -/
theorem hitsSaid_fileBlock {hits kept : List (List Char)} (marker : String) (file : List Char)
    (hkept : kept <+ hits) (hhits : ∀ line ∈ hits, parseLinePath line = some file) :
    hitsSaid marker (fileBlock marker file hits kept) = hits.length := by
  have hcount : kept.countP (fun line => (parseLinePath line).isSome) = kept.length := by
    rw [List.countP_eq_length]
    intro line hline
    rw [hhits line (hkept.subset hline)]
    rfl
  have hnone : kept.filterMap (hitsLeftOut marker) = [] := by
    rw [List.filterMap_eq_nil_iff]
    exact fun line hline => hitsLeftOut_hit marker (hhits line (hkept.subset hline))
  have hsaid : hitsSaid marker kept = kept.length := by
    rw [hitsSaid, hcount, hnone, List.sum_nil, Nat.add_zero]
  have hle := hkept.length_le
  rw [fileBlock, hitsSaid_append, hsaid]
  split_ifs with hless
  · have hrest : hitsSaid marker [moreMatches file marker (hits.length - kept.length)] =
        hits.length - kept.length := by
      simp [hitsSaid, parseLinePath_moreMatches, hitsLeftOut_moreMatches]
    rw [hrest]
    omega
  · simp only [hitsSaid, List.countP_nil, List.filterMap_nil, List.sum_nil]
    omega

/-- The files in the order in which they are first seen. -/
def filesOf (content : List Char) : List (List Char) := (group (parseMatches content)).order

section
variable [Lowercase] {cfg : SearchOffloadConfig}

/-- The kept hits of each file within the cap with the number of the others, and the number of the
other files. -/
def thinnedLines [Sha256] (cfg : SearchOffloadConfig) (content query : List Char) :
    List (List Char) :=
  let found := parseMatches content
  let marker := markerFor (computeKey content)
  (((filesOf content).take cfg.maxFiles).flatMap fun file =>
    fileBlock marker file (hitsIn found file)
      (rankAndKeep cfg (hitsIn found file) (queryTermsOf query))) ++
      if cfg.maxFiles < (filesOf content).length then
        [moreFilesWithMatches marker ((filesOf content).length - cfg.maxFiles)] else []

theorem output_searchOffload [Sha256] {S : Type} [CcrStore S] {content query : List Char}
    {store store' : S}
    {out : OffloadOutput} (h : searchOffload cfg content query store = .ok (out, store')) :
    out.output = joinLines content (thinnedLines cfg content query) := by
  have hgrouped := grouped_group (parseMatches content)
  unfold searchOffload at h
  dsimp only at h
  split_ifs at h
  obtain ⟨rfl, -⟩ := Prod.mk.inj (Except.ok.inj h)
  refine (restoreEnd_lines content _).trans (congrArg (joinLines content) ?_)
  rw [writeFiles_eq _ _ _ 0 _ (Nat.zero_le _)]
  simp only [hgrouped.hits, Nat.zero_add, Nat.sub_zero]
  rfl

/-- Each of these lines is one line, and a hit or a placeholder. -/
theorem mem_thinnedLines [Sha256] {content query line : List Char} (hkeep : 0 < cfg.perFileKeep)
    (h : line ∈ thinnedLines cfg content query) :
    '\n' ∉ line ∧ isEntry (markerFor (computeKey content)) line = true := by
  have hmarker := newline_not_mem_markerFor content
  unfold thinnedLines at h
  dsimp only at h
  rcases List.mem_append.mp h with h | h
  · obtain ⟨file, hfile, h⟩ := List.mem_flatMap.mp h
    rcases List.mem_append.mp h with h | h
    · obtain ⟨hline, hpath⟩ := hit_of_mem_hitsIn ((thinned_rankAndKeep hkeep _ _).sublist.subset h)
      exact ⟨newline_not_mem_lines hline, by simp [isEntry, hpath]⟩
    · obtain ⟨m, hm, rfl⟩ :=
        ((grouped_group (parseMatches content)).mem file).mp (List.mem_of_mem_take hfile)
      obtain ⟨hline, hpath⟩ :=
        hit_of_mem_hitsIn (List.mem_map_of_mem (List.mem_filter.mpr ⟨hm, decide_eq_true rfl⟩))
      have hfile : '\n' ∉ m.file := fun hmem =>
        newline_not_mem_lines hline ((parseLinePath_initial hpath).subset hmem)
      split_ifs at h
      · obtain rfl := List.mem_singleton.mp h
        exact ⟨by simp [moreMatches, hmarker, hfile, newline_not_mem_toDigits], by
          simp [isEntry, hitsLeftOut_moreMatches]⟩
      · cases h
  · split_ifs at h
    · obtain rfl := List.mem_singleton.mp h
      exact ⟨by simp [moreFilesWithMatches, hmarker, newline_not_mem_toDigits], by
        simp [isEntry, filesLeftOut_moreFiles]⟩
    · cases h

/-- **The hits of the files within the cap**: among the lines of the output the hits and the
placeholders are, for each file in order, what is kept of its hits and the number of the others;
what is kept is `Thinned`; the hits and numbers that the output holds add up to the hits of these
files.  The other files are one line with their number. -/
theorem searchOffload_thins [Sha256] {S : Type} [CcrStore S] {content query : List Char}
    {store store' : S} {out : OffloadOutput} (hkeep : 0 < cfg.perFileKeep)
    (h : searchOffload cfg content query store = .ok (out, store')) :
    let found := parseMatches content
    let kept file := rankAndKeep cfg (hitsIn found file) (queryTermsOf query)
    let marker := markerFor (computeKey content)
    (∃ ls, out.output = joinLines content ls ∧ (∀ line ∈ ls, '\n' ∉ line) ∧
      ls.filter (isEntry marker) = (((filesOf content).take cfg.maxFiles).flatMap fun file =>
        fileBlock marker file (hitsIn found file) (kept file)) ++
          (if cfg.maxFiles < (filesOf content).length then
            [moreFilesWithMatches marker ((filesOf content).length - cfg.maxFiles)] else []) ∧
      hitsSaid marker ls = found.countP (·.file ∈ (filesOf content).take cfg.maxFiles)) ∧
      (∀ file, Thinned (queryTermsOf query) cfg.perFileKeep (hitsIn found file) (kept file)) ∧
      ((filesOf content).length ≤ cfg.maxFiles →
        found.countP (·.file ∈ (filesOf content).take cfg.maxFiles) = found.length) := by
  dsimp only
  have hgrouped := grouped_group (parseMatches content)
  have hthinned : ∀ file, Thinned (queryTermsOf query) cfg.perFileKeep
      (hitsIn (parseMatches content) file)
      (rankAndKeep cfg (hitsIn (parseMatches content) file) (queryTermsOf query)) :=
    fun file => thinned_rankAndKeep hkeep _ _
  refine ⟨⟨thinnedLines cfg content query, output_searchOffload h,
    fun line hline => (mem_thinnedLines hkeep hline).1, ?_, ?_⟩, hthinned, fun hall => ?_⟩
  · rw [List.filter_eq_self.mpr fun line hline => (mem_thinnedLines hkeep hline).2]
    rfl
  · have hend :
        hitsSaid (markerFor (computeKey content)) (if cfg.maxFiles < (filesOf content).length then
        [moreFilesWithMatches (markerFor (computeKey content))
          ((filesOf content).length - cfg.maxFiles)] else []) = 0 := by
      split_ifs
      · simp [hitsSaid, parseLinePath_moreFiles, hitsLeftOut_moreFiles]
      · rfl
    rw [← sum_hitsIn _ (List.Nodup.sublist (List.take_sublist _ (filesOf content)) hgrouped.nodup)]
    unfold thinnedLines
    dsimp only
    rw [hitsSaid_append, hend, Nat.add_zero, hitsSaid_flatMap]
    refine congrArg List.sum (List.map_congr_left fun file _ => ?_)
    exact hitsSaid_fileBlock _ file (hthinned file).sublist fun line hline =>
      (hit_of_mem_hitsIn hline).2
  · rw [List.take_of_length_le hall, List.countP_eq_length]
    intro m hm
    exact decide_eq_true ((hgrouped.mem m.file).mpr ⟨m, hm, rfl⟩)

end

/-- Lowercase on ASCII text. -/
@[reducible] def asciiLowercase : Lowercase := ⟨fun cs => cs.map Char.toLower⟩

/-- Twenty hits in one file. -/
def cluster : List Char :=
  ['\n'].intercalate ((List.range 20).map fun i =>
    "big.py:".toList ++ Nat.toDigits 10 (i + 1) ++ ":def fn_".toList ++ Nat.toDigits 10 i)

/-- Forty files with one hit each. -/
def scattered : List Char :=
  ['\n'].intercalate ((List.range 40).map fun i =>
    'f' :: Nat.toDigits 10 i ++ ".py:1:def only_".toList ++ Nat.toDigits 10 i)

/-- The number of hits of a file in the output. -/
def hitsLeft (content query file : List Char) : Option Nat :=
  (@searchOffload asciiLowercase .default Sha256.fips _ _ content query
    ([] : List (String × List Char))).toOption.map
    fun result => (hitsIn (parseMatches result.1.output) file).length

theorem exists_of_hitsLeft (content query file : List Char) {n : Nat}
    (h : hitsLeft content query file = some n) :
    ∃ out store', @searchOffload asciiLowercase .default Sha256.fips _ _ content query
      ([] : List (String × List Char)) = .ok (out, store') ∧
      (hitsIn (parseMatches out.output) file).length = n := by
  unfold hitsLeft at h
  revert h
  cases @searchOffload asciiLowercase .default Sha256.fips _ _ content query
    ([] : List (String × List Char)) with
  | error e => exact fun h => absurd h (by simp [Except.toOption])
  | ok result => exact fun h => ⟨result.1, result.2, rfl, Option.some.inj h⟩

theorem searchOffload_thins_sample : ∃ out store',
    @searchOffload asciiLowercase .default Sha256.fips _ _ cluster "fn_17".toList
      ([] : List (String × List Char)) = .ok (out, store') ∧
    (∃ ls, out.output = joinLines cluster ls ∧
      hitsSaid (markerFor (@computeKey Sha256.fips cluster)) ls = 20) ∧
    @Thinned asciiLowercase (@queryTermsOf asciiLowercase "fn_17".toList) 3
      (hitsIn (parseMatches cluster) "big.py".toList)
      (@rankAndKeep asciiLowercase .default (hitsIn (parseMatches cluster) "big.py".toList)
        (@queryTermsOf asciiLowercase "fn_17".toList)) := by
  obtain ⟨out, store', h, -⟩ :=
    exists_of_hitsLeft cluster "fn_17".toList "big.py".toList (n := 3) (by
    unfold hitsLeft
    rw [Sha256.fips_eq]
    decide +kernel)
  obtain ⟨⟨ls, hls, -, -, hsaid⟩, hthinned, hall⟩ :=
    @searchOffload_thins asciiLowercase .default Sha256.fips _ _ _ _ _ _ _ (by decide) h
  refine ⟨out, store', h, ⟨ls, hls, ?_⟩, hthinned _⟩
  rw [hsaid, hall (by decide +kernel)]
  decide +kernel

/-- The hit of a file over the cap is not in the output. -/
theorem file_over_cap_is_summarised :
    ¬∀ content query (store : List (String × List Char)) out store',
    @searchOffload asciiLowercase .default Sha256.fips _ _ content query store = .ok (out, store') →
      ∀ file ∈ filesOf content, (hitsIn (parseMatches out.output) file).length =
        min SearchOffloadConfig.default.perFileKeep
          (hitsIn (parseMatches content) file).length := by
  intro hall
  obtain ⟨out, store', h, hnone⟩ := exists_of_hitsLeft scattered [] "f39.py".toList (n := 0) (by
    unfold hitsLeft
    rw [Sha256.fips_eq]
    decide +kernel)
  have hone : (hitsIn (parseMatches scattered) "f39.py".toList).length = 1 := by decide +kernel
  have hkept := hall scattered [] [] out store' h "f39.py".toList (by decide +kernel)
  rw [hnone, hone] at hkept
  exact absurd hkept (by decide)

end Neoth.Compress
