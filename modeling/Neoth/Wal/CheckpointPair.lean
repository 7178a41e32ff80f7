import Neoth.Lib.Effects
import Neoth.Wal.Compaction

/-!
# Checkpoint pairs

`wal/cpt_format.rs` and `wal/cpt_recovery.rs`: a replacement of a segment is written beside it, the
body and its tag each under a temporary name that is then renamed; the next start verifies what it
finds and lets it take the place of the segment, or puts it aside.

The directory is what its files hold; a writer stops behind any number of its steps at the file
system.

* `writeCptPair`, `scanAndApply`: the source;
* `Applies`: what an application has verified;
* `crashedDir`, `writeCptPair_run`: what a writer leaves that stops;
* **`pair_recovers_iff`**: when a crash is made good.
-/

open Lib.Effects Lib.Encoding Lib.Transaction

namespace Neoth.Wal.Checkpoint

variable [Sha256]

/-! ## Names -/

/-- The name of a file in the WAL directory. -/
abbrev FileName : Type := List Char

def cptSuffix : FileName := ['.', 'c', 'p', 't']
def cptHmacSuffix : FileName := ['.', 'h', 'm', 'a', 'c']
def tmpSuffix : FileName := ['.', 't', 'm', 'p']
def rejectedSuffix (tsUnix : Nat) : FileName := ".rejected.".toList ++ Nat.toDigits 10 tsUnix

def withSuffix (name suffix : FileName) : FileName := name ++ suffix
def hmacPathFor (cptPath : FileName) : FileName := withSuffix cptPath cptHmacSuffix

/-- `Path::extension`: what follows the last dot, if there is a dot that is not the first
character. -/
def extension (name : FileName) : Option FileName :=
  match name.reverse.dropWhile (· ≠ '.') with
  | _ :: _ :: _ => some (name.reverse.takeWhile (· ≠ '.')).reverse
  | _ => none

/-- `strip_cpt_suffix`; the case of the suffix matters here. -/
def stripCptSuffix (cptPath : FileName) : FileName :=
  if cptSuffix <:+ cptPath then cptPath.take (cptPath.length - cptSuffix.length) else cptPath

/-- The extension, without regard to its case. -/
def isCptName (name : FileName) : Bool :=
  match extension name with
  | some e => e.map Char.toLower == ['c', 'p', 't']
  | none => false

/-! ## The directory -/

abbrev Dir : Type := FileName → Option (List UInt8)

def Dir.put (dir : Dir) (name : FileName) (bytes : List UInt8) : Dir :=
  Function.update dir name (some bytes)
def Dir.remove (dir : Dir) (name : FileName) : Dir := Function.update dir name none

/-- `fs::rename`, which replaces what is there; a file that is missing stays so. -/
def Dir.rename (dir : Dir) (source target : FileName) : Dir :=
  match dir source with
  | some bytes => (dir.remove source).put target bytes
  | none => dir

/-! ## Authentication -/

def cptHmacTagLen : Nat := 32

structure CompactionAuthenticator where
  subKey : List UInt8

def CompactionAuthenticator.sign (auth : CompactionAuthenticator) (cptContent : List UInt8) :
    List UInt8 :=
  hmacSha256 auth.subKey cptContent

inductive CptError
  | io
  | compactionAuthFailed (reason : String)

def CompactionAuthenticator.verify (auth : CompactionAuthenticator)
    (cptContent expectedHmac : List UInt8) : Except CptError Unit :=
  if expectedHmac.length ≠ cptHmacTagLen then
    .error (.compactionAuthFailed ("HMAC tag length " ++ toString expectedHmac.length ++
      " does not match expected " ++ toString cptHmacTagLen))
  else if auth.sign cptContent = expectedHmac then .ok ()
  else .error (.compactionAuthFailed "HMAC tag does not match content — possible tamper")

def display (name : FileName) : String := String.ofList name

def readAndVerifyCpt (dir : Dir) (cptPath : FileName) (auth : CompactionAuthenticator) :
    Except CptError (List UInt8) := do
  let content ← context (dir cptPath) .io
  let hmacBytes ← context (dir (hmacPathFor cptPath)) (.compactionAuthFailed
    ("hmac sidecar missing: " ++ display cptPath ++ " has no paired .hmac file"))
  require (hmacBytes.length == cptHmacTagLen) (.compactionAuthFailed
    ("hmac sidecar at " ++ display (hmacPathFor cptPath) ++ " has wrong length: " ++
      toString hmacBytes.length ++ " bytes (expected " ++ toString cptHmacTagLen ++ ")"))
  auth.verify content hmacBytes
  pure content

/-! ## Writing -/

/-- The directory, and how many of its steps the writer takes before it is stopped: `none` if it is
not. -/
structure Disk where
  dir : Dir
  stepsLeft : Option Nat
  /-- How much of a write reaches the file that the stop comes upon. -/
  torn : Nat

inductive Stop
  | crashed
  | failed (message : String)
  deriving DecidableEq

abbrev Task (A : Type) : Type := Prog Disk Stop A

/-- One step at the file system, or what is left of it by the stop. -/
def fsStep (effect interrupted : Dir → Dir) : Task Unit := fun d =>
  match d.stepsLeft with
  | some 0 => (.error .crashed, { d with dir := interrupted d.dir })
  | some (n + 1) => (.ok (), { d with dir := effect d.dir, stepsLeft := some n })
  | none => (.ok (), { d with dir := effect d.dir })

/-- `OpenOptions::create_new`. -/
def openNew (path : FileName) : Task Unit := do
  let d ← Prog.get
  fsStep (fun dir => if (d.dir path).isSome then dir else dir.put path []) id
  Prog.check (d.dir path).isNone (.failed ("write " ++ display path))

def writeAll (torn : Nat) (path : FileName) (bytes : List UInt8) : Task Unit :=
  fsStep (fun dir => dir.put path bytes) fun dir => dir.put path (bytes.take torn)

def writeAndSync (path : FileName) (bytes : List UInt8) : Task Unit := do
  openNew path
  let d ← Prog.get
  writeAll d.torn path bytes
  -- `sync_all`
  fsStep id id

def renameStep (source target : FileName) : Task Unit := do
  let d ← Prog.get
  fsStep (fun dir => dir.rename source target) id
  Prog.check (d.dir source).isSome
    (.failed ("rename " ++ display source ++ " -> " ++ display target))

def writeCptPair (cptPath : FileName) (content : List UInt8) (auth : CompactionAuthenticator) :
    Task Unit := do
  let hmacPath := hmacPathFor cptPath
  let cptTmp := withSuffix cptPath tmpSuffix
  let hmacTmp := withSuffix hmacPath tmpSuffix
  writeAndSync cptTmp content
  writeAndSync hmacTmp (auth.sign content)
  renameStep hmacTmp hmacPath
  renameStep cptTmp cptPath
  -- the directory is synced
  fsStep id id

/-! ## Recovery -/

inductive CptOutcome
  | applied (appliedTo : FileName)
  | quarantined (cptPath quarantinePath : FileName) (reason : String)

structure ScanReport where
  applied : List FileName
  quarantined : List FileName

def isCptCandidate (dir : Dir) (path : FileName) : Bool := (dir path).isSome && isCptName path

/-- Both names get the suffix; either of the files may be missing. -/
def quarantinePair (dir : Dir) (cptPath : FileName) (tsUnix : Nat) : Dir × FileName :=
  let hmacPath := hmacPathFor cptPath
  let cptQuarantine := withSuffix cptPath (rejectedSuffix tsUnix)
  let hmacQuarantine := withSuffix hmacPath (rejectedSuffix tsUnix)
  ((dir.rename cptPath cptQuarantine).rename hmacPath hmacQuarantine, cptQuarantine)

def processOne (dir : Dir) (cptPath : FileName) (auth : CompactionAuthenticator) (tsUnix : Nat) :
    Dir × Except CptError CptOutcome :=
  match readAndVerifyCpt dir cptPath auth with
  | .ok _ =>
    let target := stripCptSuffix cptPath
    ((dir.rename cptPath target).remove (hmacPathFor cptPath), .ok (.applied target))
  | .error (.compactionAuthFailed reason) =>
    let (next, quarantine) := quarantinePair dir cptPath tsUnix
    (next, .ok (.quarantined cptPath quarantine reason))
  | .error .io => (dir, .error .io)

/-- One entry of the directory, with what the clock says when it is reached. -/
def scanEntry (auth : CompactionAuthenticator) (scan : Dir × ScanReport) (entry : FileName × Nat) :
    Dir × ScanReport :=
  if isCptCandidate scan.1 entry.1 then
    match processOne scan.1 entry.1 auth entry.2 with
    | (dir, .ok (.applied target)) => (dir, { scan.2 with applied := scan.2.applied ++ [target] })
    | (dir, .ok (.quarantined _ quarantine _)) =>
      (dir, { scan.2 with quarantined := scan.2.quarantined ++ [quarantine] })
    | (dir, .error _) => (dir, scan.2)
  else scan

/-- The entries come in any order; one that is made on the way may be among them. -/
def scanAndApply (auth : CompactionAuthenticator) (dir : Dir) (entries : List (FileName × Nat)) :
    Dir × ScanReport :=
  entries.foldl (scanEntry auth) (dir, ⟨[], []⟩)

/-! ## Names that differ -/

omit [Sha256] in
theorem getLast?_withSuffix (name : FileName) {suffix : FileName} {c : Char}
    (h : suffix.getLast? = some c) : (withSuffix name suffix).getLast? = some c := by
  rw [withSuffix, List.getLast?_append, h, Option.some_or]

omit [Sha256] in
/-- A timestamp ends with a digit. -/
theorem getLast?_rejected (name : FileName) (tsUnix : Nat) :
    ∃ c, (withSuffix name (rejectedSuffix tsUnix)).getLast? = some c ∧ c.isDigit = true := by
  have hdigits : ∀ c ∈ Nat.toDigits 10 tsUnix, c.isDigit = true :=
    fun c hc => Lib.JsonDecode.isDigit_toDigits hc
  have hne : Nat.toDigits 10 tsUnix ≠ [] := Nat.toDigits_ne_nil
  unfold rejectedSuffix
  generalize Nat.toDigits 10 tsUnix = digits at hdigits hne
  refine ⟨digits.getLast hne, getLast?_withSuffix name ?_, hdigits _ (List.getLast_mem hne)⟩
  rw [List.getLast?_append, List.getLast?_eq_getLast_of_ne_nil hne, Option.some_or]

omit [Sha256] in
theorem toLower_eq_t {c : Char} (h : c.toLower = 't') : c = 't' ∨ c = 'T' := by
  unfold Char.toLower at h
  split at h
  · refine .inr (Char.ext ?_)
    have hval : c.val + ('a'.val - 'A'.val) = 't'.val := congrArg Char.val h
    exact (UInt32.add_left_inj ('a'.val - 'A'.val)).mp
      (hval.trans (by decide : 't'.val = 'T'.val + ('a'.val - 'A'.val)))
  · exact .inl h

omit [Sha256] in
/-- The name of a checkpoint ends with the last letter of its suffix. -/
theorem getLast?_of_isCptName {name : FileName} (h : isCptName name = true) :
    name.getLast? = some 't' ∨ name.getLast? = some 'T' := by
  have hsplit := List.takeWhile_append_dropWhile (p := fun c : Char => decide (c ≠ '.')) (l :=
    name.reverse)
  unfold isCptName extension at h
  generalize name.reverse.takeWhile (fun c : Char => decide (c ≠ '.')) = taken at h hsplit
  generalize name.reverse.dropWhile (fun c : Char => decide (c ≠ '.')) = rest at h hsplit
  rw [List.getLast?_eq_head?_reverse, ← hsplit]
  rcases rest with _ | ⟨dot, _ | ⟨before, rest⟩⟩
  · simp at h
  · simp at h
  · have hletters : taken.map Char.toLower = ['t', 'p', 'c'] := by simpa using h
    cases taken with
    | nil => simp at hletters
    | cons last taken =>
      have hlast : last.toLower = 't' := by simpa using (List.cons.inj hletters).1
      simpa using toLower_eq_t hlast

omit [Sha256] in
theorem eq_of_stripCptSuffix {cptPath name : FileName} (h : stripCptSuffix cptPath = name) :
    cptPath = name ++ cptSuffix ∨ (cptPath = name ∧ ¬ cptSuffix <:+ name) := by
  unfold stripCptSuffix at h
  split at h
  · rename_i hsuffix
    obtain ⟨stem, rfl⟩ := hsuffix
    rw [List.length_append, Nat.add_sub_cancel, List.take_left'] at h
    · exact .inl (by rw [h])
    · rfl
  · rename_i hsuffix
    subst h
    exact .inr ⟨rfl, hsuffix⟩

/-! ## A writer that is stopped -/

def cptTmp (cptPath : FileName) : FileName := withSuffix cptPath tmpSuffix
def hmacTmp (cptPath : FileName) : FileName := withSuffix (hmacPathFor cptPath) tmpSuffix

/-- What the writer leaves behind a number of steps. -/
def crashedDir (dir : Dir) (cptPath : FileName) (content tag : List UInt8) (torn : Nat) : Nat → Dir
  | 0 => dir
  | 1 => dir.put (cptTmp cptPath) (content.take torn)
  | 2 | 3 => dir.put (cptTmp cptPath) content
  | 4 => (dir.put (cptTmp cptPath) content).put (hmacTmp cptPath) (tag.take torn)
  | 5 | 6 => (dir.put (cptTmp cptPath) content).put (hmacTmp cptPath) tag
  | 7 => (dir.put (cptTmp cptPath) content).put (hmacPathFor cptPath) tag
  | _ => (dir.put (hmacPathFor cptPath) tag).put cptPath content

variable {dir : Dir} {cptPath : FileName} {content : List UInt8} {auth : CompactionAuthenticator}

omit [Sha256] in
theorem ne_of_length {xs ys : FileName} (h : xs.length ≠ ys.length) : xs ≠ ys :=
  fun heq => h (congrArg List.length heq)

omit [Sha256] in
/-- The four names of a pair. -/
theorem pair_distinct (cptPath : FileName) :
    cptTmp cptPath ≠ cptPath ∧ hmacTmp cptPath ≠ cptPath ∧ hmacPathFor cptPath ≠ cptPath ∧
      cptTmp cptPath ≠ hmacTmp cptPath ∧ cptTmp cptPath ≠ hmacPathFor cptPath ∧
      hmacTmp cptPath ≠ hmacPathFor cptPath := by
  refine ⟨?_, ?_, ?_, ?_, ?_, ?_⟩ <;> refine ne_of_length ?_ <;>
    simp [cptTmp, hmacTmp, hmacPathFor, withSuffix, tmpSuffix, cptHmacSuffix]

omit [Sha256] in
theorem writeAndSync_new (path : FileName) (bytes : List UInt8) (h : dir path = none)
    (left : Option Nat) (torn : Nat) :
    writeAndSync path bytes ⟨dir, left, torn⟩ = match left with
      | some 0 => (.error .crashed, ⟨dir, some 0, torn⟩)
      | some 1 => (.error .crashed, ⟨dir.put path (bytes.take torn), some 0, torn⟩)
      | some 2 => (.error .crashed, ⟨dir.put path bytes, some 0, torn⟩)
      | some (n + 3) => (.ok (), ⟨dir.put path bytes, some n, torn⟩)
      | none => (.ok (), ⟨dir.put path bytes, none, torn⟩) := by
  rcases left with _ | _ | _ | _ | n <;>
    simp [writeAndSync, openNew, writeAll, fsStep, Prog.get, Prog.check, h, Dir.put, bind,
      Prog.andThen, pure]

omit [Sha256] in
theorem renameStep_there {source : FileName} (target : FileName) {bytes : List UInt8}
    (h : dir source = some bytes) (left : Option Nat) (torn : Nat) :
    renameStep source target ⟨dir, left, torn⟩ = match left with
      | some 0 => (.error .crashed, ⟨dir, some 0, torn⟩)
      | some (n + 1) => (.ok (), ⟨(dir.remove source).put target bytes, some n, torn⟩)
      | none => (.ok (), ⟨(dir.remove source).put target bytes, none, torn⟩) := by
  rcases left with _ | _ | n <;>
    simp [renameStep, fsStep, Prog.get, Prog.check, h, Dir.rename, bind, Prog.andThen, pure]

/-- The directory between the steps of a writer whose temporary names are free. -/
theorem writeCptPair_run (hcpt : dir (cptTmp cptPath) = none) (hhmac : dir (hmacTmp cptPath) = none)
    (left : Option Nat) (torn : Nat) :
    (∀ steps, left = some steps → (writeCptPair cptPath content auth ⟨dir, left, torn⟩).2.dir =
      crashedDir dir cptPath content (auth.sign content) torn steps) ∧
    (left = none → (writeCptPair cptPath content auth ⟨dir, left, torn⟩).1 = .ok ()) := by
  obtain ⟨hcptName, hhmacName, hsidecar, htemporaries, hbody, htag⟩ := pair_distinct cptPath
  have hsecond : (dir.put (cptTmp cptPath) content) (hmacTmp cptPath) = none := by
    simp [Dir.put, htemporaries.symm, hhmac]
  have hthird : ((dir.put (cptTmp cptPath) content).put (hmacTmp cptPath) (auth.sign content))
      (hmacTmp cptPath) = some (auth.sign content) := by simp [Dir.put]
  have hfourth :
      ((((dir.put (cptTmp cptPath) content).put (hmacTmp cptPath) (auth.sign content)).remove
      (hmacTmp cptPath)).put (hmacPathFor cptPath) (auth.sign content)) (cptTmp cptPath) =
        some content := by
    simp [Dir.put, Dir.remove, htemporaries, hbody]
  have hseventh :
      (((dir.put (cptTmp cptPath) content).put (hmacTmp cptPath) (auth.sign content)).remove
      (hmacTmp cptPath)).put (hmacPathFor cptPath) (auth.sign content) =
      (dir.put (cptTmp cptPath) content).put (hmacPathFor cptPath) (auth.sign content) := by
    funext name
    by_cases hname : name = hmacTmp cptPath
    · subst hname
      simp [Dir.put, Dir.remove, htag, htemporaries.symm, hhmac]
    · simp [Dir.put, Dir.remove, Function.update_apply, hname]
  have heighth :
      ((((dir.put (cptTmp cptPath) content).put (hmacPathFor cptPath) (auth.sign content)).remove
      (cptTmp cptPath)).put cptPath content) =
      (dir.put (hmacPathFor cptPath) (auth.sign content)).put cptPath content := by
    funext name
    by_cases hname : name = cptTmp cptPath
    · subst hname
      simp [Dir.put, Dir.remove, hcptName, hbody, hcpt]
    · simp [Dir.put, Dir.remove, Function.update_apply, hname]
  rw [hseventh] at hfourth
  have hfirst := fun left => writeAndSync_new (cptTmp cptPath) content hcpt left torn
  have hsecond := fun left =>
    writeAndSync_new (hmacTmp cptPath) (auth.sign content) hsecond left torn
  have hthird := fun left => renameStep_there (hmacPathFor cptPath) hthird left torn
  have hfourth := fun left => renameStep_there cptPath hfourth left torn
  rw [hseventh] at hthird
  rw [heighth] at hfourth
  change ∀ left, writeAndSync (withSuffix cptPath tmpSuffix) _ _ = _ at hfirst
  change ∀ left, writeAndSync (withSuffix (hmacPathFor cptPath) tmpSuffix) _ _ = _ at hsecond
  change ∀ left, renameStep (withSuffix (hmacPathFor cptPath) tmpSuffix) _ _ = _ at hthird
  change ∀ left, renameStep (withSuffix cptPath tmpSuffix) _ _ = _ at hfourth
  refine ⟨?_, ?_⟩
  · rintro steps rfl
    rcases steps with _ | _ | _ | _ | _ | _ | _ | _ | _ | steps <;>
      simp [writeCptPair, bind, Prog.andThen, hfirst, hsecond, hthird, hfourth, fsStep, crashedDir]
  · rintro rfl
    simp [writeCptPair, bind, Prog.andThen, hfirst, hsecond, hthird, hfourth, fsStep]

/-! ## What a crash leaves -/

/-- Beside the path there is no leftover of a writer and no checkpoint, nor a checkpoint for such a
file. -/
def Fresh (dir : Dir) (cptPath : FileName) : Prop :=
  ∀ rest, (rest = [] ∨ cptSuffix <:+ rest ∨ tmpSuffix <:+ rest) → dir (cptPath ++ rest) = none

omit [Sha256] in
theorem Fresh.free (h : Fresh dir cptPath) :
    dir cptPath = none ∧ dir (cptTmp cptPath) = none ∧ dir (hmacTmp cptPath) = none := by
  refine ⟨?_, h tmpSuffix (.inr (.inr List.suffix_rfl)), ?_⟩
  · have hself := h [] (.inl rfl)
    rwa [List.append_nil] at hself
  · have htmp := h (cptHmacSuffix ++ tmpSuffix) (.inr (.inr (List.suffix_append _ _)))
    rwa [← List.append_assoc] at htmp

omit [Sha256] in
/-- Only the names of the pair are touched. -/
theorem crashedDir_frame {tag : List UInt8} {torn : Nat} {name : FileName} (hcpt : name ≠ cptPath)
    (hhmac : name ≠ hmacPathFor cptPath) (hbody : name ≠ cptTmp cptPath)
    (htag : name ≠ hmacTmp cptPath) (steps : Nat) :
    crashedDir dir cptPath content tag torn steps name = dir name := by
  rcases steps with _ | _ | _ | _ | _ | _ | _ | _ | steps <;>
    simp [crashedDir, Dir.put, hcpt, hhmac, hbody, htag]

omit [Sha256] in
/-- Under the path itself stands the whole body or nothing. -/
theorem crashedDir_body (content tag : List UInt8) (torn : Nat) (h : dir cptPath = none)
    (steps : Nat) :
    crashedDir dir cptPath content tag torn steps cptPath = if 8 ≤ steps then some content
      else none := by
  obtain ⟨hcpt, hhmac, hsidecar, -⟩ := pair_distinct cptPath
  rcases steps with _ | _ | _ | _ | _ | _ | _ | _ | steps <;>
    simp [crashedDir, Dir.put, hcpt.symm, hhmac.symm, hsidecar.symm, h]

omit [Sha256] in
/-- **The temporary names are free** exactly before the first step and behind the second rename. -/
theorem crashedDir_free_iff (content tag : List UInt8) (torn : Nat) (hfresh : Fresh dir cptPath)
    (steps : Nat) : (crashedDir dir cptPath content tag torn steps (cptTmp cptPath) = none ∧
      crashedDir dir cptPath content tag torn steps (hmacTmp cptPath) = none) ↔
      steps = 0 ∨ 8 ≤ steps := by
  obtain ⟨-, hfreeBody, hfreeTag⟩ := hfresh.free
  obtain ⟨hcpt, hhmac, -, htemporaries, hbody, htag⟩ := pair_distinct cptPath
  rcases steps with _ | _ | _ | _ | _ | _ | _ | _ | steps <;>
    simp [crashedDir, Dir.put, hcpt, hhmac, htemporaries, htemporaries.symm, hbody, htag, hfreeBody,
      hfreeTag]

/-! ## What the scan does -/

omit [Sha256] in
/-- A name that ends neither like a sidecar nor like what is put aside. -/
def Kept (name : FileName) : Prop := ∀ c ∈ name.getLast?, c ≠ 'c' ∧ c.isDigit = false

omit [Sha256] in
theorem Kept.ne_sidecar {name : FileName} (h : Kept name) (cptPath : FileName) :
    name ≠ hmacPathFor cptPath := by
  rintro rfl
  exact (h 'c' (getLast?_withSuffix cptPath rfl)).1 rfl

omit [Sha256] in
theorem Kept.ne_rejected {name : FileName} (h : Kept name) (cptPath : FileName) (tsUnix : Nat) :
    name ≠ withSuffix cptPath (rejectedSuffix tsUnix) := by
  rintro rfl
  obtain ⟨c, hlast, hdigit⟩ := getLast?_rejected cptPath tsUnix
  exact Bool.false_ne_true ((h c hlast).2.symm.trans hdigit)

/-- What has been verified of a pair that is applied. -/
structure Applies (dir : Dir) (cptPath : FileName) (auth : CompactionAuthenticator)
    (content : List UInt8) : Prop where
  body : dir cptPath = some content
  sidecar : dir (hmacPathFor cptPath) = some (auth.sign content)

theorem applies_of_read {content : List UInt8}
    (h : readAndVerifyCpt dir cptPath auth = .ok content) : Applies dir cptPath auth content := by
  unfold readAndVerifyCpt at h
  simp only [bind_eq_ok_iff, context_eq_ok_iff, require_eq_ok_iff] at h
  obtain ⟨body, hbody, tag, htag, _, hlength, _, hverify, hpure⟩ := h
  cases hpure
  unfold CompactionAuthenticator.verify at hverify
  rw [if_neg (by simpa using hlength)] at hverify
  split at hverify
  · rename_i hsign
    exact ⟨hbody, htag.trans (congrArg some hsign.symm)⟩
  · cases hverify

/-- **All that processing a candidate can do.** -/
inductive Processed (auth : CompactionAuthenticator) (dir : Dir) (cptPath : FileName)
    (tsUnix : Nat) : Dir → Except CptError CptOutcome → Prop
  | applied {content : List UInt8} (verified : Applies dir cptPath auth content) :
      Processed auth dir cptPath tsUnix
        (((dir.remove cptPath).put (stripCptSuffix cptPath) content).remove (hmacPathFor cptPath))
        (.ok (.applied (stripCptSuffix cptPath)))
  | quarantined (reason : String) :
      Processed auth dir cptPath tsUnix
        ((dir.rename cptPath (withSuffix cptPath (rejectedSuffix tsUnix))).rename
          (hmacPathFor cptPath) (withSuffix (hmacPathFor cptPath) (rejectedSuffix tsUnix)))
        (.ok (.quarantined cptPath (withSuffix cptPath (rejectedSuffix tsUnix)) reason))
  | unread : Processed auth dir cptPath tsUnix dir (.error .io)

theorem processed (dir : Dir) (cptPath : FileName) (auth : CompactionAuthenticator) (tsUnix : Nat) :
    Processed auth dir cptPath tsUnix (processOne dir cptPath auth tsUnix).1
      (processOne dir cptPath auth tsUnix).2 := by
  unfold processOne
  split
  · rename_i content hread
    have happlies := applies_of_read hread
    simp only [Dir.rename, happlies.body]
    exact .applied happlies
  · rename_i reason _
    exact .quarantined reason
  · exact .unread

omit [Sha256] in
theorem rename_frame {source target name : FileName} (hsource : name ≠ source)
    (htarget : name ≠ target) : dir.rename source target name = dir name := by
  unfold Dir.rename
  cases dir source with
  | none => rfl
  | some bytes => simp [Dir.put, Dir.remove, hsource, htarget]

omit [Sha256] in
theorem rename_source {source target : FileName} (h : source ≠ target) :
    dir.rename source target source = none := by
  unfold Dir.rename
  cases hsource : dir source with
  | none => exact hsource
  | some bytes => simp [Dir.put, Dir.remove, h]

/-- The names of a candidate and what it may become. -/
def family (cptPath : FileName) (tsUnix : Nat) : List FileName :=
  [cptPath, stripCptSuffix cptPath, hmacPathFor cptPath, withSuffix cptPath (rejectedSuffix tsUnix),
    withSuffix (hmacPathFor cptPath) (rejectedSuffix tsUnix)]

variable {next : Dir} {outcome : Except CptError CptOutcome} {tsUnix : Nat} {name : FileName}

theorem Processed.frame (h : Processed auth dir cptPath tsUnix next outcome)
    (hname : name ∉ family cptPath tsUnix) : next name = dir name := by
  simp only [family, List.mem_cons, List.not_mem_nil, or_false, not_or] at hname
  obtain ⟨hself, htarget, hsidecar, hrejected, hrejectedSidecar⟩ := hname
  cases h with
  | applied verified => simp [Dir.put, Dir.remove, hself, htarget, hsidecar]
  | quarantined reason => rw [rename_frame hsidecar hrejectedSidecar, rename_frame hself hrejected]
  | unread => rfl

/-- A name that is kept changes only with its own checkpoint, or as one. -/
theorem Processed.frame_kept (h : Processed auth dir cptPath tsUnix next outcome)
    (hkept : Kept name)
    (hself : name ≠ cptPath) (htarget : cptPath ≠ name ++ cptSuffix) : next name = dir name := by
  refine h.frame ?_
  simp only [family, List.mem_cons, List.not_mem_nil, or_false, not_or]
  refine ⟨hself, fun htake => ?_, hkept.ne_sidecar _, hkept.ne_rejected _ _, hkept.ne_rejected _ _⟩
  rcases eq_of_stripCptSuffix htake.symm with heq | ⟨heq, -⟩
  · exact htarget heq
  · exact hself heq.symm

/-! ## Scans -/

/-- The name of a segment: it ends with `.bin`. -/
def SegmentName (name : FileName) : Prop := ['.', 'b', 'i', 'n'] <:+ name

def cptPathFor (segment : FileName) : FileName := withSuffix segment cptSuffix

omit [Sha256] in
theorem kept_of_suffix {suffix : FileName} {c : Char} (hlast : suffix.getLast? = some c)
    (hc : c ≠ 'c' ∧ c.isDigit = false) (h : suffix <:+ name) :
      Kept name ∧ name.getLast? = some c := by
  obtain ⟨stem, rfl⟩ := h
  have hend : (stem ++ suffix).getLast? = some c := getLast?_withSuffix stem hlast
  refine ⟨fun d hd => ?_, hend⟩
  rw [hend, Option.mem_some_iff] at hd
  exact hd ▸ hc

omit [Sha256] in
theorem not_isCptName_of_getLast? {c : Char} (h : name.getLast? = some c) (hc : c ≠ 't' ∧ c ≠ 'T') :
    isCptName name = false := by
  by_contra hcpt
  rw [Bool.not_eq_false] at hcpt
  rcases getLast?_of_isCptName hcpt with hlast | hlast
  · exact hc.1 (Option.some.inj (h.symm.trans hlast))
  · exact hc.2 (Option.some.inj (h.symm.trans hlast))

/-- The directory that a scan has come to, `old` being the one it started from: the segment is as it
was or the whole new body, and nothing has come up at the names of the pair. -/
structure Scanned (old : Dir) (segment : FileName) (content : List UInt8) (dir : Dir) : Prop where
  target : dir segment = old segment ∨ dir segment = some content
  body : dir (cptPathFor segment) = none ∨ dir (cptPathFor segment) = some content
  /-- Neither leftovers nor checkpoints of the files of the pair are made. -/
  still : ∀ rest, rest ≠ [] → cptSuffix <:+ rest ∨ tmpSuffix <:+ rest →
    dir (cptPathFor segment ++ rest) = old (cptPathFor segment ++ rest)

/-- **What one candidate keeps.** -/
theorem Scanned.processed {old : Dir} {segment : FileName} (hsegment : SegmentName segment)
    (hclear : ∀ rest, rest ≠ [] → cptSuffix <:+ rest → old (cptPathFor segment ++ rest) = none)
    (hscanned : Scanned old segment content dir) (hcandidate : isCptCandidate dir cptPath = true)
    (h : Processed auth dir cptPath tsUnix next outcome) : Scanned old segment content next := by
  obtain ⟨hthere, hname⟩ := Bool.and_eq_true_iff.mp hcandidate
  obtain ⟨hsegmentKept, hsegmentLast⟩ := kept_of_suffix (c := 'n') rfl (by decide) hsegment
  have hsegmentName := not_isCptName_of_getLast? hsegmentLast (by decide)
  have hpathKept : Kept (cptPathFor segment) :=
    (kept_of_suffix (c := 't') rfl (by decide) (List.suffix_append segment cptSuffix)).1
  -- there is no checkpoint for a file of the pair
  have habsent : ∀ rest, rest ≠ [] → cptSuffix <:+ rest → cptPath ≠ cptPathFor segment ++ rest := by
    rintro rest hne hsuffix rfl
    rw [hscanned.still rest hne (.inl hsuffix), hclear rest hne hsuffix] at hthere
    exact Bool.false_ne_true hthere
  have hstill : ∀ rest, rest ≠ [] → cptSuffix <:+ rest ∨ tmpSuffix <:+ rest →
      next (cptPathFor segment ++ rest) = dir (cptPathFor segment ++ rest) := by
    intro rest hne hsuffix
    have htwice : cptPath ≠ (cptPathFor segment ++ rest) ++ cptSuffix := by
      rw [List.append_assoc]
      exact habsent _ (by simp [hne]) (List.suffix_append _ _)
    rcases hsuffix with hsuffix | hsuffix
    · obtain ⟨hkept, -⟩ := kept_of_suffix (c := 't') rfl (by decide)
        (hsuffix.trans (List.suffix_append (cptPathFor segment) rest))
      exact h.frame_kept hkept (habsent rest hne hsuffix).symm htwice
    · obtain ⟨hkept, hlast⟩ := kept_of_suffix (c := 'p') rfl (by decide)
        (hsuffix.trans (List.suffix_append (cptPathFor segment) rest))
      refine h.frame_kept hkept ?_ htwice
      rintro rfl
      rw [not_isCptName_of_getLast? hlast (by decide)] at hname
      exact Bool.false_ne_true hname
  have hself : segment ≠ cptPath := by
    rintro rfl
    rw [hsegmentName] at hname
    exact Bool.false_ne_true hname
  have hrest : ∀ rest, rest ≠ [] → cptSuffix <:+ rest ∨ tmpSuffix <:+ rest →
      next (cptPathFor segment ++ rest) = old (cptPathFor segment ++ rest) :=
        fun rest hne hsuffix =>
    (hstill rest hne hsuffix).trans (hscanned.still rest hne hsuffix)
  by_cases hpair : cptPath = cptPathFor segment
  · subst hpair
    have hbody : dir (cptPathFor segment) = some content := by
      rcases hscanned.body with hbody | hbody
      · rw [hbody] at hthere
        exact absurd hthere (by decide)
      · exact hbody
    have hstrip : stripCptSuffix (cptPathFor segment) = segment := by
      unfold stripCptSuffix cptPathFor withSuffix
      rw [if_pos (List.suffix_append _ _), List.length_append, Nat.add_sub_cancel,
        List.take_left' rfl]
    cases h with
    | applied verified =>
      refine ⟨.inr ?_, .inl ?_, hrest⟩
      · cases hbody.symm.trans verified.body
        simp [Dir.put, Dir.remove, hstrip, hsegmentKept.ne_sidecar]
      · simp [Dir.put, Dir.remove, hstrip, hself.symm, hpathKept.ne_sidecar]
    | quarantined reason =>
      refine ⟨?_, .inl ?_, hrest⟩
      · rw [rename_frame (hsegmentKept.ne_sidecar _) (hsegmentKept.ne_rejected _ _),
          rename_frame hself (hsegmentKept.ne_rejected _ _)]
        exact hscanned.target
      · rw [rename_frame (hpathKept.ne_sidecar _) (hpathKept.ne_rejected _ _)]
        exact rename_source (hpathKept.ne_rejected _ _)
    | unread => exact ⟨hscanned.target, hscanned.body, hrest⟩
  · have hbody : next (cptPathFor segment) = dir (cptPathFor segment) :=
      h.frame_kept hpathKept (Ne.symm hpair) (habsent cptSuffix (by decide) List.suffix_rfl)
    have htarget : next segment = dir segment := h.frame_kept hsegmentKept hself hpair
    exact ⟨htarget ▸ hscanned.target, hbody ▸ hscanned.body, hrest⟩

theorem scanEntry_dir (auth : CompactionAuthenticator) (scan : Dir × ScanReport)
    (entry : FileName × Nat) : (scanEntry auth scan entry).1 =
      if isCptCandidate scan.1 entry.1 then (processOne scan.1 entry.1 auth entry.2).1
      else scan.1 := by
  unfold scanEntry
  split
  · split <;> simp_all
  · rfl

/-- What every candidate keeps, the scan keeps. -/
theorem scan_keeps {P : Dir → Prop} {entries : List (FileName × Nat)}
    (hkeep : ∀ dir entry next outcome, entry ∈ entries → P dir → isCptCandidate dir entry.1 = true →
      Processed auth dir entry.1 entry.2 next outcome → P next) (hdir : P dir) :
    P (scanAndApply auth dir entries).1 := by
  unfold scanAndApply
  generalize (⟨[], []⟩ : ScanReport) = report
  induction entries generalizing dir report with
  | nil => exact hdir
  | cons entry entries ih =>
    have hnext : P (scanEntry auth (dir, report) entry).1 := by
      rw [scanEntry_dir]
      split
      · rename_i hcandidate
        exact hkeep dir entry _ _ List.mem_cons_self hdir hcandidate
          (processed dir entry.1 auth entry.2)
      · exact hdir
    exact ih (fun dir other next outcome hmem => hkeep dir other next outcome
      (List.mem_cons_of_mem _ hmem)) hnext _

theorem scanAndApply_append (auth : CompactionAuthenticator) (dir : Dir)
    (entries : List (FileName × Nat))
    (entry : FileName × Nat) : (scanAndApply auth dir (entries ++ [entry])).1 =
      (scanEntry auth (scanAndApply auth dir entries) entry).1 := by
  unfold scanAndApply
  rw [List.foldl_append, List.foldl_cons, List.foldl_nil]

omit [Sha256] in
theorem stripCptSuffix_ne_sidecar (cptPath : FileName) :
    stripCptSuffix cptPath ≠ hmacPathFor cptPath := by
  intro h
  have hlength := congrArg List.length h
  have hshort : (stripCptSuffix cptPath).length ≤ cptPath.length := by
    unfold stripCptSuffix
    split
    · exact List.length_take_le' _ _
    · exact le_rfl
  rw [hmacPathFor, withSuffix, List.length_append] at hlength
  have hsuffix : cptHmacSuffix.length = 5 := rfl
  omega

/-! ## Crashes that are made good -/

/-- What the scan applies has been verified when it is reached. -/
def Verified (auth : CompactionAuthenticator) (dir : Dir) (entries : List (FileName × Nat)) :
    Prop :=
  ∀ before entry after target, entries = before ++ entry :: after →
    isCptCandidate (scanAndApply auth dir before).1 entry.1 = true →
    (processOne (scanAndApply auth dir before).1 entry.1 auth entry.2).2 = .ok (.applied target) →
      ∃ content, Applies (scanAndApply auth dir before).1 entry.1 auth content ∧
        (scanAndApply auth dir (before ++ [entry])).1 target = some content

/-- The segment is as it was or the new body, the scan has applied nothing that does not verify, no
file has changed but those of the pair and those of the candidates, and the pair can be written
again. -/
structure Recovered (auth : CompactionAuthenticator) (old crashed : Dir) (segment : FileName)
    (content : List UInt8) (entries : List (FileName × Nat)) : Prop where
  target : (scanAndApply auth crashed entries).1 segment = old segment ∨
    (scanAndApply auth crashed entries).1 segment = some content
  verified : Verified auth crashed entries
  unrelated : ∀ name, name ∉ [cptPathFor segment, cptTmp (cptPathFor segment),
      hmacPathFor (cptPathFor segment), hmacTmp (cptPathFor segment)] →
    (∀ entry ∈ entries, isCptName entry.1 = true → name ∉ family entry.1 entry.2) →
      (scanAndApply auth crashed entries).1 name = old name
  again : ∀ next writer torn,
    (writeCptPair (cptPathFor segment) next writer ⟨(scanAndApply auth crashed entries).1, none,
      torn⟩).1 = .ok ()

theorem verified_scan (auth : CompactionAuthenticator) (dir : Dir)
    (entries : List (FileName × Nat)) : Verified auth dir entries := by
  rintro before entry after target - hcandidate happlied
  have hprocessed := processed (scanAndApply auth dir before).1 entry.1 auth entry.2
  rw [scanAndApply_append, scanEntry_dir, if_pos hcandidate]
  generalize processOne (scanAndApply auth dir before).1 entry.1 auth entry.2 =
    result at hprocessed happlied ⊢
  obtain ⟨next, outcome⟩ := result
  cases hprocessed with
  | @applied content verified =>
    cases happlied
    exact ⟨content, verified, by simp [Dir.put, Dir.remove, stripCptSuffix_ne_sidecar]⟩
  | quarantined reason => cases happlied
  | unread => cases happlied

omit [Sha256] in
theorem writeAndSync_taken {path : FileName} (bytes : List UInt8) (h : (dir path).isSome = true)
    (torn : Nat) :
    ∃ d, writeAndSync path bytes ⟨dir, none, torn⟩ = (.error (.failed ("write " ++ display path)),
      d) := by
  have hnone : (dir path).isNone = false := by
    rw [← Option.not_isSome, h]
    rfl
  refine ⟨⟨dir, none, torn⟩, ?_⟩
  simp [writeAndSync, openNew, fsStep, Prog.get, Prog.check, Prog.throw, h, hnone, bind,
    Prog.andThen]

/-- With a temporary name in use the writer fails at its first step there. -/
theorem free_of_writeCptPair {torn : Nat}
    (h : (writeCptPair cptPath content auth ⟨dir, none, torn⟩).1 = .ok ()) :
    dir (cptTmp cptPath) = none ∧ dir (hmacTmp cptPath) = none := by
  obtain ⟨-, -, -, htemporaries, -, -⟩ := pair_distinct cptPath
  have hbody : dir (cptTmp cptPath) = none := by
    by_contra hne
    obtain ⟨d, hfails⟩ := writeAndSync_taken content (Option.isSome_iff_ne_none.mpr hne) torn
    change writeAndSync (withSuffix cptPath tmpSuffix) _ _ = _ at hfails
    simp [writeCptPair, bind, Prog.andThen, hfails] at h
  refine ⟨hbody, ?_⟩
  by_contra hne
  have hfirst := writeAndSync_new (cptTmp cptPath) content hbody none torn
  have htaken : ((dir.put (cptTmp cptPath) content) (hmacTmp cptPath)).isSome = true := by
    simpa [Dir.put, htemporaries.symm] using Option.isSome_iff_ne_none.mpr hne
  obtain ⟨d, hfails⟩ := writeAndSync_taken (auth.sign content) htaken torn
  change writeAndSync (withSuffix cptPath tmpSuffix) _ _ = _ at hfirst
  change writeAndSync (withSuffix (hmacPathFor cptPath) tmpSuffix) _ _ = _ at hfails
  simp [writeCptPair, bind, Prog.andThen, hfirst, hfails] at h

/-- **When a crash is made good.**  The writer of a checkpoint pair stops behind `steps` steps, and
the next start scans the directory: the segment is the old or the new one, nothing unverified is
applied and no other file is lost, and the pair can be written again, exactly if the crash came
before the first temporary file or behind the second rename. -/
theorem pair_recovers_iff (writer auth : CompactionAuthenticator) {dir : Dir} {segment : FileName}
    (hsegment : SegmentName segment) (hfresh : Fresh dir (cptPathFor segment))
    (content : List UInt8) (steps torn : Nat) (entries : List (FileName × Nat)) :
    Recovered auth dir
      (writeCptPair (cptPathFor segment) content writer ⟨dir, some steps, torn⟩).2.dir segment
      content entries ↔ steps = 0 ∨ 8 ≤ steps := by
  obtain ⟨hfreePath, hfreeBody, hfreeTag⟩ := hfresh.free
  rw [(writeCptPair_run hfreeBody hfreeTag (some steps) torn).1 steps rfl]
  generalize hcrashed :
    crashedDir dir (cptPathFor segment) content (writer.sign content) torn steps = crashed
  have hfree := crashedDir_free_iff content (writer.sign content) torn hfresh steps
  have hbody := crashedDir_body content (writer.sign content) torn hfreePath steps
  have hframe : ∀ name, name ∉ [cptPathFor segment, cptTmp (cptPathFor segment),
      hmacPathFor (cptPathFor segment), hmacTmp (cptPathFor segment)] →
      crashed name = dir name := by
    intro name hname
    simp only [List.mem_cons, List.not_mem_nil, or_false, not_or] at hname
    rw [← hcrashed, crashedDir_frame hname.1 hname.2.2.1 hname.2.1 hname.2.2.2]
  rw [hcrashed] at hfree hbody
  -- the names of the pair are the path and three longer ones, none of which is that of the segment
  -- or of a checkpoint
  have hsegmentFrame : crashed segment = dir segment := by
    refine hframe segment ?_
    simp only [List.mem_cons, List.not_mem_nil, or_false, not_or]
    refine ⟨ne_of_length ?_, ne_of_length ?_, ne_of_length ?_, ne_of_length ?_⟩ <;>
      simp [cptPathFor, cptTmp, hmacTmp, hmacPathFor, withSuffix, cptSuffix, tmpSuffix,
        cptHmacSuffix]
  have hclear : ∀ rest, rest ≠ [] → cptSuffix <:+ rest →
      crashed (cptPathFor segment ++ rest) = none := by
    intro rest hne hsuffix
    rw [hframe, hfresh rest (.inr (.inl hsuffix))]
    have hlast := (kept_of_suffix (c := 't') rfl (by decide) hsuffix).2
    have hother : ∀ suffix : FileName, suffix.getLast? ≠ some 't' → cptPathFor segment ++ rest ≠
        cptPathFor segment ++ suffix := fun suffix hsuffix' heq =>
          hsuffix' (List.append_cancel_left heq ▸ hlast)
    simp only [List.mem_cons, List.not_mem_nil, or_false, not_or]
    refine ⟨by simp [hne], hother _ (by decide), hother _ (by decide), ?_⟩
    have htag := hother (cptHmacSuffix ++ tmpSuffix) (by decide)
    rwa [← List.append_assoc] at htag
  have hscanned : Scanned crashed segment content (scanAndApply auth crashed entries).1 := by
    refine scan_keeps (P := Scanned crashed segment content) ?_ ⟨.inl rfl, ?_, fun _ _ _ => rfl⟩
    · exact fun now entry next outcome _ hnow hcandidate hprocessed =>
        hnow.processed hsegment hclear hcandidate hprocessed
    · rw [hbody]
      split
      · exact .inr rfl
      · exact .inl rfl
  have htemporary : (scanAndApply auth crashed entries).1 (cptTmp (cptPathFor segment)) =
      crashed (cptTmp (cptPathFor segment)) :=
        hscanned.still tmpSuffix (by decide) (.inr List.suffix_rfl)
  have htag : (scanAndApply auth crashed entries).1 (hmacTmp (cptPathFor segment)) =
      crashed (hmacTmp (cptPathFor segment)) := by
    have hstill :=
      hscanned.still (cptHmacSuffix ++ tmpSuffix) (by decide) (.inr (List.suffix_append _ _))
    rwa [← List.append_assoc] at hstill
  constructor
  · intro hrecovered
    have hagain := free_of_writeCptPair (hrecovered.again content writer torn)
    rw [htemporary, htag] at hagain
    exact hfree.mp hagain
  · intro hsteps
    refine ⟨hsegmentFrame ▸ hscanned.target, verified_scan auth crashed entries, ?_,
      fun next writer' torn' => ?_⟩
    · intro name hname hfamily
      rw [← hframe name hname]
      refine scan_keeps (P := fun now => now name = crashed name) ?_ rfl
      intro now entry next outcome hmem hnow hcandidate hprocessed
      rw [hprocessed.frame (hfamily entry hmem (Bool.and_eq_true_iff.mp hcandidate).2), hnow]
    · obtain ⟨hfreeBody', hfreeTag'⟩ := hfree.mpr hsteps
      exact (writeCptPair_run (htemporary.trans hfreeBody') (htag.trans hfreeTag') none torn').2 rfl

end Neoth.Wal.Checkpoint

namespace Neoth.Wal.Checkpoint

/-! ## A leftover -/

section Samples

attribute [local instance] Sha256.fips

def sampleSegment : FileName := "wal-00000017.bin".toList

/-- A directory that holds a segment and nothing else. -/
def sampleDir : Dir := Dir.put (fun _ => none) sampleSegment [1]

theorem sample_fresh : Fresh sampleDir (cptPathFor sampleSegment) := by
  intro rest _
  have hne : cptPathFor sampleSegment ++ rest ≠ sampleSegment := by
    refine ne_of_length ?_
    simp [cptPathFor, withSuffix, cptSuffix]
  simp [sampleDir, Dir.put, hne]

theorem sample_segment : SegmentName sampleSegment := ⟨"wal-00000017".toList, by decide⟩

theorem pair_recovers_sample :
    Recovered ⟨[7]⟩ sampleDir
      (writeCptPair (cptPathFor sampleSegment) [2] ⟨[7]⟩ ⟨sampleDir, some 8, 0⟩).2.dir
        sampleSegment [2]
      [(cptPathFor sampleSegment, 1), (sampleSegment, 2)] ↔ 8 = 0 ∨ 8 ≤ 8 :=
  pair_recovers_iff ⟨[7]⟩ ⟨[7]⟩ sample_segment sample_fresh [2] 8 0 _

/-- The writer stops when the body has been synced under its temporary name.  The scan passes the
file over, and the next writer finds the name taken. -/
theorem leftover_blocks_the_next_writer :
    (writeCptPair (cptPathFor sampleSegment) [2] ⟨[7]⟩ ⟨(scanAndApply ⟨[7]⟩
      (writeCptPair (cptPathFor sampleSegment) [2] ⟨[7]⟩ ⟨sampleDir, some 3, 0⟩).2.dir
      [(sampleSegment, 1), (cptTmp (cptPathFor sampleSegment), 2)]).1, none, 0⟩).1 =
        .error (.failed "write wal-00000017.bin.cpt.tmp") ∧
      ¬ Recovered ⟨[7]⟩ sampleDir
        (writeCptPair (cptPathFor sampleSegment) [2] ⟨[7]⟩ ⟨sampleDir, some 3, 0⟩).2.dir
          sampleSegment [2]
        [(sampleSegment, 1), (cptTmp (cptPathFor sampleSegment), 2)] := by
  refine (and_iff_left_of_imp fun hblocked hrecovered => ?_).mpr (by decide +kernel)
  have hagain := hrecovered.again [2] ⟨[7]⟩ 0
  rw [hblocked] at hagain
  cases hagain

end Samples

end Neoth.Wal.Checkpoint
