import Neoth.Lib.Search
import Neoth.Pipeline.WireFit
import Neoth.Tokens.PromptBudget

/-!
# Compaction prompts

`build_compaction_prompt` and `build_bounded_compaction_prompts` of `context/compaction.rs`: a
history is cut into chunks, and each chunk is put into a prompt that fits a token cap.

* `floorBoundary`, `ceilBoundary`: the loops to the next character boundary;
* `fits_mono`: a part of a chunk fits where the chunk does;
* `chunkLoop_spec`: the search finds the longest chunk that fits;
* `boundedLoop_spec`: the loop over the history;
* **`envelope_fitting_exact`**: the fit of an envelope, and the prompts of a history.
-/

open Lib Lib.Encoding Lib.Text Lib.JsonDecode Neoth.Tokens

namespace Neoth.Pipeline

/-! ## The code -/

def compactionInstruction : String :=
  "You are compacting the transcript of an in-progress AI agent's tool-using " ++
    "session so it fits the context window. Produce a DENSE summary that the agent " ++
    "can keep working from. You MUST preserve, verbatim where they matter: every " ++
    "UNRESOLVED tool result and its value; all file paths, identifiers, URLs, error " ++
    "messages, and command outputs still relevant to the task; the original " ++
    "objective; and every pending/in-flight task. Drop only resolved chit-chat and " ++
    "superseded intermediate reasoning. Do NOT add new facts, do NOT solve the task " ++
    "further, do NOT editorialize. Output ONLY the summary."

def compactionTranscriptStart : String := "\n\n--- TRANSCRIPT START ---\n"

def compactionTranscriptEnd : String := "\n--- TRANSCRIPT END ---\n\nDENSE SUMMARY:"

def compactionHistorySourceId : String := "mcp_dispatch_loop.compaction_history"

/-- The rendered context between the instruction and the end of the transcript. -/
def wrapTranscript (wire : List Char) : List Char :=
  compactionInstruction.toList ++ compactionTranscriptStart.toList ++ wire ++
    compactionTranscriptEnd.toList

/-- The largest character boundary up to `n`. -/
def floorBoundary (cs : List Char) (n : Nat) : Nat := bytes (takeBytes n cs)

/-- The smallest character boundary from `n` on. -/
def ceilBoundary : List Char → Nat → Nat
  | _, 0 => 0
  | [], n + 1 => n + 1
  | c :: cs, n + 1 => c.utf8Size + ceilBoundary cs (n + 1 - c.utf8Size)

section
variable [Sha256]

def buildCompactionPrompt (history : List Char) : Except String (List Char) :=
  match UntrustedContext.fromPreparedPayload .modelOutput compactionHistorySourceId
      (String.ofList history) (String.ofList history) with
  | none => .error "compaction history exceeds the canonical model-output envelope cap"
  | some context => .ok (wrapTranscript context.render)

/-- The binary search for the next chunk of `rest`; offsets count from its start. Nothing, where a
slice is not at a boundary or the loop takes more turns than `fuel`. -/
def chunkLoop (rest : List Char) (maxPromptTokens : Nat) : Nat → Nat → Nat →
    Option (Except String Nat)
  | 0, _, _ => none
  | fuel + 1, low, high =>
    if low < high then
      let probe := ceilBoundary rest (low + (high - low + 1) / 2)
      match sliceTo probe rest with
      | none => none
      | some chunk =>
        match buildCompactionPrompt chunk with
        | .error e => some (.error e)
        | .ok candidate =>
          if countTokensUpperBound candidate ≤ maxPromptTokens
            then chunkLoop rest maxPromptTokens fuel probe high
          else chunkLoop rest maxPromptTokens fuel low (max low (floorBoundary rest (probe - 1)))
    else some (.ok low)

def boundedLoop (maxPromptTokens : Nat) : Nat → List Char →
    Option (Except String (List (List Char)))
  | 0, _ => none
  | fuel + 1, rest =>
    if rest = [] then some (.ok [])
    else
      let classCap := UntrustedContextClass.modelOutput.maxPayloadBytes
      let high := floorBoundary rest (min classCap (bytes rest))
      match chunkLoop rest maxPromptTokens (fuel + 1) 0 high with
      | none => none
      | some (.error e) => some (.error e)
      | some (.ok low) =>
        if low = 0 then
          some
            (.error "compaction prompt cap cannot fit one UTF-8 scalar in its canonical envelope")
        else match sliceTo low rest, sliceFrom low rest with
          | some chunk, some rest =>
            match buildCompactionPrompt chunk with
            | .error e => some (.error e)
            | .ok prompt => (boundedLoop maxPromptTokens fuel rest).map fun prompts =>
              prompts.map (prompt :: ·)
          | _, _ => none

def buildBoundedCompactionPrompts (history : String) (maxPromptTokens fuel : Nat) :
    Option (Except String (List (List Char))) :=
  match buildCompactionPrompt [] with
  | .error e => some (.error e)
  | .ok emptyPrompt =>
    if maxPromptTokens < countTokensUpperBound emptyPrompt then
      some (.error "compaction prompt cap is smaller than its required framing")
    else if history.toList = [] then some (.ok [emptyPrompt])
    else boundedLoop maxPromptTokens fuel history.toList

end

/-! ## Boundaries -/

theorem exists_ceilBoundary {cs : List Char} {n : Nat} (h : n ≤ bytes cs) :
    ∃ p, p <+: cs ∧ bytes p = ceilBoundary cs n ∧ n ≤ bytes p ∧ ∀ q, q <+: cs → n ≤ bytes q →
    bytes p ≤ bytes q := by
  induction cs generalizing n with
  | nil =>
    obtain rfl : n = 0 := by simpa using h
    exact ⟨[], List.prefix_rfl, rfl, le_rfl, fun _ _ _ => Nat.zero_le _⟩
  | cons c cs ih =>
    cases n with
    | zero => exact ⟨[], List.nil_prefix, rfl, le_rfl, fun _ _ _ => Nat.zero_le _⟩
    | succ n =>
      rw [bytes_cons] at h
      obtain ⟨p, hinit, hbytes, hge, hleast⟩ := @ih (n + 1 - c.utf8Size) (by omega)
      refine ⟨c :: p, List.cons_prefix_cons.mpr ⟨rfl, hinit⟩, ?_, ?_, fun q hq hn => ?_⟩
      · rw [bytes_cons, hbytes, ceilBoundary]
      · rw [bytes_cons]
        omega
      · cases q with
        | nil => simp at hn
        | cons d q =>
          obtain ⟨rfl, htail⟩ := List.cons_prefix_cons.mp hq
          rw [bytes_cons] at hn ⊢
          have hle := hleast q htail (by omega)
          rw [bytes_cons]
          omega

theorem sliceTo_of_initial {p cs : List Char} (h : p <+: cs) : sliceTo (bytes p) cs = some p := by
  obtain ⟨post, rfl⟩ := h
  exact sliceTo_append p post

/-- The prefixes of a text are ordered by their sizes. -/
theorem initial_of_bytes_le {p q cs : List Char} (hp : p <+: cs) (hq : q <+: cs)
    (h : bytes p ≤ bytes q) : p <+: q := by
  rcases List.prefix_or_prefix_of_prefix hp hq with hpq | hqp
  · exact hpq
  · obtain ⟨rest, rfl⟩ := hqp
    rw [bytes_append] at h
    have hrest : rest = [] := by
      by_contra hne
      obtain ⟨c, rest, rfl⟩ := List.exists_cons_of_ne_nil hne
      have hpos := utf8Size_pos c
      rw [bytes_cons] at h
      omega
    rw [hrest, List.append_nil]

section
variable [Sha256]

/-! ## Prompts -/

/-- The context of a chunk that the envelope can hold. -/
def compactionContext (chunk : List Char) : UntrustedContext where
  class_ := .modelOutput
  sourceId := stableSourceId compactionHistorySourceId
  rootBytes := byteLen (String.ofList chunk)
  payloadBytes := byteLen (String.ofList chunk)
  sourceTruncated := false
  transform := .none
  lossy := false
  rootSha256 := sha256Hex (String.ofList chunk)
  parentSha256 := none
  payloadSha256 := sha256Hex (String.ofList chunk)
  data := String.ofList chunk
  retainedRoot := none

def promptOf (chunk : List Char) : List Char := wrapTranscript (compactionContext chunk).render

/-- The prompt of the chunk is within the cap. -/
def Fits (maxPromptTokens : Nat) (chunk : List Char) : Prop :=
  countTokensUpperBound (promptOf chunk) ≤ maxPromptTokens

variable {maxPromptTokens : Nat} {chunk chunk' rest : List Char}

theorem buildCompactionPrompt_eq
    (h : bytes chunk ≤ UntrustedContextClass.modelOutput.maxPayloadBytes) :
    buildCompactionPrompt chunk = .ok (promptOf chunk) := by
  unfold buildCompactionPrompt UntrustedContext.fromPreparedPayload
  rw [byteLen_ofList, if_neg (not_lt.mpr h)]
  simp only [ne_eq, not_true_eq_false, decide_false, Bool.false_eq_true, if_false]
  rw [promptOf, compactionContext, byteLen_ofList]

theorem narrower_compactionContext (hsub : chunk.Sublist chunk') :
    Narrower (compactionContext chunk) (compactionContext chunk') where
  class_ := rfl
  sourceId := rfl
  transform := rfl
  parentSha256 := rfl
  rootSha256 := bytes_sha256Hex (String.ofList chunk) (String.ofList chunk')
  payloadSha256 := bytes_sha256Hex (String.ofList chunk) (String.ofList chunk')
  rootBytes := by
    rw [compactionContext, compactionContext, byteLen_ofList, byteLen_ofList]
    exact bytes_le_of_sublist hsub
  payloadBytes := by
    rw [compactionContext, compactionContext, byteLen_ofList, byteLen_ofList]
    exact bytes_le_of_sublist hsub
  sourceTruncated := fun h => h
  lossy := fun h => h
  data := by
    rw [compactionContext, compactionContext, String.toList_ofList, String.toList_ofList]
    exact hsub

/-- **A part fits where the whole does.** -/
theorem fits_mono (h : Fits maxPromptTokens chunk') (hsub : chunk.Sublist chunk') :
    Fits maxPromptTokens chunk := by
  have hwire := bytes_render_mono (narrower_compactionContext hsub)
  refine le_trans (min_le_min_right u32Max ?_) h
  unfold promptOf wrapTranscript
  simp only [bytes_append]
  gcongr

/-! ## The search -/

/-- What the search keeps: a chunk of `low` bytes fits, and none beyond `high` does. -/
structure Searching (maxPromptTokens : Nat) (rest : List Char) (bound low high : Nat) : Prop where
  fits : ∃ p, p <+: rest ∧ bytes p = low ∧ Fits maxPromptTokens p
  ends : ∃ q, q <+: rest ∧ bytes q = high
  low_le : low ≤ high
  high_le : high ≤ bound
  beyond : ∀ q, q <+: rest → bytes q ≤ bound → high < bytes q → ¬ Fits maxPromptTokens q

variable {bound low high fuel : Nat}

theorem Searching.raise (h : Searching maxPromptTokens rest bound low high) {p : List Char}
    (hp : p <+: rest) (hhigh : bytes p ≤ high) (hfits : Fits maxPromptTokens p) :
    Searching maxPromptTokens rest bound (bytes p) high :=
  ⟨⟨p, hp, rfl, hfits⟩, h.ends, hhigh, h.high_le, h.beyond⟩

theorem Searching.lower (h : Searching maxPromptTokens rest bound low high) {p : List Char}
    (hp : p <+: rest)
    (hlow : low < bytes p) (hhigh : bytes p ≤ high) (hover : ¬ Fits maxPromptTokens p) :
    Searching maxPromptTokens rest bound low (max low (floorBoundary rest (bytes p - 1))) := by
  obtain ⟨p', hp', rfl, hfits⟩ := h.fits
  have hinit := takeBytes_initial (bytes p - 1) rest
  have hfloor := bytes_takeBytes_le (bytes p - 1) rest
  have hwithin : p' <+: takeBytes (bytes p - 1) rest := prefix_takeBytes_iff.mpr ⟨hp', by omega⟩
  have hmax : max (bytes p') (floorBoundary rest (bytes p - 1)) =
      bytes (takeBytes (bytes p - 1) rest) :=
    max_eq_right (bytes_le_of_initial hwithin)
  have hle := h.high_le
  rw [hmax]
  refine ⟨h.fits, ⟨_, hinit, rfl⟩, bytes_le_of_initial hwithin, by
    omega, fun q hq hbound hlt hqfits => ?_⟩
  have hbeyond : ¬ bytes q ≤ bytes p - 1 := fun hle =>
    absurd (bytes_le_of_initial (prefix_takeBytes_iff.mpr ⟨hq, hle⟩)) (not_le.mpr hlt)
  exact hover (fits_mono hqfits (initial_of_bytes_le hp hq (by omega)).sublist)

/-- **The search finds the longest chunk that fits.** -/
theorem chunkLoop_spec (hbound : bound ≤ UntrustedContextClass.modelOutput.maxPayloadBytes)
    (h : Searching maxPromptTokens rest bound low high) (hfuel : high - low < fuel) :
    ∃ p, chunkLoop rest maxPromptTokens fuel low high = some (.ok (bytes p)) ∧ p <+: rest ∧
    bytes p ≤ bound ∧
      Fits maxPromptTokens p ∧
      ∀ q, q <+: rest → bytes q ≤ bound → Fits maxPromptTokens q → bytes q ≤ bytes p := by
  induction fuel generalizing low high with
  | zero => omega
  | succ fuel ih =>
    have hhigh := h.high_le
    obtain ⟨q, hq, hqbytes⟩ := h.ends
    unfold chunkLoop
    by_cases hlt : low < high
    · have hqlen := bytes_le_of_initial hq
      obtain ⟨p, hp, hprobe, hge, hleast⟩ :=
        @exists_ceilBoundary rest (low + (high - low + 1) / 2) (by omega)
      have hphigh : bytes p ≤ high := hqbytes ▸ hleast q hq (by omega)
      rw [if_pos hlt, ← hprobe]
      simp only [sliceTo_of_initial hp,
        buildCompactionPrompt_eq (show bytes p ≤ _ from hphigh.trans (hhigh.trans hbound))]
      split
      · rename_i hfits
        exact ih (h.raise hp hphigh hfits) (by omega)
      · rename_i hover
        have hlower := h.lower hp (by omega) hphigh hover
        refine ih hlower ?_
        have hfloor := bytes_takeBytes_le (bytes p - 1) rest
        unfold floorBoundary
        omega
    · rw [if_neg hlt]
      obtain ⟨p, hp, rfl, hfits⟩ := h.fits
      have hle := h.low_le
      refine ⟨p, rfl, hp, by omega, hfits, fun r hr hbound hrfits => ?_⟩
      by_contra hbeyond
      exact h.beyond r hr hbound (by omega) hrfits

/-! ## The history -/

/-- What the loop makes of the rest of a history. -/
structure Covers (maxPromptTokens : Nat) (rest : List Char)
    (result : Except String (List (List Char))) : Prop where
  fails : (∃ e, result = .error e) ↔ ∃ c ∈ rest, ¬ Fits maxPromptTokens [c]
  covers : ∀ prompts, result = .ok prompts → ∃ chunks : List (List Char),
    prompts = chunks.map promptOf ∧
    chunks.flatten = rest ∧ ∀ chunk ∈ chunks, Fits maxPromptTokens chunk

theorem Covers.cons {result : Except String (List (List Char))}
    (h : Covers maxPromptTokens rest result) (hfits : Fits maxPromptTokens chunk) :
    Covers maxPromptTokens (chunk ++ rest) (result.map fun prompts => promptOf chunk ::
      prompts) where
  fails := by
    have hchars : ∀ c ∈ chunk, Fits maxPromptTokens [c] :=
      fun c hc => fits_mono hfits (List.singleton_sublist.mpr hc)
    have hrest : (∃ c ∈ chunk ++ rest, ¬ Fits maxPromptTokens [c]) ↔
        ∃ c ∈ rest, ¬ Fits maxPromptTokens [c] := by
      constructor
      · rintro ⟨c, hc, hover⟩
        rcases List.mem_append.mp hc with hc | hc
        · exact absurd (hchars c hc) hover
        · exact ⟨c, hc, hover⟩
      · rintro ⟨c, hc, hover⟩
        exact ⟨c, List.mem_append_right _ hc, hover⟩
    rw [hrest, ← h.fails]
    cases result <;> simp [Except.map]
  covers := by
    intro prompts hprompts
    cases result with
    | error e => cases hprompts
    | ok prompts' =>
      obtain ⟨chunks, rfl, hflatten, hall⟩ := h.covers prompts' rfl
      cases hprompts
      exact ⟨chunk :: chunks, rfl, by rw [List.flatten_cons, hflatten],
        List.forall_mem_cons.mpr ⟨hfits, hall⟩⟩

/-- **The loop over the history.** -/
theorem boundedLoop_spec (hframing : Fits maxPromptTokens []) (hfuel : bytes rest < fuel) :
    ∃ result, boundedLoop maxPromptTokens fuel rest = some result ∧
    Covers maxPromptTokens rest result := by
  induction fuel generalizing rest with
  | zero => omega
  | succ fuel ih =>
    unfold boundedLoop
    rcases eq_or_ne rest [] with rfl | hne
    · refine ⟨.ok [], if_pos rfl, by simp, ?_⟩
      rintro _ ⟨⟩
      exact ⟨[], rfl, rfl, by simp⟩
    rw [if_neg hne]
    dsimp only
    have hcap := min_le_left UntrustedContextClass.modelOutput.maxPayloadBytes (bytes rest)
    have hroom : 4 ≤ UntrustedContextClass.modelOutput.maxPayloadBytes := by decide
    generalize hbound : min UntrustedContextClass.modelOutput.maxPayloadBytes (bytes rest) =
      size at hcap ⊢
    have hfloor : floorBoundary rest size ≤ size := bytes_takeBytes_le _ _
    have hstart : Searching maxPromptTokens rest (floorBoundary rest size) 0
        (floorBoundary rest size) :=
      ⟨⟨[], List.nil_prefix, rfl, hframing⟩, ⟨_, takeBytes_initial _ _, rfl⟩, Nat.zero_le _, le_rfl,
        fun q _ hle hlt => absurd hle (not_le.mpr hlt)⟩
    obtain ⟨p, hloop, hp, hple, hfits, hlongest⟩ :=
      chunkLoop_spec (hfloor.trans hcap) hstart (show _ < fuel + 1 by omega)
    rw [hloop]
    dsimp only
    rcases eq_or_ne p [] with rfl | hpne
    · obtain ⟨c, cs, rfl⟩ := List.exists_cons_of_ne_nil hne
      refine ⟨_, if_pos rfl, iff_of_true ⟨_, rfl⟩ ⟨c, List.mem_cons_self, fun hc => ?_⟩,
        fun _ h => by cases h⟩
      have hsize := Char.utf8Size_le_four c
      have hfirst : [c] <+: takeBytes size (c :: cs) :=
        prefix_takeBytes_iff.mpr ⟨List.cons_prefix_cons.mpr ⟨rfl, List.nil_prefix⟩, by
          simp at hbound ⊢; omega⟩
      have hle :=
        hlongest [c] (hfirst.trans (takeBytes_initial _ _)) (bytes_le_of_initial hfirst) hc
      have hpos := utf8Size_pos c
      simp at hle
      omega
    · obtain ⟨c, ps, rfl⟩ := List.exists_cons_of_ne_nil hpne
      have hpos := utf8Size_pos c
      obtain ⟨rest', rfl⟩ := hp
      obtain ⟨result, hrest, hcovers⟩ :=
        @ih rest' (by rw [bytes_append, bytes_cons] at hfuel; omega)
      refine ⟨_, ?_, hcovers.cons hfits⟩
      rw [if_neg (by rw [bytes_cons]; omega), sliceTo_append, sliceFrom_append]
      dsimp only
      rw [buildCompactionPrompt_eq (hple.trans (hfloor.trans hcap)), hrest]
      rfl

/-- The data of the envelope in a prompt, read as the tests read it: the third line between the
parts of the framing. -/
def payloadOf (prompt : List Char) : Option String := do
  let rest ← prompt.dropPrefix? (compactionInstruction.toList ++ compactionTranscriptStart.toList)
  let envelope ← rest.dropSuffix? compactionTranscriptEnd.toList
  let wire ← (lines envelope)[2]?
  match decode wire with
  | some (.object members) => (members.find? (·.1 = "data")).bind fun member =>
    match member.2 with
    | .string data => some data
    | _ => none
  | _ => none

omit [Sha256] in
/-- The third of four lines. -/
theorem lines_third {first second third last : List Char} (hfirst : '\n' ∉ first)
    (hsecond : '\n' ∉ second)
    (hthird : '\n' ∉ third) (hlast : '\n' ∉ last) (hreturn : third.getLast? ≠ some '\r') :
    (lines (first ++ '\n' :: second ++ '\n' :: third ++ '\n' :: last))[2]? = some third := by
  have hlineless : ∀ {cs : List Char}, '\n' ∉ cs → ∀ c ∈ cs, (c == '\n') = false := fun h c hc =>
    beq_eq_false_iff_ne.mpr fun heq => h (heq ▸ hc)
  have hparts : (first ++ '\n' :: second ++ '\n' :: third ++ '\n' :: last).splitOnP (· == '\n') =
      [first, second, third, last] := by
    simp only [List.append_assoc, List.cons_append]
    rw [List.splitOnP_append_cons_of_forall_mem (hlineless hfirst) _ rfl,
      List.splitOnP_append_cons_of_forall_mem (hlineless hsecond) _ rfl,
      List.splitOnP_append_cons_of_forall_mem (hlineless hthird) _ rfl,
      List.splitOnP_eq_singleton (hlineless hlast)]
  unfold lines
  rw [hparts]
  simp only [List.dropLast, List.map_cons, List.map_nil, if_neg hreturn, List.getLast?_cons_cons,
    List.getLast?_singleton]
  cases last <;> rfl

omit [Sha256] in
/-- The lines of an envelope are the guards, the policy and the body. -/
theorem lines_render (u : UntrustedContext) :
    (lines u.render)[2]? = some u.wireBody := by
  have hopen : '\n' ∉ guardOpen.toList := not_mem_ofList _ (by decide +kernel)
  have hpolicy : '\n' ∉ policyPreamble.toList := not_mem_policyPreamble (.inr rfl)
  have hclose : '\n' ∉ guardClose.toList := not_mem_ofList _ (by decide +kernel)
  have hbody : '\n' ∉ u.wireBody := fun hc => absurd (u.inert_wireBody _ hc).1 (by decide)
  have hreturn : u.wireBody.getLast? ≠ some '\r' := fun hlast =>
    absurd (u.inert_wireBody _ (List.mem_of_getLast? hlast)).1 (by decide)
  rw [UntrustedContext.render]
  exact lines_third hopen hpolicy hbody hclose hreturn

omit [Sha256] in
/-- What is framed is found between the parts of the frame. -/
theorem dropFrame (first middle last : List Char) :
    (first ++ middle ++ last).dropPrefix? first = some (middle ++ last) ∧
      (middle ++ last).dropSuffix? last = some middle := by
  refine ⟨?_, List.dropSuffix?_eq_some_iff.mpr ⟨_, rfl, beq_self_eq_true _⟩⟩
  rw [List.append_assoc]
  exact List.dropPrefix?_append_of_beq _ (beq_self_eq_true _)

omit [Sha256] in
theorem payloadOf_eq {prompt rest envelope wire : List Char} {members : List (String × Value)}
    {data : String}
    (hstart : prompt.dropPrefix? (compactionInstruction.toList ++
      compactionTranscriptStart.toList) = some rest)
    (hstop : rest.dropSuffix? compactionTranscriptEnd.toList = some envelope)
    (hwire : (lines envelope)[2]? = some wire) (hdecode : decode wire = some (.object members))
    (hdata : members.find? (·.1 = "data") = some ("data", .string data)) :
      payloadOf prompt = some data := by
  rw [payloadOf, hstart, Option.bind_eq_bind, Option.bind_some, hstop, Option.bind_some, hwire,
    Option.bind_some, hdecode]
  dsimp only
  rw [hdata, Option.bind_some]

/-- **Each prompt carries its chunk.** -/
theorem payloadOf_promptOf (chunk : List Char) :
    payloadOf (promptOf chunk) = some (String.ofList chunk) := by
  obtain ⟨hstart, hstop⟩ :=
    dropFrame (compactionInstruction.toList ++ compactionTranscriptStart.toList)
    (compactionContext chunk).render compactionTranscriptEnd.toList
  rw [← wrapTranscript, ← promptOf] at hstart
  refine payloadOf_eq hstart hstop (lines_render _) (UntrustedContext.decode_wireBody _) ?_
  simp [values, UntrustedContext.entries, compactionContext]

/-- **Envelopes are fitted exactly, and no history is dropped.**  The fit of a context fails exactly
where the empty envelope does not fit, and carries the longest prefix that fits. The prompts of a
history fail exactly where the framing or a single character is above the cap; each is within the
cap, and their data is the history. -/
theorem envelope_fitting_exact :
    (∀ (root : String) (u : UntrustedContext), Built root u → ∀ maxWireBytes,
      (u.fitToWireLimit maxWireBytes = none ↔
        maxWireBytes < bytes (u.withCurrentPayloadLimit 0).render) ∧
        ∀ u', u.fitToWireLimit maxWireBytes = some u' → Longest u maxWireBytes u') ∧
    ∀ (history : String) (maxPromptTokens fuel : Nat), byteLen history < fuel →
      ∃ result, buildBoundedCompactionPrompts history maxPromptTokens fuel = some result ∧
        ((∃ e, result = .error e) ↔
          ¬ Fits maxPromptTokens [] ∨ ∃ c ∈ history.toList, ¬ Fits maxPromptTokens [c]) ∧
        ∀ prompts, result = .ok prompts →
        (∀ prompt ∈ prompts, countTokensUpperBound prompt ≤ maxPromptTokens) ∧
          ∃ payloads : List String, prompts.map payloadOf = payloads.map some ∧
            payloads.flatMap String.toList = history.toList := by
  refine ⟨fun root u h maxWireBytes => fitToWireLimit_exact h.sound maxWireBytes, ?_⟩
  intro history maxPromptTokens fuel hfuel
  have hpayloads : ∀ chunks : List (List Char), (chunks.map promptOf).map payloadOf =
      (chunks.map String.ofList).map some ∧
      (chunks.map String.ofList).flatMap String.toList = chunks.flatten := by
    intro chunks
    constructor
    · simp [payloadOf_promptOf, Function.comp_def]
    · simp [List.flatMap_map, List.flatMap_id']
  unfold buildBoundedCompactionPrompts
  rw [buildCompactionPrompt_eq (Nat.zero_le _)]
  dsimp only
  by_cases hframing : Fits maxPromptTokens []
  · rw [if_neg (not_lt.mpr hframing)]
    split
    · rename_i hempty
      refine ⟨_, rfl, iff_of_false (by simp) (by simp [hframing, hempty]), ?_⟩
      rintro _ ⟨⟩
      refine ⟨List.forall_mem_singleton.mpr hframing, [""], ?_, by simp [hempty]⟩
      simp [payloadOf_promptOf]
    · rw [byteLen_eq_bytes] at hfuel
      obtain ⟨result, hrun, hcovers⟩ := boundedLoop_spec hframing hfuel
      refine ⟨result, hrun, by rw [hcovers.fails, or_iff_right (not_not.mpr hframing)],
        fun prompts hprompts => ?_⟩
      obtain ⟨chunks, rfl, hflatten, hfits⟩ := hcovers.covers prompts hprompts
      refine ⟨List.forall_mem_map.mpr hfits, chunks.map String.ofList, (hpayloads chunks).1, ?_⟩
      rw [(hpayloads chunks).2, hflatten]
  · rw [if_pos (not_le.mp hframing)]
    exact ⟨_, rfl, iff_of_true ⟨_, rfl⟩ (.inl hframing), fun _ h => by cases h⟩

end

section Samples

attribute [local instance] Sha256.fips

def samplePage : UntrustedContext := .new .web "https://page" "text"

def sampleHalf : UntrustedContext := samplePage.withCurrentPayloadLimit 2

theorem bytes_sampleHalf_lt : bytes sampleHalf.render < bytes samplePage.render := by
  have hbody : bytes sampleHalf.wireBody < bytes samplePage.wireBody := by
    unfold sampleHalf samplePage
    rw [Sha256.fips_eq]
    decide +kernel
  simp only [UntrustedContext.render, bytes_append, bytes_cons]
  omega

/-- A page where two of its four characters fit, and a history where two characters fit a prompt. -/
theorem envelope_fitting_exact_sample :
    (∃ u, samplePage.fitToWireLimit (bytes sampleHalf.render) = some u ∧
      ['t', 'e'] <+: u.data.toList ∧ u ≠ samplePage) ∧
    ∃ prompts, buildBoundedCompactionPrompts "aaaa"
        (countTokensUpperBound (promptOf ['a', 'a'])) 20 = some (.ok prompts) ∧
      (∀ prompt ∈ prompts, countTokensUpperBound prompt ≤
        countTokensUpperBound (promptOf ['a', 'a'])) ∧
      ∃ payloads : List String, prompts.map payloadOf = payloads.map some ∧
        payloads.flatMap String.toList = "aaaa".toList := by
  obtain ⟨hfit, hprompts⟩ := envelope_fitting_exact
  constructor
  · obtain ⟨hnone, hsome⟩ :=
      hfit "text" samplePage (.new .web "https://page") (bytes sampleHalf.render)
    have hempty : FitsAt samplePage (bytes sampleHalf.render) 0 :=
      FitsAt.mono (le_refl (bytes sampleHalf.render)) (by decide)
    cases hresult : samplePage.fitToWireLimit (bytes sampleHalf.render) with
    | none => exact absurd (hnone.mp hresult) (not_lt.mpr hempty)
    | some u =>
      have hu := hsome u hresult
      refine ⟨u, rfl, hu.longest ['t', 'e'] ⟨['x', 't'], rfl⟩ le_rfl, ?_⟩
      rintro rfl
      exact absurd hu.fits (not_le.mpr bytes_sampleHalf_lt)
  · obtain ⟨result, hrun, hfails, hok⟩ :=
      hprompts "aaaa" (countTokensUpperBound (promptOf ['a', 'a'])) 20 (by decide)
    have hfits : ∀ chunk, chunk.Sublist ['a', 'a'] →
        Fits (countTokensUpperBound (promptOf ['a', 'a'])) chunk := fun chunk =>
      fits_mono (le_refl (countTokensUpperBound _))
    cases result with
    | error e =>
      rcases hfails.mp ⟨e, rfl⟩ with hframing | ⟨c, hc, hover⟩
      · exact absurd (hfits [] (List.nil_sublist _)) hframing
      · obtain rfl : c = 'a' := by simpa using hc
        exact absurd (hfits ['a'] (by decide)) hover
    | ok prompts => exact ⟨prompts, hrun, hok prompts rfl⟩

end Samples

end Neoth.Pipeline
