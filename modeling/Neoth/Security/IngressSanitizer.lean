import Neoth.Lib.Text
import Neoth.Wal.Clock

/-!
# The channel ingress gate

`security/ingress_sanitizer.rs`: a message that is too long is dropped unread, the others are
brought to NFKC form, the invisible characters are taken out, and what is left is scanned for
markers.  Each gate runs once, in this order.

* `text_of_accepted`: what the four gates make of a message that passes;
* `acceptedAgain_iff`: the gate accepts its own output and leaves it alone if and only if the text
  is still in NFKC form without the invisible characters, and within the limit.

NFKC, lower case, the letters and the regular expression of the paraphrases are parameters.
-/

open Lib.Encoding Lib.Text Neoth.Wal

namespace Neoth.Security

/-- What the gate takes from its libraries. -/
class IngressText where
  nfkc : List Char → List Char
  nfkc_idem : ∀ cs, nfkc (nfkc cs) = nfkc cs
  toLowercase : List Char → List Char
  isAlphabetic : Char → Bool
  /-- `Regex::new(pattern)`, and the leftmost match. -/
  find : String → List Char → Option (List Char)

open IngressText

def maxIngressBytes : Nat := 64 * 1024

inductive IngressTrust
  | untrusted
  | authenticatedOperator
  deriving DecidableEq

inductive Finding
  | oversizeInput (bytes limit : Nat)
  | neededNfkcNormalization
  | badControlChar (codepoint count : Nat)
  | promptInjectionMarker (pattern : List Char)
  | personaOverrideAttempt (pattern : List Char)

structure SanitizeReport where
  quarantined : Bool
  findings : List Finding
  text : List Char
  inputHash : UInt64
  tsUnix : Nat
  channel : String

def promptInjectionPatterns : List String :=
  [ -- English
    "ignore previous instructions", "ignore all previous", "disregard prior",
    -- role escape
    "###system", "[INST]", "<|im_start|>", "<|im_end|>", "Human:", "Assistant:", "system prompt:",
    -- German
    "ignoriere alle vorherigen", "ignoriere vorherige", "vergiss alle vorherigen",
    "missachte vorherige",
    -- Spanish
    "ignora las instrucciones", "ignora todas las instrucciones", "olvida las instrucciones",
    -- French
    "ignorez toutes les instructions", "ignorez les instructions précédentes",
    "oubliez les instructions",
    -- fabricated tool calls
    "bash(", "function_call(", "tool_use\x7b", "tool_calls:",
    -- impersonation
    "this document is from your operator", "from your operator approve", "admin override",
    "this is a directive from",
    -- exfiltration
    "<paste your last", "<paste any key", "<insert memory here>", "<insert credentials>"]

def personaOverridePatterns : List String :=
  ["ignore your persona", "forget your persona", "change your persona", "act as ", "you are now ",
    "pretend you are ", "pretend to be ", "roleplay as ", "role-play as ", "behave as ",
    "switch to ", "drop your persona", "abandon your persona", "override your persona",
    "your new persona", "your true self", "jailbreak", "dan mode", "developer mode", "sudo mode",
    "ignoriere deine persona", "vergiss deine persona", "tu so als ob du ", "du bist jetzt ",
    "verhalte dich als ", "wechsle zu ", "deine neue persona", "ändere deine persona"]

/-- Zero-width characters, the controls of direction, and the invisible operators. -/
def isBadControl (c : Char) : Bool :=
  let cp := c.toNat
  cp == 0x200b || cp == 0x200c || cp == 0x200d || cp == 0xfeff || (0x202a ≤ cp && cp ≤ 0x202e) ||
    (0x2066 ≤ cp && cp ≤ 0x2069) || (0x2060 ≤ cp && cp ≤ 0x2064)

def decorativeLetterFold (c : Char) : Char :=
  let cp := c.toNat
  if 0x1f170 ≤ cp ∧ cp ≤ 0x1f189 then Char.ofNat ('a'.toNat + (cp - 0x1f170))
  else if 0x1f130 ≤ cp ∧ cp ≤ 0x1f149 then Char.ofNat ('a'.toNat + (cp - 0x1f130))
  else if 0x24b6 ≤ cp ∧ cp ≤ 0x24cf then Char.ofNat ('a'.toNat + (cp - 0x24b6))
  else if 0x24d0 ≤ cp ∧ cp ≤ 0x24e9 then Char.ofNat ('a'.toNat + (cp - 0x24d0))
  else c

def contains (text needle : List Char) : Bool := decide (needle <:+: text)

/-- Gate 3. -/
def stripControls (normalized : List Char) : List Char := normalized.filter fun c => !isBadControl c

theorem stripControls_idem (cs : List Char) :
    stripControls (stripControls cs) = stripControls cs := by
  simp [stripControls]

theorem noControls_stripControls {c : Char} {cs : List Char} (h : c ∈ stripControls cs) :
    isBadControl c = false := by
  simpa using (List.mem_filter.mp h).2

/-- The counts of gate 3, by code point. -/
def badControlFindings (normalized : List Char) : List Finding :=
  let bad := (normalized.filter isBadControl).map Char.toNat
  (bad.dedup.insertionSort (· ≤ ·)).map fun cp => .badControlChar cp (bad.count cp)

section
variable [IngressText]

/-- The scanner of step 2: the dot of `letter . letter` is skipped, and the second letter is read
again. -/
def collapseDots : List Char → List Char
  | c :: '.' :: d :: rest =>
    if isAlphabetic c && isAlphabetic d then c :: collapseDots (d :: rest)
    else c :: collapseDots ('.' :: d :: rest)
  | c :: rest => c :: collapseDots rest
  | [] => []

def pl04NormalizeForMarkerScan (text : List Char) : List Char :=
  let joined := [' '].intercalate ((lines text).filter fun line =>
    let t := trimText line
    t ≠ [] && !t.all Char.isDigit)
  (collapseDots joined).map decorativeLetterFold

def paraphrasePattern : String :=
  "(?i)\\b(forget|disregard|ignore|overlook|skip|bypass|set\\s+aside|put\\s+aside)\\b.\x7b1,40\x7d" ++
  "\\b(earlier|prior|previous|preceding|above)\\b.\x7b1,40\x7d" ++
  "\\b(directives?|instructions?|orders?|rules?|guidance|commands?|prompts?)\\b"

def pl04ParaphraseMatch (lower : List Char) : Option (List Char) :=
  (find paraphrasePattern lower).map ("paraphrase-matrix:".toList ++ ·)

def firstPattern (patterns : List String) (hit : List Char → Bool) : Option (List Char) :=
  (patterns.find? fun pattern => hit (toLowercase pattern.toList)).map String.toList

/-- Gates 4 and 5: the first finding quarantines. -/
def scanMarkers (identityLocked : Bool) (trust : IngressTrust) (stripped : List Char) :
    Option Finding :=
  let lower := toLowercase stripped
  let normalizedForScan := toLowercase (pl04NormalizeForMarkerScan stripped)
  if trust = .untrusted then
    (firstPattern promptInjectionPatterns (contains lower)).map .promptInjectionMarker <|>
    (if normalizedForScan ≠ lower then
      (firstPattern promptInjectionPatterns (contains normalizedForScan)).map .promptInjectionMarker
    else none) <|>
    (pl04ParaphraseMatch lower <|> pl04ParaphraseMatch normalizedForScan).map
      .promptInjectionMarker <|>
    (if identityLocked then
      (firstPattern personaOverridePatterns fun needle =>
        contains lower needle || contains normalizedForScan needle).map .personaOverrideAttempt
    else none)
  else none

variable [Xxh3]

def sanitizeWithTrust (input : List Char) (channel : String) (identityLocked : Bool)
    (trust : IngressTrust) (now : Nat) : SanitizeReport :=
  let inputHash := Xxh3.hash (input.flatMap String.utf8EncodeChar)
  if maxIngressBytes < bytes input then
    ⟨true, [.oversizeInput (bytes input) maxIngressBytes], [], inputHash, now, channel⟩
  else
    let normalized := nfkc input
    let stripped := stripControls normalized
    let findings := (if normalized ≠ input then [.neededNfkcNormalization] else []) ++
      badControlFindings normalized
    match scanMarkers identityLocked trust stripped with
    | some finding => ⟨true, findings ++ [finding], [], inputHash, now, channel⟩
    | none => ⟨false, findings, stripped, inputHash, now, channel⟩

def sanitize (input : List Char) (channel : String) (identityLocked : Bool) (now : Nat) :
    SanitizeReport :=
  sanitizeWithTrust input channel identityLocked .untrusted now

/-- What an accepted message became. -/
theorem text_of_accepted {input : List Char} {channel : String} {identityLocked : Bool}
    {trust : IngressTrust} {now : Nat}
    (h : (sanitizeWithTrust input channel identityLocked trust now).quarantined = false) :
    (sanitizeWithTrust input channel identityLocked trust now).text = stripControls (nfkc input) ∧
      scanMarkers identityLocked trust (stripControls (nfkc input)) = none := by
  unfold sanitizeWithTrust at h ⊢
  split at h
  · cases h
  · rename_i hfits
    rw [if_neg hfits]
    cases hscan : scanMarkers identityLocked trust (stripControls (nfkc input)) with
    | some finding => simp [hscan] at h
    | none => simp [hscan]

/-- A text in the form of an accepted message is accepted as it is. -/
theorem sanitize_of_form {text : List Char} {identityLocked : Bool} {trust : IngressTrust}
    (hfits : bytes text ≤ maxIngressBytes) (hform : stripControls (nfkc text) = text)
    (hscan : scanMarkers identityLocked trust text = none) (channel : String) (now : Nat) :
    (sanitizeWithTrust text channel identityLocked trust now).quarantined = false ∧
      (sanitizeWithTrust text channel identityLocked trust now).text = text := by
  unfold sanitizeWithTrust
  rw [if_neg hfits.not_gt]
  simp [hform, hscan]

/-- What an accepted message is: it goes through the same gate again, unchanged. -/
structure AcceptedAgain (text : List Char) (channel : String) (identityLocked : Bool)
    (trust : IngressTrust) : Prop where
  fits : bytes text ≤ maxIngressBytes
  normal : nfkc text = text
  noControls : ∀ c ∈ text, isBadControl c = false
  accepted : ∀ now, (sanitizeWithTrust text channel identityLocked trust now).quarantined = false
  unchanged : ∀ now, (sanitizeWithTrust text channel identityLocked trust now).text = text

/-- The gate's own output passes the gate if and only if taking out the invisible characters left
the text in NFKC form, and NFKC did not stretch it beyond the limit. -/
theorem acceptedAgain_iff (input : List Char) (channel : String) (identityLocked : Bool)
    (trust : IngressTrust) (now : Nat)
    (h : (sanitizeWithTrust input channel identityLocked trust now).quarantined = false) :
    AcceptedAgain (sanitizeWithTrust input channel identityLocked trust now).text channel
      identityLocked trust ↔
      nfkc (stripControls (nfkc input)) = stripControls (nfkc input) ∧
      bytes (stripControls (nfkc input)) ≤ maxIngressBytes := by
  obtain ⟨htext, hscan⟩ := text_of_accepted h
  rw [htext]
  constructor
  · exact fun hagain => ⟨hagain.normal, hagain.fits⟩
  · rintro ⟨hnormal, hfits⟩
    have hform : stripControls (nfkc (stripControls (nfkc input))) =
        stripControls (nfkc input) := by
      rw [hnormal, stripControls_idem]
    have hagain := sanitize_of_form hfits hform hscan channel
    exact ⟨hfits, hnormal, fun c hc => noControls_stripControls hc, fun now => (hagain now).1,
      fun now => (hagain now).2⟩

end

/-! ## A composition behind a zero-width space -/

/-- NFKC on texts whose only composition is that of `e` and the acute accent. -/
def composeAcute : List Char → List Char
  | 'e' :: '\u0301' :: rest => 'é' :: composeAcute rest
  | c :: rest => c :: composeAcute rest
  | [] => []

theorem head_composeAcute {cs : List Char} (h : cs.head? ≠ some '\u0301') :
    (composeAcute cs).head? ≠ some '\u0301' := by
  fun_cases composeAcute cs with
  | case1 rest => simp
  | case2 c rest hc => simpa using h
  | case3 => simp

theorem composeAcute_cons {c : Char} {rest : List Char}
    (h : ¬(c = 'e' ∧ rest.head? = some '\u0301')) :
    composeAcute (c :: rest) = c :: composeAcute rest := by
  rw [composeAcute]
  rintro tail rfl rfl
  exact h ⟨rfl, rfl⟩

theorem composeAcute_idem (cs : List Char) : composeAcute (composeAcute cs) = composeAcute cs := by
  fun_induction composeAcute cs with
  | case1 rest ih => rw [composeAcute_cons (by simp), ih]
  | case2 c rest hc ih =>
    have hnext : ¬(c = 'e' ∧ (composeAcute rest).head? = some '\u0301') := by
      rintro ⟨rfl, hhead⟩
      refine head_composeAcute ?_ hhead
      intro hrest
      obtain ⟨tail, rfl⟩ := List.head?_eq_some_iff.mp hrest
      exact hc tail rfl rfl
    rw [composeAcute_cons hnext, ih]
  | case3 => rfl

@[reducible] def acuteText : IngressText where
  nfkc := composeAcute
  nfkc_idem := composeAcute_idem
  toLowercase := fun cs => cs.map Char.toLower
  isAlphabetic := Char.isAlpha
  find := fun _ _ => none

/-- A hash for the reports of the examples. -/
@[reducible] def zeroHash : Xxh3 := ⟨fun _ => 0⟩

/-- The accent reaches its letter only when the space between them is gone. -/
theorem not_acceptedAgain_hidden_accent :
    (@sanitize acuteText zeroHash ['e', '\u200b', '\u0301'] "telegram" false 0).quarantined =
      false ∧
    ¬ @AcceptedAgain acuteText zeroHash
      (@sanitize acuteText zeroHash ['e', '\u200b', '\u0301'] "telegram" false 0).text "telegram"
        false .untrusted := by
  constructor
  · decide +kernel
  · intro h
    have hnormal := @AcceptedAgain.normal acuteText zeroHash _ _ _ _ h
    revert hnormal
    decide +kernel

theorem acceptedAgain_hello : @AcceptedAgain acuteText zeroHash
    (@sanitize acuteText zeroHash ['h', 'e', '\u0301', 'l', '\u200b', 'o'] "telegram" true 0).text
      "telegram" true .untrusted :=
  (@acceptedAgain_iff acuteText zeroHash ['h', 'e', '\u0301', 'l', '\u200b', 'o'] "telegram" true
    .untrusted 0 (by decide +kernel)).mpr (by decide +kernel)

end Neoth.Security
