import Neoth.Lib.Cuts
import Neoth.Lib.Text
import Neoth.Memory.Indexer

/-!
# The ingress sanitizer

`memory/ingress.rs`: angle-bracket entities are decoded, invisible characters dropped, wrapper tags
taken out and the ends trimmed, each once and in this order.  `sanitize` is in `Memory/Indexer`;
here its tags are those of the pattern.

* `IsTag`, `tagLen`: what `wrapper_tag_regex` matches, and the match at the head of a text;
* `textOf_eq`: the text is the trimmed parts between the tags of the scrubbed text;
* `not_hasTag_part`, `hasTag_untagged_iff`: no part holds a tag, so one that is left runs over the
  end of a part;
* **`sanitizer_law_iff`**: the text is clean, and sanitizing it again changes nothing, if and only
  if no tag runs over the end of a part and no entity is left in the parts.

The word characters of the regular expression's `\b` are a parameter.
-/

open Lib.Encoding Lib.Text Lib.Cuts

namespace Neoth.Memory

/-! ## Wrapper tags -/

/-- The characters of `\w`. -/
class RegexWords where
  isWord : Char → Bool

/-- The letter that a character is under `(?i)`: beside the capitals, the long s and the Kelvin sign
fold. -/
def foldCase (c : Char) : Char :=
  if 'A' ≤ c ∧ c ≤ 'Z' then Char.ofNat (c.toNat + 32)
  else if c.toNat = 0x17f then 's'
  else if c.toNat = 0x212a then 'k'
  else c

/-- `[a-z0-9_]`. -/
def isNameChar (c : Char) : Bool :=
  let c := foldCase c
  ('a' ≤ c && c ≤ 'z') || ('0' ≤ c && c ≤ '9') || c == '_'

def wrapperNames : List String :=
  ["system-reminder", "thinking", "function_calls", "invoke", "parameter"]

/--
`system-reminder|thinking|function_calls|invoke|parameter|antml:[a-z0-9_]+|[a-z0-9_]+-recall`. -/
def isWrapperName (name : List Char) : Bool :=
  let folded := name.map foldCase
  let family := "antml:".toList
  let memory := "-recall".toList
  wrapperNames.any (·.toList = folded) ||
    (family.isPrefixOf folded && folded != family && (name.drop family.length).all isNameChar) ||
    (memory.isSuffixOf folded && folded != memory &&
      (name.take (name.length - memory.length)).all isNameChar)

section Pattern
variable [RegexWords]

/-- `/?\s*(?:…)\b[^>]*`, of a text without `>`. -/
def isTagBody (body : List Char) : Bool :=
  let body := trimStart (if body.head? = some '/' then body.tail else body)
  (List.range (body.length + 1)).any fun n =>
    isWrapperName (body.take n) && !((body.drop n).head?.any RegexWords.isWord)

/-- What `wrapper_tag_regex` matches. -/
def IsTag (tag : List Char) : Prop :=
  ∃ body, tag = '<' :: (body ++ ['>']) ∧ '>' ∉ body ∧ isTagBody body = true

def HasTag (text : List Char) : Prop := ∃ tag, IsTag tag ∧ tag <:+: text

/-- The length of the match at the head of a text. -/
def tagLen (text : List Char) : Option Nat :=
  let body := text.tail.takeWhile (· != '>')
  if text.head? = some '<' ∧ body.length < text.tail.length ∧ isTagBody body = true
    then some (body.length + 2)
  else none

/-- `wrapper_tag_regex().replace_all(text, "")`. -/
@[reducible] def wrapperTags : WrapperTags := ⟨removeFrom tagLen 0⟩

theorem IsTag.ne_nil {tag : List Char} (h : IsTag tag) : tag ≠ [] := by
  obtain ⟨body, rfl, -⟩ := h
  exact List.cons_ne_nil _ _

theorem IsTag.ends {tag : List Char} (h : IsTag tag) :
    tag.head? = some '<' ∧ tag.getLast? = some '>' := by
  obtain ⟨body, rfl, -⟩ := h
  refine ⟨rfl, ?_⟩
  rw [← List.cons_append, List.getLast?_append_of_ne_nil _ (by simp)]
  rfl

/-- The body of a match ends at the first `>`. -/
theorem tagLen_of_starts {tag text : List Char} (h : IsTag tag) (hstarts : tag <+: text) :
    tagLen text ≠ none := by
  obtain ⟨body, rfl, hbody, hname⟩ := h
  obtain ⟨post, rfl⟩ := hstarts
  have hfirst : (body ++ '>' :: post).takeWhile (· != '>') = body := by
    rw [List.takeWhile_append_of_pos, List.takeWhile_cons_of_neg (by simp), List.append_nil]
    rintro c hc
    exact bne_iff_ne.mpr fun heq => hbody (heq ▸ hc)
  simp [tagLen, hfirst, hname]

theorem starts_of_tagLen {text : List Char} {n : Nat} (h : tagLen text = some n) :
    ∃ tag, IsTag tag ∧ tag <+: text :=
  by
  dsimp only [tagLen] at h
  split at h
  · rename_i hmatch
    obtain ⟨hopen, hlen, hname⟩ := hmatch
    obtain ⟨rest, rfl⟩ := List.head?_eq_some_iff.mp hopen
    rw [List.tail_cons] at hlen hname
    have hsplit := @List.takeWhile_append_dropWhile _ (· != '>') rest
    obtain ⟨c, post, hpost⟩ : ∃ c post, rest.dropWhile (· != '>') = c :: post := by
      refine List.exists_cons_of_ne_nil fun hnil => hlen.ne ?_
      rw [hnil, List.append_nil] at hsplit
      rw [hsplit]
    obtain rfl : c = '>' := by simpa [hpost] using List.head?_dropWhile_not (· != '>') rest
    refine ⟨'<' :: (rest.takeWhile (· != '>') ++ ['>']), ⟨_, rfl, fun hin => ?_, hname⟩, ?_⟩
    · simpa using List.mem_takeWhile_imp hin
    · refine List.cons_prefix_cons.mpr ⟨rfl, post, ?_⟩
      rw [List.append_assoc, List.singleton_append, ← hpost, hsplit]
  · cases h

end Pattern

/-! ## Entities -/

theorem length_replaceFrom_le {pattern replacement : List Char}
    (hlen : replacement.length ≤ pattern.length)
    (skip : Nat) (s : List Char) : (replaceFrom pattern replacement skip s).length ≤
      s.length - skip := by
  induction s generalizing skip with
  | nil => cases skip <;> simp [replaceFrom]
  | cons c rest ih =>
    cases skip with
    | succ skip => simpa [replaceFrom] using ih skip
    | zero =>
      unfold replaceFrom
      split
      · rename_i hstarts
        have hfits := (List.isPrefixOf_iff_prefix.mp hstarts).length_le
        have htail := ih (pattern.length - 1)
        simp only [List.length_append, List.length_cons] at hfits ⊢
        omega
      · simpa using ih 0

theorem length_replaceFrom_lt {pattern replacement s : List Char}
    (hlen : replacement.length < pattern.length)
    (h : pattern <:+: s) : (replaceFrom pattern replacement 0 s).length < s.length := by
  induction s with
  | nil => simp [List.eq_nil_of_infix_nil h] at hlen
  | cons c rest ih =>
    unfold replaceFrom
    split
    · rename_i hstarts
      have hfits := (List.isPrefixOf_iff_prefix.mp hstarts).length_le
      have htail := length_replaceFrom_le hlen.le (pattern.length - 1) rest
      simp only [List.length_append, List.length_cons] at hfits ⊢
      omega
    · rename_i hnot
      rcases List.infix_cons_iff.mp h with hstarts | hin
      · exact absurd (List.isPrefixOf_iff_prefix.mpr hstarts) hnot
      · simpa using ih hin

theorem replaceFrom_eq_self {pattern replacement s : List Char} (h : ¬ pattern <:+: s) :
    replaceFrom pattern replacement 0 s = s := by
  induction s with
  | nil => rfl
  | cons c rest ih =>
    rw [List.infix_cons_iff, not_or] at h
    rw [replaceFrom, if_neg (mt List.isPrefixOf_iff_prefix.mp h.1), ih h.2]

theorem angleEntities_spec : ∀ entity ∈ angleEntities, 1 < entity.1.toList.length ∧
    '&' ∈ entity.1.toList ∧
    entity.1.toList.head? = some '&' ∧ entity.1.toList.getLast? = some ';' := by
  decide

/-- The entities of a list replaced one after the other. -/
def replaceAll (entities : List (String × Char)) (s : List Char) : List Char :=
  entities.foldl (fun s entity => replaceFrom entity.1.toList [entity.2] 0 s) s

theorem length_replaceAll_le {entities : List (String × Char)}
    (h : ∀ entity ∈ entities, 1 < entity.1.toList.length)
    (s : List Char) : (replaceAll entities s).length ≤ s.length := by
  induction entities generalizing s with
  | nil => exact le_rfl
  | cons entity entities ih =>
    obtain ⟨hlen, hrest⟩ := List.forall_mem_cons.mp h
    have hle : [entity.2].length ≤ entity.1.toList.length := hlen.le
    exact (ih hrest _).trans (length_replaceFrom_le hle 0 s)

theorem length_replaceAll_lt {entities : List (String × Char)}
    (h : ∀ entity ∈ entities, 1 < entity.1.toList.length)
    {s : List Char} (hin : ∃ entity ∈ entities, entity.1.toList <:+: s) :
      (replaceAll entities s).length < s.length := by
  induction entities with
  | nil => simp at hin
  | cons entity entities ih =>
    obtain ⟨hlen, hrest⟩ := List.forall_mem_cons.mp h
    by_cases hhead : entity.1.toList <:+: s
    · exact (length_replaceAll_le hrest _).trans_lt (length_replaceFrom_lt hlen hhead)
    · show (replaceAll entities (replaceFrom _ _ 0 s)).length < _
      rw [replaceFrom_eq_self hhead]
      exact ih hrest (by simpa [hhead] using hin)

theorem replaceAll_eq_self {entities : List (String × Char)} {s : List Char}
    (h : ∀ entity ∈ entities, ¬ entity.1.toList <:+: s) : replaceAll entities s = s := by
  induction entities with
  | nil => rfl
  | cons entity entities ih =>
    obtain ⟨hhead, hrest⟩ := List.forall_mem_cons.mp h
    show replaceAll entities (replaceFrom _ _ 0 s) = s
    rw [replaceFrom_eq_self hhead, ih hrest]

def HasEntity (s : List Char) : Prop := ∃ entity ∈ angleEntities, entity.1.toList <:+: s

theorem decode_eq_self {s : List Char} (h : ¬ HasEntity s) : decodeAngleEntities s = s := by
  unfold decodeAngleEntities
  split
  · exact replaceAll_eq_self fun entity hentity hin => h ⟨entity, hentity, hin⟩
  · rfl

theorem length_decode_lt {s : List Char} (h : HasEntity s) :
    (decodeAngleEntities s).length < s.length := by
  obtain ⟨entity, hentity, hin⟩ := h
  rw [decodeAngleEntities, if_pos (hin.subset (angleEntities_spec entity hentity).2.1)]
  exact length_replaceAll_lt (fun entity hentity => (angleEntities_spec entity hentity).1)
    ⟨entity, hentity, hin⟩

/-! ## What the sanitizer leaves -/

section Sanitizer
variable [RegexWords]
attribute [local instance] wrapperTags

/-- The text before its tags are taken out. -/
def scrubbedOf (input : String) : List Char := scrubInvisibles (decodeAngleEntities input.toList)

/-- The parts between the tags. -/
def partsOf (input : String) : List (List Char) := partsFrom tagLen 0 (scrubbedOf input)

theorem textOf_eq (input : String) :
    (sanitize input).text.toList = trimText (partsOf input).flatten := by
  unfold partsOf
  rw [← removeFrom_eq_flatten]
  unfold sanitize
  split
  · rename_i hnil
    rw [scrubbedOf, hnil]
    rfl
  · show (String.ofList _).toList = _
    rw [String.toList_ofList, String.toList_ofList]
    rfl

theorem not_hasTag_part (input : String) : ∀ part ∈ partsOf input, ¬ HasTag part := by
  rintro part hpart ⟨tag, htag, hin⟩
  exact not_infix_part tagLen htag.ne_nil (fun _ hstarts => tagLen_of_starts htag hstarts) 0 _ part
    hpart hin

/-- A tag that is left was no tag before: others stood inside it. -/
theorem hasTag_untagged_iff (input : String) :
    HasTag (partsOf input).flatten ↔ ∃ tag, IsTag tag ∧ RunsOver tag (partsOf input) := by
  constructor
  · rintro ⟨tag, htag, hin⟩
    rcases (infix_flatten_iff htag.ne_nil).mp hin with ⟨part, hpart, hin⟩ | hruns
    · exact absurd ⟨tag, htag, hin⟩ (not_hasTag_part input part hpart)
    · exact ⟨tag, htag, hruns⟩
  · rintro ⟨tag, htag, hruns⟩
    exact ⟨tag, htag, hruns.within_flatten⟩

theorem hasTag_text_iff (input : String) :
    HasTag (sanitize input).text.toList ↔ HasTag (partsOf input).flatten := by
  rw [textOf_eq]
  constructor
  · rintro ⟨tag, htag, hin⟩
    exact ⟨tag, htag, hin.trans (trimText_isInfix_self _)⟩
  · rintro ⟨tag, htag, hin⟩
    exact ⟨tag, htag, infix_trimText htag.ends.1 htag.ends.2 (by decide) (by decide) hin⟩

theorem hasEntity_text_iff (input : String) :
    HasEntity (sanitize input).text.toList ↔ HasEntity (partsOf input).flatten := by
  rw [textOf_eq]
  constructor
  · rintro ⟨entity, hentity, hin⟩
    exact ⟨entity, hentity, hin.trans (trimText_isInfix_self _)⟩
  · rintro ⟨entity, hentity, hin⟩
    obtain ⟨-, -, hfirst, hlast⟩ := angleEntities_spec entity hentity
    exact ⟨entity, hentity, infix_trimText hfirst hlast (by decide) (by decide) hin⟩

theorem visible_text (input : String) : ∀ c ∈ (sanitize input).text.toList,
    isInvisible c = false := by
  intro c hc
  rw [textOf_eq, partsOf, ← removeFrom_eq_flatten] at hc
  have hscrubbed : c ∈ scrubbedOf input :=
    (removeFrom_sublist tagLen 0 _).subset ((trimText_isInfix_self _).subset hc)
  simpa using (List.mem_filter.mp hscrubbed).2

theorem length_text_le (input : String) :
    (sanitize input).text.toList.length ≤ (decodeAngleEntities input.toList).length := by
  rw [textOf_eq, partsOf, ← removeFrom_eq_flatten]
  exact (trimText_isInfix_self _).length_le.trans
    ((removeFrom_sublist tagLen 0 _).length_le.trans (List.length_filter_le _ _))

/-- The sanitizer leaves alone what holds nothing that it takes out. -/
theorem sanitize_text_eq_self {text : String} (htags : ¬ HasTag text.toList)
    (hentities : ¬ HasEntity text.toList)
    (hvisible : ∀ c ∈ text.toList, isInvisible c = false)
    (htrimmed : trimText text.toList = text.toList) : (sanitize text).text = text := by
  have hscrubbed : scrubbedOf text = text.toList := by
    rw [scrubbedOf, decode_eq_self hentities, scrubInvisibles]
    exact List.filter_eq_self.mpr fun c hc => by simp [hvisible c hc]
  have huntagged : removeFrom tagLen 0 text.toList = text.toList := by
    refine removeFrom_eq_self tagLen fun rest hrest _ => ?_
    cases hlen : tagLen rest with
    | none => rfl
    | some n =>
      obtain ⟨tag, htag, hstarts⟩ := starts_of_tagLen hlen
      exact absurd ⟨tag, htag, hstarts.isInfix.trans hrest.isInfix⟩ htags
  rw [← String.toList_inj, textOf_eq, partsOf, hscrubbed, ← removeFrom_eq_flatten, huntagged,
    htrimmed]

/-! ## The law -/

/-- The text of `input` holds no tag, none after another decoding and nothing invisible, and is
sanitized to itself. -/
structure SanitizerLaw (input : String) : Prop where
  untagged : ¬ HasTag (sanitize input).text.toList
  decoded : ¬ HasTag (decodeAngleEntities (sanitize input).text.toList)
  visible : ∀ c ∈ (sanitize input).text.toList, isInvisible c = false
  stable : (sanitize (sanitize input).text).text = (sanitize input).text

/-- No tag runs over the end of a part, and no entity is left in the parts or over their ends. -/
structure Apart (parts : List (List Char)) : Prop where
  tags : ∀ tag, IsTag tag → ¬ RunsOver tag parts
  entities : ∀ entity ∈ angleEntities,
    ¬ RunsOver entity.1.toList parts ∧ ∀ part ∈ parts, ¬ entity.1.toList <:+: part

omit [RegexWords] in
theorem entities_apart_iff {parts : List (List Char)} :
    (∀ entity ∈ angleEntities, ¬ RunsOver entity.1.toList parts ∧
      ∀ part ∈ parts, ¬ entity.1.toList <:+: part) ↔
      ¬ HasEntity parts.flatten := by
  unfold HasEntity
  push Not
  refine forall₂_congr fun entity hentity => ?_
  have hne : entity.1.toList ≠ [] := List.ne_nil_of_mem (angleEntities_spec entity hentity).2.1
  rw [infix_flatten_iff hne, not_or, and_comm]
  push Not
  rfl

/-- The law holds of a text if and only if what is taken out of it stood between things that do not
join to a tag or to an entity. -/
theorem sanitizer_law_iff (input : String) : SanitizerLaw input ↔ Apart (partsOf input) := by
  constructor
  · intro hlaw
    refine ⟨fun tag htag hruns => ?_, entities_apart_iff.mpr fun hin => ?_⟩
    · exact hlaw.untagged
        ((hasTag_text_iff input).mpr ((hasTag_untagged_iff input).mpr ⟨tag, htag, hruns⟩))
    · -- Another decoding shortens the text, and nothing makes up for it.
      have hshorter := length_decode_lt ((hasEntity_text_iff input).mpr hin)
      have hle := length_text_le (sanitize input).text
      rw [hlaw.stable] at hle
      omega
  · intro hapart
    have htags : ¬ HasTag (sanitize input).text.toList := by
      rw [hasTag_text_iff, hasTag_untagged_iff]
      rintro ⟨tag, htag, hruns⟩
      exact hapart.tags tag htag hruns
    have hentities : ¬ HasEntity (sanitize input).text.toList := by
      rw [hasEntity_text_iff]
      exact entities_apart_iff.mp hapart.entities
    refine ⟨htags, by rwa [decode_eq_self hentities], visible_text input, ?_⟩
    refine sanitize_text_eq_self htags hentities (visible_text input) ?_
    rw [textOf_eq, trimText_idem]

end Sanitizer

/-- The word characters of a text in ASCII. -/
@[reducible] def asciiWords : RegexWords := ⟨fun c => c.isAlphanum || c == '_'⟩

section Sample
attribute [local instance] wrapperTags asciiWords

/-- A tag inside a tag: taking the inner one out makes the outer one whole, and the text is no
noise. -/
theorem nested_tag_survives :
    (sanitize "please keep <thin<thinking>king> in mind").text = "please keep <thinking> in mind" ∧
      (sanitize "please keep <thin<thinking>king> in mind").noise = false ∧ ¬ ∀ input,
        SanitizerLaw input := by
  have htext : (sanitize "please keep <thin<thinking>king> in mind").text =
      "please keep <thinking> in mind" := by
    decide +kernel
  refine ⟨htext, by decide +kernel, fun hlaw => ?_⟩
  have huntagged := (hlaw "please keep <thin<thinking>king> in mind").untagged
  rw [htext] at huntagged
  exact huntagged ⟨"<thinking>".toList,
    ⟨"thinking".toList, by decide, by decide, by decide +kernel⟩, by decide +kernel⟩

end Sample

end Neoth.Memory
