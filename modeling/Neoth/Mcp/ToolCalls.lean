import Neoth.Lib.JsonDecode
import Neoth.Lib.Search

/-!
# Tool calls in a response

`mcp/tool_call_parser.rs`: a response is scanned for fenced blocks of the tag `mcp-tool-call`, whose
bodies are JSON. The scanner works on byte offsets and knows no JSON, so a fence inside a string of
a call ends its block.

* `scanFrom`, `extractToolCalls`, `parseBlockBody`: the scanner, with the place of every block that
  it reports;
* `scan_cases`: what one turn of the loop does;
* **`extraction_iff`**: the scanner always ends, cuts no character and reports disjoint blocks, and
  what has been rendered comes back if and only if no JSON text holds three backticks.
-/

open Lib.Encoding Lib.Text

namespace Neoth.Mcp

/-! ## Fences -/

def fenceTag : String := "mcp-tool-call"

def fenceOpen : List Char := ("```" ++ fenceTag).toList

def fenceClose : List Char := "```".toList

theorem bytes_fenceOpen_pos : 0 < bytes fenceOpen := by decide

theorem close_starts_open : fenceClose <+: fenceOpen := ⟨fenceTag.toList, rfl⟩

theorem not_close_of_split {pre post : List Char}
    (h : ¬ fenceClose <:+: pre ++ (fenceOpen ++ post)) : False :=
  h (close_starts_open.isInfix.trans ⟨pre, post, by simp⟩)

/-- No fence begins in prose, whatever backticks it ends with. -/
theorem noneIn_open {prose : List Char} (h : ¬ fenceClose <:+: prose) : NoneIn fenceOpen prose := by
  rintro before after rfl hne hstarts
  match after, hne with
  | [a], _ => simp [fenceOpen, fenceTag, List.cons_prefix_cons] at hstarts
  | [a, b], _ => simp [fenceOpen, fenceTag, List.cons_prefix_cons] at hstarts
  | a :: b :: c :: rest, _ =>
    refine h ?_
    have hclose : fenceClose <+: a :: b :: c :: rest ++ fenceOpen := close_starts_open.trans hstarts
    have hlen : fenceClose.length ≤ (a :: b :: c :: rest).length := by simp [fenceClose]
    exact (List.prefix_of_prefix_length_le hclose (List.prefix_append _ _) hlen).isInfix.trans
      (List.suffix_append before _).isInfix

theorem noneIn_newline {body : List Char} (h : NoneIn fenceClose body) :
    NoneIn fenceClose ('\n' :: body) := by
  rintro (_ | ⟨b, before⟩) after hsplit hne hstarts
  · rw [List.nil_append] at hsplit
    subst hsplit
    simp [fenceClose, List.cons_prefix_cons] at hstarts
  · cases hsplit
    exact h before after rfl hne hstarts

/-- The fence behind a line ends the block, if the line holds none. -/
theorem noneIn_line {line : List Char} (h : ¬ fenceClose <:+: line) :
    NoneIn fenceClose (line ++ ['\n']) := by
  intro before after hsplit hne hstarts
  obtain rfl | ⟨a, last, rfl⟩ := List.eq_nil_or_concat after
  · exact hne rfl
  rw [List.concat_eq_append] at hsplit hstarts
  rw [← List.append_assoc] at hsplit
  obtain ⟨rfl, hlast⟩ := List.append_inj' hsplit rfl
  cases hlast
  match a with
  | [] => simp [fenceClose, List.cons_prefix_cons] at hstarts
  | [x] => simp [fenceClose, List.cons_prefix_cons] at hstarts
  | [x, y] => simp [fenceClose, List.cons_prefix_cons] at hstarts
  | x :: y :: z :: rest =>
    rw [List.append_assoc] at hstarts
    have hlen : fenceClose.length ≤ (x :: y :: z :: rest).length := by simp [fenceClose]
    exact h ((List.prefix_of_prefix_length_le hstarts (List.prefix_append _ _) hlen).isInfix.trans
      (List.suffix_append before _).isInfix)

/-! ## Trimming -/

theorem trimText_newline (cs : List Char) : trimText ('\n' :: cs) = trimText cs := by
  unfold trimText trimStart
  rw [List.dropWhile_cons_of_pos (by decide)]

theorem trimText_line {json : List Char} (hopening : json.head? = some '\x7b')
    (hclosing : json.getLast? = some '\x7d') : trimText (json ++ ['\n']) = json := by
  have hstart : trimStart (json ++ ['\n']) = json ++ ['\n'] := by
    obtain ⟨rest, rfl⟩ := List.head?_eq_some_iff.mp hopening
    exact List.dropWhile_cons_of_neg (by decide)
  unfold trimText
  rw [hstart]
  unfold trimEnd
  rw [List.rdropWhile_concat_pos _ _ _ (by decide)]
  obtain ⟨rest, rfl⟩ := List.getLast?_eq_some_iff.mp hclosing
  exact List.rdropWhile_concat_neg _ _ _ (by decide)

/-! ## The parser -/

def maxMcpIdentifierBytes : Nat := 256

/-- A server or tool name that the parser accepts. -/
def IsIdentifier (name : String) : Prop := name ≠ "" ∧ byteLen name ≤ maxMcpIdentifierBytes

/-- `serde_json`, as far as a body is read by it. -/
class ToolCallJson where
  Value : Type
  /-- `Value::Object(Map::new())`. -/
  emptyObject : Value
  /-- `from_str::<WireToolCall>`, with the text of its error; the arguments may be absent. -/
  fromStr : List Char → Except String (String × String × Option Value)

variable [ToolCallJson]

open ToolCallJson

structure ParsedToolCall where
  server : String
  tool : String
  arguments : Value

structure ParseError where
  rawBlock : List Char
  reason : String

structure ExtractResult where
  calls : List ParsedToolCall
  errors : List ParseError

def defaultArgs : Value := emptyObject

def parseBlockBody (body : List Char) : Except String ParsedToolCall :=
  match fromStr body with
  | .error e => .error s!"JSON parse: {e}"
  | .ok (server, tool, arguments) =>
    if server = "" then .error "`server` field is empty"
    else if tool = "" then .error "`tool` field is empty"
    else if maxMcpIdentifierBytes < byteLen server then
      .error s!"`server` field exceeds the {maxMcpIdentifierBytes}-byte limit"
    else if maxMcpIdentifierBytes < byteLen tool then
      .error s!"`tool` field exceeds the {maxMcpIdentifierBytes}-byte limit"
    else .ok ⟨server, tool, arguments.getD defaultArgs⟩

/-- A block that is reported, and the bytes that it takes. -/
structure Report where
  start : Nat
  stop : Nat
  outcome : Except ParseError ParsedToolCall

/-- `Some('\n') | Some('\r') | None`. -/
def endsTag (afterChar : Option Char) : Bool := afterChar == some '\n' || afterChar == some '\r' ||
    afterChar == none

def reportOf (start stop : Nat) (rawBlock body : List Char) : Report :=
  match parseBlockBody body with
  | .ok call => ⟨start, stop, .ok call⟩
  | .error reason => ⟨start, stop, .error ⟨rawBlock, reason⟩⟩

/-- The loop from a cursor on; `none` is a panic. -/
def scanFrom (text : List Char) (cursor : Nat) : Option (List Report) :=
  if _hcursor : cursor < bytes text then do
    match find fenceOpen (← sliceFrom cursor text) with
    | none => some []
    | some openRel =>
      let openStart := cursor + openRel
      let afterTag := openStart + bytes fenceOpen
      let tail ← sliceFrom afterTag text
      if !endsTag tail.head? then scanFrom text afterTag
      else
        match find fenceClose tail with
        | none =>
          let raw ← sliceFrom openStart text
          some [⟨openStart, bytes text,
            .error ⟨raw, "unterminated mcp-tool-call fence (no closing ```)"⟩⟩]
        | some closeRel =>
          let bodyEnd := afterTag + closeRel
          let body ← slice afterTag bodyEnd text
          let rawBlock ← slice openStart (bodyEnd + bytes fenceClose) text
          let later ← scanFrom text (bodyEnd + bytes fenceClose)
          some (reportOf openStart (bodyEnd + bytes fenceClose) rawBlock (trimText body) :: later)
  else some []
termination_by bytes text - cursor
decreasing_by
  all_goals
    have hopen := bytes_fenceOpen_pos
    omega

def ExtractResult.of (reports : List Report) : ExtractResult where
  calls := reports.filterMap fun r => r.outcome.toOption
  errors := reports.filterMap fun r => match r.outcome with | .ok _ => none | .error e => some e

def extractToolCalls (text : List Char) : Option ExtractResult := (scanFrom text 0).map .of

/-! ## One turn of the loop -/

/-- What a turn does with the text `rest` from the cursor on, which is `done` bytes in. -/
inductive Turn (text done rest : List Char) : Option (List Report) → Prop
  | none (hrest : ¬ fenceOpen <:+: rest) : Turn text done rest (some [])
  | longer {pre post : List Char} (hsplit : rest = pre ++ (fenceOpen ++ post))
      (hfirst : NoneIn fenceOpen pre) (hpost : endsTag post.head? = false) :
      Turn text done rest (scanFrom text (bytes (done ++ pre ++ fenceOpen)))
  | unterminated {pre post : List Char} (hsplit : rest = pre ++ (fenceOpen ++ post))
      (hfirst : NoneIn fenceOpen pre) (hpost : ¬ fenceClose <:+: post) :
      Turn text done rest (some [⟨bytes (done ++ pre), bytes text, .error ⟨fenceOpen ++ post,
        "unterminated mcp-tool-call fence (no closing ```)"⟩⟩])
  | block {pre body post : List Char}
    (hsplit : rest = pre ++ (fenceOpen ++ (body ++ (fenceClose ++ post))))
      (hfirst : NoneIn fenceOpen pre) (hclose : NoneIn fenceClose body) :
      Turn text done rest
        ((scanFrom text (bytes (done ++ pre ++ fenceOpen ++ body ++ fenceClose))).map
        (reportOf (bytes (done ++ pre)) (bytes (done ++ pre ++ fenceOpen ++ body ++ fenceClose))
          (fenceOpen ++ (body ++ fenceClose)) (trimText body) :: ·))

theorem scan_cases {text done rest : List Char} (htext : text = done ++ rest) :
    Turn text done rest (scanFrom text (bytes done)) := by
  by_cases hrest : rest = []
  · subst hrest
    rw [scanFrom, dif_neg (by simp [htext])]
    exact .none (by simp; decide)
  have hcursor : bytes done < bytes text := by
    obtain ⟨c, cs, rfl⟩ := List.exists_cons_of_ne_nil hrest
    have hpos := utf8Size_pos c
    rw [htext, bytes_append, bytes_cons]
    omega
  rw [scanFrom, dif_pos hcursor]
  have htail : sliceFrom (bytes done) text = some rest := by rw [htext, sliceFrom_append]
  simp only [htail, Option.bind_eq_bind, Option.bind_some]
  cases hopen : find fenceOpen rest with
  | none => exact .none (find_none_iff.mp hopen)
  | some openRel =>
    obtain ⟨pre, post, hsplit, rfl, hfirst⟩ := find_some hopen
    have hafter : sliceFrom (bytes done + bytes pre + bytes fenceOpen) text = some post := by
      have heq : text = (done ++ pre ++ fenceOpen) ++ post := by simp [htext, hsplit]
      rw [heq, ← bytes_append, ← bytes_append, sliceFrom_append]
    dsimp only
    rw [hafter, Option.bind_some]
    cases hends : endsTag post.head? with
    | false =>
      simp only [Bool.not_false, if_true]
      rw [← bytes_append, ← bytes_append]
      exact .longer hsplit hfirst hends
    | true =>
      simp only [Bool.not_true, Bool.false_eq_true, if_false]
      have hstart : sliceFrom (bytes done + bytes pre) text = some (fenceOpen ++ post) := by
        have heq : text = (done ++ pre) ++ (fenceOpen ++ post) := by simp [htext, hsplit]
        rw [heq, ← bytes_append, sliceFrom_append]
      cases hclose : find fenceClose post with
      | none =>
        dsimp only
        rw [hstart, Option.bind_some, ← bytes_append]
        exact .unterminated hsplit hfirst (find_none_iff.mp hclose)
      | some closeRel =>
        obtain ⟨body, post, rfl, rfl, hnone⟩ := find_some hclose
        have hbody : slice (bytes (done ++ pre ++ fenceOpen))
            (bytes (done ++ pre ++ fenceOpen) + bytes body) text = some body := by
          have heq : text = (done ++ pre ++ fenceOpen) ++ (body ++ (fenceClose ++ post)) := by
            simp [htext, hsplit]
          rw [heq, slice_append]
        have hraw :
            slice (bytes (done ++ pre))
              (bytes (done ++ pre) + bytes (fenceOpen ++ (body ++ fenceClose))) text =
            some (fenceOpen ++ (body ++ fenceClose)) := by
          have heq : text = (done ++ pre) ++ ((fenceOpen ++ (body ++ fenceClose)) ++ post) := by
            simp [htext, hsplit]
          rw [heq, slice_append]
        simp only [bytes_append, ← Nat.add_assoc] at hbody hraw
        dsimp only
        rw [hbody, Option.bind_some, hraw, Option.bind_some]
        have hturn : Turn text done rest _ := Turn.block hsplit hfirst hnone
        simpa only [bytes_append, Option.map_eq_bind, Function.comp_def] using hturn

/-! ## Blocks -/

/-- A report is about a part of the text that begins and ends between characters, and quotes it. -/
def Report.Of (text : List Char) (r : Report) : Prop :=
  ∃ pre block post, text = pre ++ (block ++ post) ∧ block ≠ [] ∧ r.start = bytes pre ∧
    r.stop = bytes pre + bytes block ∧ ∀ e, r.outcome = .error e → e.rawBlock = block

/-- The scan comes to its end without a panic; no byte is in two blocks. -/
def Scans (text : List Char) : Prop :=
  ∃ reports, scanFrom text 0 = some reports ∧ reports.Pairwise (fun a b => a.stop ≤ b.start) ∧
    ∀ r ∈ reports, r.Of text

theorem reportOf_of {text pre block post body : List Char} (htext : text = pre ++ (block ++ post))
    (hne : block ≠ []) :
    (reportOf (bytes pre) (bytes (pre ++ block)) block body).Of text := by
  refine ⟨pre, block, post, htext, hne, ?_⟩
  unfold reportOf
  split
  · exact ⟨rfl, bytes_append _ _, by simp⟩
  · exact ⟨rfl, bytes_append _ _, by simp⟩

theorem start_reportOf (start stop : Nat) (rawBlock body : List Char) :
    (reportOf start stop rawBlock body).start = start ∧
    (reportOf start stop rawBlock body).stop = stop := by
  unfold reportOf
  split <;> exact ⟨rfl, rfl⟩

theorem scans_from {text done rest : List Char} (htext : text = done ++ rest) :
    ∃ reports, scanFrom text (bytes done) = some reports ∧
    reports.Pairwise (fun a b => a.stop ≤ b.start) ∧
      ∀ r ∈ reports, r.Of text ∧ bytes done ≤ r.start := by
  induction hlen : rest.length using Nat.strong_induction_on generalizing done rest with
  | _ n ih =>
    have hturn := scan_cases htext
    generalize scanFrom text (bytes done) = scanned at hturn
    cases hturn with
    | none => exact ⟨[], rfl, by simp, by simp⟩
    | @longer pre post hsplit hfirst hpost =>
      have hopen : 0 < fenceOpen.length := by decide
      have hnext : text = (done ++ pre ++ fenceOpen) ++ post := by simp [htext, hsplit]
      obtain ⟨reports, hscan, hordered, hall⟩ :=
        ih post.length (by simp [← hlen, hsplit]; omega) hnext rfl
      refine ⟨reports, hscan, hordered, fun r hr => ⟨(hall r hr).1, le_trans ?_ (hall r hr).2⟩⟩
      simp [bytes_append]
    | @unterminated pre post hsplit hfirst hpost =>
      refine ⟨_, rfl, by simp, fun r hr => ?_⟩
      rw [List.mem_singleton.mp hr]
      refine ⟨⟨done ++ pre, fenceOpen ++ post, [], by simp [htext, hsplit], by simp [fenceOpen],
        rfl, ?_, ?_⟩, ?_⟩
      · rw [← bytes_append, htext, hsplit, List.append_assoc]
      · intro e he
        cases he
        rfl
      · simp [bytes_append]
    | @block pre body post hsplit hfirst hclose =>
      have hopen : 0 < fenceOpen.length := by decide
      have hnext : text = (done ++ pre ++ fenceOpen ++ body ++ fenceClose) ++ post := by
        simp [htext, hsplit]
      obtain ⟨reports, hscan, hordered, hall⟩ :=
        ih post.length (by simp [← hlen, hsplit]; omega) hnext rfl
      have hassoc : done ++ pre ++ fenceOpen ++ body ++ fenceClose =
          (done ++ pre) ++ (fenceOpen ++ (body ++ fenceClose)) := by simp
      rw [hscan]
      refine ⟨_, rfl, List.pairwise_cons.mpr ⟨fun r hr => ?_, hordered⟩, fun r hr => ?_⟩
      · rw [(start_reportOf _ _ _ _).2]
        exact (hall r hr).2
      · rcases List.mem_cons.mp hr with rfl | hr
        · have hblock : text = (done ++ pre) ++ ((fenceOpen ++ (body ++ fenceClose)) ++ post) := by
            simp [htext, hsplit]
          rw [hassoc]
          refine ⟨reportOf_of hblock (by simp [fenceOpen]), ?_⟩
          rw [(start_reportOf _ _ _ _).1, bytes_append]
          exact Nat.le_add_right _ _
        · refine ⟨(hall r hr).1, le_trans ?_ (hall r hr).2⟩
          simp [bytes_append]

theorem scans (text : List Char) : Scans text := by
  obtain ⟨reports, hscan, hordered, hall⟩ := scans_from (show text = [] ++ text from rfl)
  exact ⟨reports, hscan, hordered, fun r hr => (hall r hr).1⟩

/-! ## What is rendered -/

/-- The block that the catalogue asks for. -/
def fenced (json : List Char) : List Char := fenceOpen ++ ('\n' :: json ++ '\n' :: fenceClose)

/-- A call, the JSON text that stands for it, and the prose behind its block. -/
structure Block where
  call : ParsedToolCall
  json : List Char
  prose : List Char

def interleave (prose : List Char) : List Block → List Char
  | [] => prose
  | b :: blocks => prose ++ (fenced b.json ++ interleave b.prose blocks)

/-- The text is a JSON object that `serde_json` reads as the call, and is no such object when it is
cut short. -/
structure Renders (json : List Char) (call : ParsedToolCall) : Prop where
  reads : ∃ arguments, fromStr json = .ok (call.server, call.tool, arguments) ∧
    arguments.getD defaultArgs = call.arguments
  opening : json.head? = some '\x7b'
  closing : json.getLast? = some '\x7d'
  complete : ∀ pre post, json = pre ++ post → post ≠ [] → ∀ w, fromStr (trimText pre) ≠ .ok w

def Named (call : ParsedToolCall) : Prop := IsIdentifier call.server ∧ IsIdentifier call.tool

/-! ## The round trip -/

theorem scan_prose {text done prose : List Char} (htext : text = done ++ prose)
    (h : ¬ fenceClose <:+: prose) : scanFrom text (bytes done) = some [] := by
  have hturn := scan_cases htext
  generalize scanFrom text (bytes done) = scanned at hturn
  cases hturn with
  | none => rfl
  | longer hsplit => exact (not_close_of_split (hsplit ▸ h)).elim
  | unterminated hsplit => exact (not_close_of_split (hsplit ▸ h)).elim
  | block hsplit => exact (not_close_of_split (hsplit ▸ h)).elim

/-- A block is reported with the part of its body that stands before the first fence. -/
theorem scan_block {text done prose body post : List Char}
    (htext : text = done ++ (prose ++ (fenceOpen ++ ('\n' :: body ++ (fenceClose ++ post)))))
    (hprose : ¬ fenceClose <:+: prose) (hbody : NoneIn fenceClose body) :
    ∃ start stop raw, scanFrom text (bytes done) =
      (scanFrom text (bytes (done ++ prose ++ fenceOpen ++ ('\n' :: body) ++ fenceClose))).map
        (reportOf start stop raw (trimText ('\n' :: body)) :: ·) := by
  have hopen := noneIn_open hprose
  have hturn := scan_cases htext
  generalize scanFrom text (bytes done) = scanned at hturn
  cases hturn with
  | none hrest => exact absurd ⟨prose, _, by rw [List.append_assoc]⟩ hrest
  | longer hsplit hfirst hpost =>
    obtain ⟨-, rfl⟩ := hopen.unique hfirst hsplit
    simp [endsTag] at hpost
  | unterminated hsplit hfirst hpost =>
    obtain ⟨-, rfl⟩ := hopen.unique hfirst hsplit
    exact absurd ⟨'\n' :: body, post, by rw [List.append_assoc]⟩ hpost
  | block hsplit hfirst hclose =>
    obtain ⟨rfl, hrest⟩ := hopen.unique hfirst hsplit
    obtain ⟨rfl, rfl⟩ := (noneIn_newline hbody).unique hclose hrest
    exact ⟨_, _, _, rfl⟩

theorem parseBlockBody_rendered {json : List Char} {call : ParsedToolCall} (h : Renders json call)
    (hnamed : Named call) : parseBlockBody json = .ok call := by
  obtain ⟨arguments, hreads, harguments⟩ := h.reads
  obtain ⟨⟨hserver, hserverLen⟩, htool, htoolLen⟩ := hnamed
  unfold parseBlockBody
  simp only [hreads]
  rw [if_neg hserver, if_neg htool, if_neg (Nat.not_lt.mpr hserverLen),
    if_neg (Nat.not_lt.mpr htoolLen), harguments]

theorem extracted_ok {start stop : Nat} {raw body : List Char} {call : ParsedToolCall}
    (h : parseBlockBody body = .ok call) (later : List Report) :
    ExtractResult.of (reportOf start stop raw body :: later) =
      ⟨call :: (ExtractResult.of later).calls, (ExtractResult.of later).errors⟩ := by
  simp [reportOf, h, ExtractResult.of, Except.toOption]

theorem extracted_error {start stop : Nat} {raw body : List Char} {reason : String}
    (h : parseBlockBody body = .error reason) (later : List Report) :
    (ExtractResult.of (reportOf start stop raw body :: later)).errors =
      ⟨raw, reason⟩ :: (ExtractResult.of later).errors := by
  simp [reportOf, h, ExtractResult.of]

/-- The text of a block whose JSON holds no fence. -/
theorem scan_rendered {text done prose rest : List Char} {b : Block}
    (htext : text = done ++ (prose ++ (fenced b.json ++ rest))) (hprose : ¬ fenceClose <:+: prose)
    (hrenders : Renders b.json b.call) (hnamed : Named b.call) (hjson : ¬ fenceClose <:+: b.json) :
    ∃ done', text = done' ++ rest ∧ ∃ report,
      scanFrom text (bytes done) = (scanFrom text (bytes done')).map (report :: ·) ∧
      ∀ later, ExtractResult.of (report :: later) =
        ⟨b.call :: (ExtractResult.of later).calls, (ExtractResult.of later).errors⟩ := by
  have hsplit :
      text =
        done ++ (prose ++ (fenceOpen ++ ('\n' :: (b.json ++ ['\n']) ++ (fenceClose ++ rest)))) := by
    simp [htext, fenced]
  obtain ⟨start, stop, raw, hscan⟩ := scan_block hsplit hprose (noneIn_line hjson)
  refine ⟨_, ?_, _, hscan, extracted_ok ?_⟩
  · simp [hsplit]
  · rw [trimText_newline, trimText_line hrenders.opening hrenders.closing]
    exact parseBlockBody_rendered hrenders hnamed

/-- A fence in the JSON cuts it, and what is left of it is an error. -/
theorem scan_cut {text done prose rest : List Char} {b : Block}
    (htext : text = done ++ (prose ++ (fenced b.json ++ rest))) (hprose : ¬ fenceClose <:+: prose)
    (hrenders : Renders b.json b.call) (hjson : fenceClose <:+: b.json) :
    ∃ done' rest', text = done' ++ rest' ∧ ∃ report, scanFrom text (bytes done) =
      (scanFrom text (bytes done')).map (report :: ·) ∧ ∀ later,
        (ExtractResult.of (report :: later)).errors ≠ [] := by
  obtain ⟨pre, post, heq, hnone⟩ := exists_first hjson
  have hsplit : text = done ++ (prose ++ (fenceOpen ++ ('\n' :: pre ++
      (fenceClose ++ (post ++ '\n' :: fenceClose ++ rest))))) := by
    simp [htext, fenced, heq]
  obtain ⟨start, stop, raw, hscan⟩ := scan_block hsplit hprose hnone
  have herror : ∃ reason, parseBlockBody (trimText ('\n' :: pre)) = .error reason := by
    rw [trimText_newline]
    unfold parseBlockBody
    cases hread : fromStr (trimText pre) with
    | error e => exact ⟨_, rfl⟩
    | ok w => exact absurd hread (hrenders.complete pre _ heq (by simp [fenceClose]) w)
  obtain ⟨reason, hreason⟩ := herror
  refine ⟨_, post ++ '\n' :: fenceClose ++ rest, by simp [hsplit], _, hscan, fun later => ?_⟩
  rw [extracted_error hreason]
  exact List.cons_ne_nil _ _

/-- What the law of the round trip is about: prose without a fence, and calls that can be named. -/
def Rendered (first : List Char) (blocks : List Block) : Prop :=
  ¬ fenceClose <:+: first ∧ ∀ b ∈ blocks, ¬ fenceClose <:+: b.prose ∧ Named b.call ∧
  Renders b.json b.call

def RoundTrips (first : List Char) (blocks : List Block) : Prop :=
  extractToolCalls (interleave first blocks) = some ⟨blocks.map (·.call), []⟩

theorem scan_interleave {text done first : List Char} {blocks : List Block}
    (htext : text = done ++ interleave first blocks) (h : Rendered first blocks)
    (hjson : ∀ b ∈ blocks, ¬ fenceClose <:+: b.json) :
    ∃ reports, scanFrom text (bytes done) = some reports ∧
      ExtractResult.of reports = ⟨blocks.map (·.call), []⟩ := by
  induction blocks generalizing done first with
  | nil => exact ⟨[], scan_prose htext h.1, rfl⟩
  | cons b blocks ih =>
    obtain ⟨hfirst, hblocks⟩ := h
    obtain ⟨⟨hprose, hnamed, hrenders⟩, hrest⟩ := List.forall_mem_cons.mp hblocks
    obtain ⟨hhead, htail⟩ := List.forall_mem_cons.mp hjson
    obtain ⟨done', htext', report, hscan, hresult⟩ :=
      scan_rendered htext hfirst hrenders hnamed hhead
    obtain ⟨reports, hreports, hof⟩ := ih htext' ⟨hprose, hrest⟩ htail
    refine ⟨report :: reports, by rw [hscan, hreports, Option.map_some], ?_⟩
    rw [hresult, hof]
    rfl

theorem scan_interleave_cut {text done first : List Char} {blocks : List Block}
    (htext : text = done ++ interleave first blocks) (h : Rendered first blocks)
    (hjson : ∃ b ∈ blocks, fenceClose <:+: b.json) :
    ∃ reports, scanFrom text (bytes done) = some reports ∧
    (ExtractResult.of reports).errors ≠ [] := by
  induction blocks generalizing done first with
  | nil =>
    obtain ⟨b, hb, -⟩ := hjson
    cases hb
  | cons b blocks ih =>
    obtain ⟨hfirst, hblocks⟩ := h
    obtain ⟨⟨hprose, hnamed, hrenders⟩, hrest⟩ := List.forall_mem_cons.mp hblocks
    by_cases hhead : fenceClose <:+: b.json
    · obtain ⟨done', rest', htext', report, hscan, hresult⟩ := scan_cut htext hfirst hrenders hhead
      obtain ⟨reports, hreports, -⟩ := scans_from htext'
      exact ⟨report :: reports, by rw [hscan, hreports, Option.map_some], hresult reports⟩
    · obtain ⟨done', htext', report, hscan, hresult⟩ :=
        scan_rendered htext hfirst hrenders hnamed hhead
      have htail : ∃ b ∈ blocks, fenceClose <:+: b.json := by
        obtain ⟨c, hc, hcut⟩ := hjson
        rcases List.mem_cons.mp hc with rfl | hc
        · exact absurd hcut hhead
        · exact ⟨c, hc, hcut⟩
      obtain ⟨reports, hreports, herrors⟩ := ih htext' ⟨hprose, hrest⟩ htail
      refine ⟨report :: reports, by rw [hscan, hreports, Option.map_some], ?_⟩
      rwa [hresult]

theorem roundTrips_iff {first : List Char} {blocks : List Block} (h : Rendered first blocks) :
    RoundTrips first blocks ↔ ∀ b ∈ blocks, ¬ fenceClose <:+: b.json := by
  unfold RoundTrips extractToolCalls
  constructor
  · intro hresult b hb hcut
    obtain ⟨reports, hscan, herrors⟩ := scan_interleave_cut (List.nil_append _).symm h ⟨b, hb, hcut⟩
    rw [bytes_nil] at hscan
    rw [hscan, Option.map_some, Option.some_inj] at hresult
    rw [hresult] at herrors
    exact herrors rfl
  · intro hjson
    obtain ⟨reports, hscan, hof⟩ := scan_interleave (List.nil_append _).symm h hjson
    rw [bytes_nil] at hscan
    rw [hscan, Option.map_some, hof]

/-- What is rendered comes back, and the scan of any text is sound. -/
def ExtractionLaw (first : List Char) (blocks : List Block) : Prop :=
  (∀ text, Scans text) ∧ RoundTrips first blocks

/-- **What has been rendered is extracted if and only if no JSON text holds a fence; every scan is
sound.** -/
theorem extraction_iff {first : List Char} {blocks : List Block} (h : Rendered first blocks) :
    ExtractionLaw first blocks ↔ ∀ b ∈ blocks, ¬ fenceClose <:+: b.json :=
  (and_iff_right scans).trans (roundTrips_iff h)

end Neoth.Mcp

namespace Neoth.Mcp

open Lib.JsonDecode

/-! ## A call that writes Markdown -/

/-- The fields of a call, each of them once. -/
def wireOf : Value → Option (String × String × Option Value)
  | .object members =>
    match members.filter (·.1 == "server"), members.filter (·.1 == "tool"),
    members.filter (·.1 == "arguments") with
    | [(_, .string server)], [(_, .string tool)], [] => some (server, tool, none)
    | [(_, .string server)], [(_, .string tool)], [(_, arguments)] =>
      some (server, tool, some arguments)
    | _, _, _ => none
  | _ => none

@[reducible] def sampleToolCallJson : ToolCallJson where
  Value := Value
  emptyObject := .object []
  fromStr body :=
    match (decode body).bind wireOf with
    | some w => .ok w
    | none => .error "EOF while parsing"

attribute [local instance] sampleToolCallJson

/-- A call that writes a text, without prose behind it. -/
def writeBlock (text : String) : Block where
  call := ⟨"fs", "write", Value.object [("text", .string text)]⟩
  json := ("\x7b\"server\": \"fs\", \"tool\": \"write\", \"arguments\": \x7b\"text\": \"" ++ text ++
    "\"\x7d\x7d").toList
  prose := []

def readsWrite (text : String) : Option (String × String × Option Value) → Bool
  | some (server, tool, some (.object [(key, .string value)])) =>
    server == "fs" && tool == "write" && key == "text" && value == text
  | _ => false

theorem eq_of_readsWrite {text : String} {w : Option (String × String × Option Value)}
    (h : readsWrite text w = true) :
    w = some ("fs", "write", some (.object [("text", .string text)])) := by
  unfold readsWrite at h
  split at h
  · simp only [Bool.and_eq_true, beq_iff_eq] at h
    obtain ⟨⟨⟨rfl, rfl⟩, rfl⟩, rfl⟩ := h
    rfl
  · cases h

/-- Every shorter text is no call. -/
def failsCut (json : List Char) : Bool :=
  (List.range json.length).all fun k => ((decode (trimText (json.take k))).bind wireOf).isNone

theorem renders_write {text : String}
    (hreads : readsWrite text ((decode (writeBlock text).json).bind wireOf) = true)
    (hopening : (writeBlock text).json.head? = some '\x7b')
    (hclosing : (writeBlock text).json.getLast? = some '\x7d')
    (hcut : failsCut (writeBlock text).json = true) :
      Renders (writeBlock text).json (writeBlock text).call := by
  refine ⟨⟨some _, ?_, rfl⟩, hopening, hclosing, ?_⟩
  · show (match (decode (writeBlock text).json).bind
      wireOf with | some w => Except.ok w | none => _) = _
    rw [eq_of_readsWrite hreads]
    rfl
  · intro pre post hsplit hne w hread
    have hlt : pre.length < (writeBlock text).json.length := by
      rw [hsplit, List.length_append]
      exact Nat.lt_add_of_pos_right (List.length_pos_iff.mpr hne)
    have hnone := List.all_eq_true.mp hcut pre.length (List.mem_range.mpr hlt)
    rw [hsplit, List.take_left, Option.isNone_iff_eq_none] at hnone
    revert hread
    show (match (decode (trimText pre)).bind wireOf with | some w => Except.ok w | none => _) = _ →
      _
    rw [hnone]
    rintro ⟨⟩

theorem named_write (text : String) : Named (writeBlock text).call :=
  show ("fs" ≠ "" ∧ byteLen "fs" ≤ 256) ∧ "write" ≠ "" ∧ byteLen "write" ≤ 256 by decide

theorem rendered_write {text : String} (h : Renders (writeBlock text).json (writeBlock text).call) :
    Rendered "Sure:".toList [writeBlock text] := by
  refine ⟨by decide, fun b hb => ?_⟩
  rw [List.mem_singleton.mp hb]
  exact ⟨by simp [writeBlock, fenceClose], named_write text, h⟩

theorem renders_plain : Renders (writeBlock "x").json (writeBlock "x").call :=
  renders_write (by decide +kernel) (by decide +kernel) (by decide +kernel) (by decide +kernel)

theorem renders_fence : Renders (writeBlock "```").json (writeBlock "```").call :=
  renders_write (by decide +kernel) (by decide +kernel) (by decide +kernel) (by decide +kernel)

theorem extraction_sample :
    (∀ b ∈ [writeBlock "x"], ¬ fenceClose <:+: b.json) ∧
    ExtractionLaw "Sure:".toList [writeBlock "x"] := by
  have hjson : ∀ b ∈ [writeBlock "x"], ¬ fenceClose <:+: b.json := by decide +kernel
  exact ⟨hjson, (extraction_iff (rendered_write renders_plain)).mpr hjson⟩

/-- A call that writes a text with a fence is lost. -/
theorem fence_in_argument_is_lost :
    ¬ ∀ (first : List Char) (blocks : List Block), Rendered first blocks →
    ExtractionLaw first blocks := by
  intro h
  have hlaw := (h _ _ (rendered_write renders_fence)).2
  have hjson := (roundTrips_iff (rendered_write renders_fence)).mp hlaw (writeBlock "```")
    (List.mem_singleton_self _)
  revert hjson
  decide +kernel

end Neoth.Mcp
