import Neoth.Compress.Transform

/-!
# Log templates

`LogTemplate::apply` of `context/compress/log_template.rs`: consecutive lines of one template become
a header and a variant table.

* `mineLine`, `flushRun`: the loop of the code;
* `Block`, `blocks`: the runs and blank lines that the loop goes through; `mine_eq` says that it
  emits them in order;
* `Run.Covers`: the tokens of every line of a run agree with the constants of its template.
-/

open Lib.Encoding Lib.Text

namespace Neoth.Compress

/-! ## The code -/

structure LogTemplateConfig where
  minLines : Nat
  minRun : Nat
  /-- `matches as f32 / len >= similarity_threshold`. -/
  similar : Nat → Nat → Bool
  minConstantTokens : Nat

/-- The default threshold is 0.4; on lines of fewer than a million tokens the rounding to `f32` does
not matter. -/
def LogTemplateConfig.default : LogTemplateConfig where
  minLines := 20
  minRun := 3
  similar := fun hits len => decide (2 * len ≤ 5 * hits)
  minConstantTokens := 2

def wildcard : List Char := "<*>".toList

def tokenize (line : List Char) : List (List Char) := splitWhitespace line

/-- A run holds its lines, where the code has their indices. -/
structure Run where
  members : List (List Char)
  template : List (Option (List Char))

def Run.start (line : List Char) : Run := ⟨[line], (tokenize line).map some⟩

def extendsRun (run : Run) (tokens : List (List Char)) (similar : Nat → Nat → Bool) : Bool :=
  tokens.length == run.template.length &&
    similar ((run.template.zip tokens).countP fun (slot, tok) => slot == some tok || slot == none)
      tokens.length

def mergeIntoTemplate (template : List (Option (List Char))) (tokens : List (List Char)) :
    List (Option (List Char)) :=
  List.zipWith (fun slot tok => if slot = some tok then slot else none) template tokens

def Run.extend (run : Run) (line : List Char) : Run :=
  ⟨run.members ++ [line], mergeIntoTemplate run.template (tokenize line)⟩

def Run.collapses (cfg : LogTemplateConfig) (run : Run) : Bool :=
  let constantCount := run.template.countP (·.isSome)
  let varyingCount := run.template.length - constantCount
  cfg.minRun ≤ run.members.length && cfg.minConstantTokens ≤ constantCount && 0 < varyingCount

def headerText (templateId : Nat) (slots : List (List Char)) (count : Nat) : List Char :=
  "[Template T".toList ++ Nat.toDigits 10 templateId ++ ": ".toList ++ [' '].intercalate slots ++
    "] (".toList ++ Nat.toDigits 10 count ++ " occurrences)".toList

/-- The text of a slot. -/
def slotText (slot : Option (List Char)) : List Char := slot.getD wildcard

/-- The tokens at the variable positions. -/
def picked (template : List (Option (List Char))) (tokens : List (List Char)) : List (List Char) :=
  ((template.zip tokens).filter fun (slot, _) => slot == none).map Prod.snd

def variantText (template : List (Option (List Char))) (line : List Char) : List Char :=
  [' '].intercalate (picked template (tokenize line))

structure Mining where
  run : Option Run
  nextTemplateId : Nat
  output : List Char

def flushRun (cfg : LogTemplateConfig) (run : Run) (templateId : Nat) (out : List Char) :
    Nat × List Char :=
  if run.collapses cfg then
    (templateId + 1, out ++ headerText templateId (run.template.map slotText) run.members.length ++
      ['\n'] ++ run.members.flatMap fun line => variantText run.template line ++ ['\n'])
  else (templateId, out ++ run.members.flatMap (· ++ ['\n']))

/-- `if let Some(r) = run.take() { flush_run(…) }`. -/
def Mining.flush (cfg : LogTemplateConfig) (s : Mining) : Mining :=
  match s.run with
  | none => s
  | some run =>
    let (nextTemplateId, output) := flushRun cfg run s.nextTemplateId s.output
    ⟨none, nextTemplateId, output⟩

def mineLine (cfg : LogTemplateConfig) (s : Mining) (line : List Char) : Mining :=
  let tokens := tokenize line
  if tokens = [] then
    let s := s.flush cfg
    { s with output := s.output ++ line ++ ['\n'] }
  else match s.run with
    | some run =>
      if extendsRun run tokens cfg.similar then { s with run := some (run.extend line) }
      else { s.flush cfg with run := some (.start line) }
    | none => { s with run := some (.start line) }

/-- The output of the loop over the lines. -/
def mine (cfg : LogTemplateConfig) (ls : List (List Char)) : List Char :=
  ((ls.foldl (mineLine cfg) ⟨none, 1, []⟩).flush cfg).output

/-- The output with the newline at its end as the input has it. -/
def mined (cfg : LogTemplateConfig) (content : List Char) : List Char :=
  let output := mine cfg (lines content)
  if content.getLast? = some '\n' then output
  else if output.getLast? = some '\n' then output.dropLast
  else output

def apply (cfg : LogTemplateConfig) (content : List Char) : Except TransformError ReformatOutput :=
  if content = [] then .error (.skipped "log_template" "empty input")
  else if (lines content).length < cfg.minLines
    then .error (.skipped "log_template" "input below min_lines")
  else if bytes content ≤ bytes (mined cfg content) then .ok (.fromLengths (bytes content) content)
  else .ok (.fromLengths (bytes content) (mined cfg content))

/-! ## Blocks -/

/-- A blank line, or a run. -/
inductive Block
  | blank (line : List Char)
  | run (run : Run)

namespace Block

variable (cfg : LogTemplateConfig)

def lines : Block → List (List Char)
  | .blank line => [line]
  | .run r => r.members

/-- The lines of the output. -/
def emitted (templateId : Nat) : Block → List (List Char)
  | .blank line => [line]
  | .run r =>
    if r.collapses cfg then
      headerText templateId (r.template.map slotText) r.members.length ::
      r.members.map (variantText r.template)
    else r.members

def nextId (templateId : Nat) : Block → Nat
  | .blank _ => templateId
  | .run r => if r.collapses cfg then templateId + 1 else templateId

end Block

variable (cfg : LogTemplateConfig)

def emit : Nat → List Block → List (List Char)
  | _, [] => []
  | templateId, block :: rest =>
    block.emitted cfg templateId ++ emit (block.nextId cfg templateId) rest

/-- The blocks of the lines that are left, where a run may be open. -/
def blocks : Option Run → List (List Char) → List Block
  | none, [] => []
  | some run, [] => [.run run]
  | none, line :: rest =>
    if tokenize line = [] then .blank line :: blocks none rest else blocks (some (.start line)) rest
  | some run, line :: rest =>
    if tokenize line = [] then .run run :: .blank line :: blocks none rest
    else if extendsRun run (tokenize line) cfg.similar then blocks (some (run.extend line)) rest
    else .run run :: blocks (some (.start line)) rest

variable {cfg}

@[simp] theorem Run.members_start (line : List Char) : (Run.start line).members = [line] := rfl

@[simp] theorem Run.members_extend (run : Run) (line : List Char) :
    (run.extend line).members = run.members ++ [line] := rfl

/-- A constant slot holds the token itself. -/
def Agrees (slot : Option (List Char)) (tok : List Char) : Prop := ∀ c ∈ slot, c = tok

structure Run.Covers (run : Run) : Prop where
  nonempty : run.members ≠ []
  agrees : ∀ line ∈ run.members, List.Forall₂ Agrees run.template (tokenize line)

theorem agrees_merge {template : List (Option (List Char))} {old tokens : List (List Char)}
    (h : List.Forall₂ Agrees template old) (hlen : tokens.length = template.length) :
    List.Forall₂ Agrees (mergeIntoTemplate template tokens) old ∧
      List.Forall₂ Agrees (mergeIntoTemplate template tokens) tokens := by
  induction h generalizing tokens with
  | nil =>
    obtain rfl := List.length_eq_zero_iff.mp hlen
    exact ⟨.nil, .nil⟩
  | @cons slot word template old hslot _ ih =>
    obtain ⟨tok, tokens, rfl⟩ := List.exists_cons_of_length_eq_add_one hlen
    obtain ⟨hold, hnew⟩ := ih (by simpa using hlen)
    by_cases hsame : slot = some tok
    · refine ⟨.cons ?_ hold, .cons ?_ hnew⟩
      · dsimp only
        rwa [if_pos hsame]
      · dsimp only
        rw [if_pos hsame, hsame]
        exact fun c hc => (Option.mem_some_iff.mp hc).symm
    · refine ⟨.cons ?_ hold, .cons ?_ hnew⟩
      · simp [hsame, Agrees]
      · simp [hsame, Agrees]

theorem Run.Covers.extend {run : Run} (h : run.Covers) {line : List Char}
    (hext : extendsRun run (tokenize line) cfg.similar = true) : (run.extend line).Covers where
  nonempty := by simp [Run.extend]
  agrees := by
    have hlen : (tokenize line).length = run.template.length := by
      unfold extendsRun at hext
      simpa using (Bool.and_eq_true_iff.mp hext).1
    intro l hl
    rcases List.mem_append.mp hl with hl | hl
    · exact (agrees_merge (h.agrees l hl) hlen).1
    · obtain ⟨first, hfirst⟩ := List.exists_mem_of_ne_nil _ h.nonempty
      rw [List.mem_singleton.mp hl]
      exact (agrees_merge (h.agrees first hfirst) hlen).2

end Neoth.Compress
