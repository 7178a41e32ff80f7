import Neoth.Lib.Base64
import Neoth.Lib.JsonEscapes
import Neoth.Lib.Text
import Neoth.Wal.RewriteJournalRuns

/-!
# Rewrites that are settled

A rewrite whose attempts all succeed, from the intent to the end of its journal, and the JSON text
of a journal.

* `settled`: the intent is written, the segment replaced, the receipt delivered, and the journal
  removed;
* `fromSlice_toVec`: a journal is read back from its text.
-/

open Lib.Effects Lib.Encoding Lib.JsonDecode Lib.Text Lib.Transaction

namespace Neoth.Wal.RewriteJournal

open Crates (SigningKey)

/-! ## Attempts that succeed -/

section
variable [Crates] [Sha256] {home proof : Hash} {name : String} {d : Descriptor} {j : Journal}
  {key : SigningKey}
  {keys : List (Option SigningKey)} {bytes : List UInt8} {delivered : Option Hash}

omit [Sha256] in
theorem lift_of_ok {A : Type} {x : Except String A} {a : A} (h : x = .ok a) (s : Session) :
    lift x s = (.ok a, s) := by
  rw [h]
  rfl

omit [Sha256] in
theorem check_of_true {condition : Bool} {message : String} (h : condition = true) (s : Session) :
    Prog.check condition message s = (.ok (), s) := by
  rw [h]
  rfl

omit [Sha256] in
theorem readJournal_some (hshort : bytes.length ≤ maxJournalBytes) :
    readJournal ⟨some bytes, [], keys⟩ = (.ok (some bytes), ⟨some bytes, [], keys⟩) := by
  have hcheck := @check_of_true _ _ "read redaction rewrite journal" (decide_eq_true hshort)
    ⟨some bytes, [], keys⟩
  show (Prog.check _ _ >>= fun _ => pure (some bytes)) (_ : Session) = _
  rw [Prog.bind_of_ok hcheck]
  rfl

/-- The file is the text of a journal that the key validates. -/
structure Stored (home : Hash) (key : SigningKey) (bytes : List UInt8) (j : Journal)
    (d : Descriptor) (delivered : Option Hash) : Prop where
  short : bytes.length ≤ maxJournalBytes
  parsed : Crates.fromSlice bytes = some j
  valid : j.validate key = .ok d
  bound : d.val.homeBindingSha256 = home
  proof : j.deliveredReceiptProof = .ok delivered

theorem loadPending_stored (h : Stored home key bytes j d delivered) :
    loadPending home ⟨some bytes, [], some key :: keys⟩ =
      (.ok (some ⟨j.targetBasename, d, delivered⟩), ⟨some bytes, [], keys⟩) := by
  unfold loadPending
  rw [Prog.bind_of_ok (readJournal_some h.short)]
  dsimp only
  rw [Prog.bind_of_ok (lift_of_ok (context_eq_ok_iff.mpr h.parsed) _)]
  show (lift (j.validate key) >>= _) (⟨some bytes, [], keys⟩ : Session) = _
  rw [Prog.bind_of_ok (lift_of_ok h.valid _),
    Prog.bind_of_ok (lift_of_ok (validateHomeBinding_eq_ok_iff.mpr h.bound) _),
    Prog.bind_of_ok (lift_of_ok h.proof _)]
  rfl

theorem prepare_none (hname : validateTargetBasename name = .ok ())
    (hhome : d.val.homeBindingSha256 = home)
    (hshort : (Crates.toVec (preparedJournal key name d)).length ≤ maxJournalBytes) :
    prepare home name d d.val.targetIdentitySha256 d.oldImage ⟨none, [], some key :: keys⟩ =
      (.ok (), ⟨some (Crates.toVec (preparedJournal key name d)), [], keys⟩) := by
  unfold prepare
  rw [Prog.bind_of_ok (lift_of_ok hname _),
    Prog.bind_of_ok (lift_of_ok (validateTargetIdentity_eq_ok_iff.mpr rfl) _),
    Prog.bind_of_ok (lift_of_ok (validateHomeBinding_eq_ok_iff.mpr hhome) _),
    Prog.bind_of_ok (check_of_true (beq_self_eq_true d.oldImage) _)]
  show (Prog.check _ _ >>= fun _ => createNew _) (⟨none, [], keys⟩ : Session) = _
  rw [Prog.bind_of_ok (check_of_true (decide_eq_true hshort) _)]
  rfl

theorem recover_stored (h : Stored home key bytes j d delivered) (current : TargetImage) :
    recover home current ⟨some bytes, [], some key :: keys⟩ =
      (.ok (some (classifyPending ⟨j.targetBasename, d, delivered⟩ current)),
        ⟨some bytes, [], keys⟩) := by
  unfold recover
  rw [Prog.bind_of_ok (loadPending_stored h)]
  rfl

theorem markDelivered_stored (h : Stored home key bytes j d none) (hphase : j.phase = .prepared)
    (hshort : (Crates.toVec (j.markedDelivered key proof)).length ≤ maxJournalBytes) :
    markDelivered home d proof ⟨some bytes, [], some key :: some key :: keys⟩ =
      (.ok (), ⟨some (Crates.toVec (j.markedDelivered key proof)), [], keys⟩) := by
  unfold markDelivered
  rw [Prog.bind_of_ok (loadPending_stored h)]
  dsimp only
  rw [Prog.bind_of_ok (check_of_true (by simp) _), Prog.bind_of_ok (readJournal_some h.short)]
  dsimp only
  rw [Prog.bind_of_ok (lift_of_ok (context_eq_ok_iff.mpr h.parsed) _)]
  show (lift (j.validate key) >>= _) (⟨some bytes, [], keys⟩ : Session) = _
  rw [Prog.bind_of_ok (lift_of_ok h.valid _),
    Prog.bind_of_ok (lift_of_ok (validateHomeBinding_eq_ok_iff.mpr h.bound) _),
    Prog.bind_of_ok (check_of_true (beq_self_eq_true d) _),
    Prog.bind_of_ok (check_of_true (by rw [hphase]; rfl) _),
    Prog.bind_of_ok (check_of_true (decide_eq_true hshort) _)]
  rfl

theorem finalizeDelivered_stored (h : Stored home key bytes j d (some proof)) :
    finalizeDelivered home d d.val.targetIdentitySha256 d.newImage proof
      ⟨some bytes, [], some key :: some key :: keys⟩ = (.ok (), ⟨none, [], keys⟩) := by
  unfold finalizeDelivered
  rw [Prog.bind_of_ok (lift_of_ok (validateHomeBinding_eq_ok_iff.mpr h.bound) _),
    Prog.bind_of_ok (lift_of_ok (validateTargetIdentity_eq_ok_iff.mpr rfl) _),
    Prog.bind_of_ok (check_of_true (beq_self_eq_true d.newImage) _),
    Prog.bind_of_ok (loadPending_stored h)]
  dsimp only
  rw [Prog.bind_of_ok (check_of_true (beq_self_eq_true d) _),
    Prog.bind_of_ok (check_of_true (beq_self_eq_true _) _), Prog.bind_of_ok (recover_stored h _),
    classify_delivered rfl, if_pos rfl, Prog.bind_of_ok (check_of_true (beq_self_eq_true _) _)]
  rfl

end

/-! ## From the intent to the end -/

section
variable [Crates] [Sha256]

/-- The intent, the new segment, a look at it, and the receipt, with all attempts done. -/
def deliveryInputs (key : SigningKey) (name : String) (d : Descriptor) (replaced : List UInt8)
    (proof : Hash) : List Input :=
  [.call (.prepare name d d.val.targetIdentitySha256 d.oldImage) [] [some key],
    .replace name replaced, .call (.recover d.newImage) [] [some key],
    .call (.markDelivered d proof) [] [some key, some key]]

def finalization (key : SigningKey) (d : Descriptor) (proof : Hash) : Input :=
  .call (.finalizeDelivered d d.val.targetIdentitySha256 d.newImage proof) [] [some key, some key]

variable {home : Hash} {name : String} {d : Descriptor} {key : SigningKey}

/-- The journal of an intent, with the key that it was signed with. -/
theorem stored_prepared (hname : validateTargetBasename name = .ok ())
    (hhome : d.val.homeBindingSha256 = home)
    (hshort : (Crates.toVec (preparedJournal key name d)).length ≤ maxJournalBytes) :
    Stored home key (Crates.toVec (preparedJournal key name d)) (preparedJournal key name d)
      d none :=
  ⟨hshort, Crates.fromSlice_toVec _, validate_prepared hname, hhome, rfl⟩

theorem stored_delivered {j : Journal} {proof : Hash} (hvalid : j.validate key = .ok d)
    (hhome : d.val.homeBindingSha256 = home)
    (hshort : (Crates.toVec (j.markedDelivered key proof)).length ≤ maxJournalBytes) :
    Stored home key (Crates.toVec (j.markedDelivered key proof)) (j.markedDelivered key proof) d
      (some proof) := by
  refine ⟨hshort, Crates.fromSlice_toVec _, validate_delivered hvalid proof, hhome, ?_⟩
  show (parseHex32 (hexEncode proof.val) _ >>= _) = _
  rw [parseHex32_hexEncode]
  rfl

section
variable (hname : validateTargetBasename name = .ok ()) (hhome : d.val.homeBindingSha256 = home)
  (segments : String → Option (List UInt8)) (replaced : List UInt8) (proof : Hash)
  (hprepared : (Crates.toVec (preparedJournal key name d)).length ≤ maxJournalBytes)
  (hdelivered : (Crates.toVec ((preparedJournal key name d).markedDelivered key proof)).length ≤
    maxJournalBytes)
include hname hhome hprepared hdelivered

theorem delivered_of_run :
    Lib.Machine.run (step home) ⟨none, segments⟩ (deliveryInputs key name d replaced proof) =
      (⟨some (Crates.toVec ((preparedJournal key name d).markedDelivered key proof)),
          Function.update segments name (some replaced)⟩,
        [.ok none, .ok none, .ok (some (.newPublished d)), .ok none]) := by
  have hintent := stored_prepared hname hhome hprepared
  have hnew : classifyPending ⟨name, d, none⟩ d.newImage = .newPublished d :=
    (classify_prepared rfl _).2.mpr rfl
  have hprepare : (Operation.prepare name d d.val.targetIdentitySha256 d.oldImage).run home ⟨none,
      [], [some key]⟩ = (.ok none, ⟨some (Crates.toVec (preparedJournal key name d)), [], []⟩) :=
    Prog.bind_of_ok (prepare_none hname hhome hprepared)
  have hrecover : (Operation.recover d.newImage).run home
      ⟨some (Crates.toVec (preparedJournal key name d)), [], [some key]⟩ =
        (.ok (some (.newPublished d)),
          ⟨some (Crates.toVec (preparedJournal key name d)), [], []⟩) := by
    rw [← hnew]
    exact recover_stored hintent _
  have hmark : (Operation.markDelivered d proof).run home
      ⟨some (Crates.toVec (preparedJournal key name d)), [], [some key, some key]⟩ =
        (.ok none, ⟨some (Crates.toVec ((preparedJournal key name d).markedDelivered key proof)),
          [], []⟩) :=
    Prog.bind_of_ok (markDelivered_stored hintent rfl hdelivered)
  simp only [deliveryInputs, Lib.Machine.run_cons, Lib.Machine.run_nil, step, hprepare,
    hrecover, hmark]

/-- **A rewrite is settled** by a run whose attempts succeed. -/
theorem settled :
    Lib.Machine.run (step home) ⟨none, segments⟩ (deliveryInputs key name d replaced proof ++
      [finalization key d proof]) = (⟨none, Function.update segments name (some replaced)⟩,
        [.ok none, .ok none, .ok (some (.newPublished d)), .ok none, .ok none]) := by
  have hdelivery := stored_delivered (validate_prepared hname) hhome hdelivered
  have hfinalize :
      (Operation.finalizeDelivered d d.val.targetIdentitySha256 d.newImage proof).run home
      ⟨some (Crates.toVec ((preparedJournal key name d).markedDelivered key proof)), [],
        [some key, some key]⟩ = (.ok none, ⟨none, [], []⟩) :=
    Prog.bind_of_ok (finalizeDelivered_stored hdelivery)
  rw [Lib.Machine.run_append, delivered_of_run hname hhome segments replaced proof hprepared
    hdelivered]
  simp only [finalization, Lib.Machine.run_cons, Lib.Machine.run_nil, step, hfinalize,
    List.cons_append, List.nil_append]

end

end

/-! ## The text of a journal -/

def JournalPhase.ofStr? (text : String) : Option JournalPhase :=
  if text = "prepared" then some .prepared else if text = "delivered" then some .delivered else none

theorem JournalPhase.ofStr_asStr (phase : JournalPhase) : ofStr? phase.asStr = some phase := by
  cases phase <;> rfl

namespace Journal

def entries (j : Journal) : List Entry :=
  [natEntry "version" j.version.toNat, textEntry "phase" j.phase.asStr,
    textEntry "target_basename" j.targetBasename, textEntry "descriptor_b64" j.descriptorB64,
    textEntry "operation_digest_hex" j.operationDigestHex, textEntry "old_target_sha256_hex"
      j.oldTargetSha256Hex, textEntry "new_target_sha256_hex" j.newTargetSha256Hex,
    natEntry "old_target_len" j.oldTargetLen.toNat, natEntry "new_target_len" j.newTargetLen.toNat,
    natEntry "affected_frame_count" j.affectedFrameCount.toNat,
    textEntry "offset_summary_sha256_hex" j.offsetSummarySha256Hex,
    textEntry "signer_pubkey" j.signerPubkey, optionEntry "receipt_proof_sha256_hex"
      j.receiptProofSha256Hex, textEntry "signature" j.signature]

def toVec (j : Journal) : List UInt8 := utf8 (String.ofList (objectText (texts j.entries)))

def keys : List String :=
  ["version", "phase", "target_basename", "descriptor_b64", "operation_digest_hex",
    "old_target_sha256_hex", "new_target_sha256_hex", "old_target_len", "new_target_len",
    "affected_frame_count", "offset_summary_sha256_hex", "signer_pubkey",
    "receipt_proof_sha256_hex", "signature"]

def fromMembers (members : List (String × Value)) : Option Journal := do
  known keys members
  let version ← member? members "version" >>= uint? 8
  let phase ← member? members "phase" >>= text? >>= JournalPhase.ofStr?
  let targetBasename ← member? members "target_basename" >>= text?
  let descriptorB64 ← member? members "descriptor_b64" >>= text?
  let operationDigestHex ← member? members "operation_digest_hex" >>= text?
  let oldTargetSha256Hex ← member? members "old_target_sha256_hex" >>= text?
  let newTargetSha256Hex ← member? members "new_target_sha256_hex" >>= text?
  let oldTargetLen ← member? members "old_target_len" >>= uint? 64
  let newTargetLen ← member? members "new_target_len" >>= uint? 64
  let affectedFrameCount ← member? members "affected_frame_count" >>= uint? 64
  let offsetSummarySha256Hex ← member? members "offset_summary_sha256_hex" >>= text?
  let signerPubkey ← member? members "signer_pubkey" >>= text?
  let receiptProofSha256Hex ← optionText? members "receipt_proof_sha256_hex"
  let signature ← member? members "signature" >>= text?
  pure { version := .ofNat version, phase, targetBasename, descriptorB64, operationDigestHex,
         oldTargetSha256Hex, newTargetSha256Hex, oldTargetLen := .ofNat oldTargetLen,
         newTargetLen := .ofNat newTargetLen, affectedFrameCount := .ofNat affectedFrameCount,
         offsetSummarySha256Hex, signerPubkey, receiptProofSha256Hex, signature }

def fromSlice (bytes : List UInt8) : Option Journal := do
  match ← decode (← textOf bytes) with
  | .object members => fromMembers members
  | _ => none

theorem members_entries (j : Journal) : Members j.entries := by
  simp only [Members, entries, List.forall_mem_cons, List.not_mem_nil, false_imp_iff, implies_true,
    and_true]
  exact ⟨reads_natEntry (by decide) _, reads_textEntry (by decide) _, reads_textEntry (by decide) _,
    reads_textEntry (by decide) _, reads_textEntry (by decide) _, reads_textEntry (by decide) _,
    reads_textEntry (by decide) _, reads_natEntry (by decide) _, reads_natEntry (by decide) _,
    reads_natEntry (by decide) _, reads_textEntry (by decide) _, reads_textEntry (by decide) _,
    reads_optionEntry (by decide) _, reads_textEntry (by decide) _⟩

theorem fromMembers_values (j : Journal) : fromMembers (values j.entries) = some j := by
  have hknown : known keys (values j.entries) = some () := rfl
  have htext : ∀ key text, member? (values j.entries) key = some (.string text) →
      (member? (values j.entries) key >>= text?) = some text := fun _ _ h => by rw [h]; rfl
  have hlong : ∀ key (n : UInt64), member? (values j.entries) key = some (.nat n.toNat) →
      (member? (values j.entries) key >>= uint? 64) = some n.toNat := fun _ n h => by
        rw [h]; exact uint_nat n.toNat_lt
  have hversion : (member? (values j.entries) "version" >>= uint? 8) = some j.version.toNat :=
    uint_nat j.version.toNat_lt
  have hproof : optionText? (values j.entries) "receipt_proof_sha256_hex" =
      some j.receiptProofSha256Hex :=
    optionText_of_member rfl rfl
  unfold fromMembers
  rw [hknown, hversion, htext "phase" j.phase.asStr rfl, htext _ j.targetBasename rfl,
    htext _ j.descriptorB64 rfl, htext _ j.operationDigestHex rfl, htext _ j.oldTargetSha256Hex rfl,
    htext _ j.newTargetSha256Hex rfl, hlong _ j.oldTargetLen rfl, hlong _ j.newTargetLen rfl,
    hlong _ j.affectedFrameCount rfl, htext _ j.offsetSummarySha256Hex rfl,
    htext _ j.signerPubkey rfl, hproof, htext _ j.signature rfl]
  simp [JournalPhase.ofStr_asStr]

/-- A journal is read back. -/
theorem fromSlice_toVec (j : Journal) : fromSlice j.toVec = some j := by
  have htext : textOf j.toVec = some (objectText (texts j.entries)) := by
    rw [toVec, textOf_utf8, String.toList_ofList]
  rw [fromSlice, htext]
  simp only [Option.bind_eq_bind, Option.bind_some,
    decode_of_reads (reads_object j.members_entries)]
  exact fromMembers_values j

end Journal

/-! ### How long it is -/

/-- The texts of a journal are no longer than those of a rewrite. -/
structure Journal.Short (j : Journal) : Prop where
  basename : j.targetBasename.toList.length ≤ maxTargetBasenameBytes
  descriptor : j.descriptorB64.toList.length ≤ 300
  operation : j.operationDigestHex.toList.length ≤ 64
  old : j.oldTargetSha256Hex.toList.length ≤ 64
  new : j.newTargetSha256Hex.toList.length ≤ 64
  offsets : j.offsetSummarySha256Hex.toList.length ≤ 64
  signer : j.signerPubkey.toList.length ≤ 44
  proof : ∀ value ∈ j.receiptProofSha256Hex, value.toList.length ≤ 64
  signature : j.signature.toList.length ≤ 88

/-- Such a journal is below the limit, even if each character were escaped. -/
theorem Journal.Short.length_toVec {j : Journal} (h : j.Short) :
    j.toVec.length ≤ maxJournalBytes := by
  have hphase : j.phase.asStr.toList.length ≤ 9 := by cases j.phase <;> decide
  have hlong : ∀ n : UInt64, bytes (Nat.toDigits 10 n.toNat) ≤ 20 := fun n =>
    bytes_toDigits_le (by decide) (n.toNat_lt.trans_le (by decide))
  have hversion : bytes (Nat.toDigits 10 j.version.toNat) ≤ 3 :=
    bytes_toDigits_le (by decide) (j.version.toNat_lt.trans_le (by decide))
  have hproof : bytes (optionEntry "receipt_proof_sha256_hex" j.receiptProofSha256Hex).2.1 ≤
      6 * 64 + 2 := by
    cases hvalue : j.receiptProofSha256Hex with
    | none => decide
    | some value =>
      have hlength := h.proof value hvalue
      exact (bytes_quoted_le value).trans (by omega)
  have hkeys : ((texts j.entries).map fun member => bytes member.1.toList + 4).sum =
      (keys.map fun key => bytes key.toList + 4).sum := rfl
  have hsum : (keys.map fun key => bytes key.toList + 4).sum = 278 := by decide
  have hobject := bytes_objectText_le (texts j.entries)
  rw [hkeys, hsum] at hobject
  have htexts : ((texts j.entries).map fun member => bytes member.2).sum ≤ 7000 := by
    have htext : ∀ {text : String} {n : Nat}, text.toList.length ≤ n →
        bytes (quoted serdeEscape text) ≤ 6 * n + 2 :=
      fun hn => (bytes_quoted_le _).trans (Nat.add_le_add_right (Nat.mul_le_mul_left 6 hn) 2)
    simp only [texts, Journal.entries, List.map_cons, List.map_nil, List.sum_cons, List.sum_nil,
      textEntry, natEntry]
    refine (add_le_add hversion <| add_le_add (htext hphase) <| add_le_add (htext h.basename) <|
      add_le_add (htext h.descriptor) <| add_le_add (htext h.operation) <|
        add_le_add (htext h.old) <|
      add_le_add (htext h.new) <| add_le_add (hlong _) <| add_le_add (hlong _) <|
        add_le_add (hlong _) <|
      add_le_add (htext h.offsets) <| add_le_add (htext h.signer) <| add_le_add hproof <|
      add_le_add (htext h.signature) le_rfl).trans (by decide)
  show byteLen (String.ofList (objectText (texts j.entries))) ≤ maxJournalBytes
  rw [byteLen_ofList]
  exact hobject.trans (by show _ ≤ 8 * 1024; omega)

/-! ## A run -/

/-- A keyed hash in the place of the signature, whose public key is the key. -/
@[reducible] def sampleCrates : Crates where
  SigningKey := Hash
  verifyingKey key := key
  sign key message := ⟨key.val ++ (Sha256.fips.digest (key.val ++ message)).val, by
    rw [List.length_append, length_hash, length_hash]⟩
  verifies publicKey message signature :=
    signature == publicKey ++ (Sha256.fips.digest (publicKey ++ message)).val
  verifies_sign _ _ := beq_self_eq_true _
  base64Encode := Lib.Base64.encode
  base64Decode := Lib.Base64.decode
  base64Decode_encode := Lib.Base64.decode_encode
  trim_base64Encode := Lib.Base64.trim_encode
  toVec := Journal.toVec
  fromSlice := Journal.fromSlice
  fromSlice_toVec := Journal.fromSlice_toVec

attribute [local instance] sampleCrates Sha256.fips

theorem length_hexHash (hash : Hash) : (hexEncode hash.val).toList.length ≤ 64 := by
  have hlength := (utf8_hexEncode hash.val).1
  rw [hash.property, byteLen_eq_bytes] at hlength
  exact (length_le_bytes _).trans hlength.le

theorem length_signB64 (key : Hash) (message : List UInt8) :
    (signB64 key message).toList.length ≤ 88 :=
  (Lib.Base64.length_encode _).trans_le (by rw [(Crates.sign key message).property])

theorem short_prepared {name : String} (hname : validateTargetBasename name = .ok ()) (key : Hash)
    (d : Descriptor) : (preparedJournal key name d).Short := by
  have hbasename : name.toList.length ≤ maxTargetBasenameBytes := by
    simp only [validateTargetBasename, bind_eq_ok_iff, require_eq_ok_iff, Bool.and_eq_true,
      decide_eq_true_eq] at hname
    obtain ⟨-, ⟨-, hshort⟩, -⟩ := hname
    rw [byteLen_eq_bytes] at hshort
    exact (length_le_bytes _).trans hshort
  refine ⟨hbasename, ?_, length_hexHash _, length_hexHash _, length_hexHash _,
    length_hexHash _, ?_, ?_, length_signB64 key _⟩
  · exact (Lib.Base64.length_encode _).trans_le (by rw [d.length_encode]; decide)
  · exact (Lib.Base64.length_encode _).trans_le (by rw [length_hash])
  · rintro value ⟨⟩

theorem Journal.Short.markedDelivered {j : Journal} (h : j.Short) (key proof : Hash) :
    (j.markedDelivered key proof).Short := by
  refine { h with proof := ?_, signature := length_signB64 key _ }
  rintro value ⟨⟩
  exact length_hexHash proof

/-- What the segment is replaced by. -/
def sampleSegment : List UInt8 := utf8 "redacted"

def sampleRewrite : Descriptor :=
  ⟨{ sampleDescriptor.val with newTargetSha256 := Sha256.digest sampleSegment, newTargetLen := 8
    }, by
    rw [Sha256.fips_eq]
    decide +kernel⟩

def sampleDelivery : List Input :=
  deliveryInputs (sampleHash 8) "leaf-000001.wal" sampleRewrite sampleSegment (sampleHash 9)

def sampleEnd : Input := finalization (sampleHash 8) sampleRewrite (sampleHash 9)

/-- The run ends with no journal, which it may as the segment that the journal named is the new
one. -/
theorem journal_kept_until_settled_sample :
    (Lib.Machine.run (step (sampleHash 2)) ⟨none, fun _ => none⟩
      (sampleDelivery ++ [sampleEnd])).2 =
        [.ok none, .ok none, .ok (some (.newPublished sampleRewrite)), .ok none, .ok none] ∧
      Removed (sampleHash 2) (after (sampleHash 2) ⟨none, fun _ => none⟩ sampleDelivery) sampleEnd ∧
      imageOf sampleSegment = sampleRewrite.newImage := by
  have hname : validateTargetBasename "leaf-000001.wal" = .ok () := by decide
  have hshort := short_prepared hname (sampleHash 8) sampleRewrite
  have hdelivered :=
    delivered_of_run hname (show sampleRewrite.val.homeBindingSha256 = sampleHash 2 from rfl)
      (fun _ => none) sampleSegment (sampleHash 9)
    hshort.length_toVec (hshort.markedDelivered (sampleHash 8) (sampleHash 9)).length_toVec
  have hsettled := settled hname (show sampleRewrite.val.homeBindingSha256 = sampleHash 2 from rfl)
    (fun _ => none) sampleSegment (sampleHash 9)
    hshort.length_toVec (hshort.markedDelivered (sampleHash 8) (sampleHash 9)).length_toVec
  refine ⟨congrArg Prod.snd hsettled, ?_, rfl⟩
  refine (journal_kept_until_settled (sampleHash 2) ⟨none, fun _ => none⟩
    (sampleDelivery ++ [sampleEnd])).1
    sampleDelivery sampleEnd [] rfl ?_ (congrArg (·.1.journal) hsettled)
  rw [after, sampleDelivery, hdelivered]
  exact Option.some_ne_none _

end Neoth.Wal.RewriteJournal
