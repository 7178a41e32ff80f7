import Neoth.Lib.Effects
import Neoth.Lib.Encoding
import Neoth.Lib.Sha256
import Neoth.Lib.Transaction

/-!
# The journal of a redaction rewrite

`wal/redaction_rewrite_journal.rs`, with the descriptor of `wal/redaction_rewrite_receipts.rs` that
it binds: one signed file in the WAL directory, written before a segment is replaced, signed again
when the receipt of the rewrite has been delivered, and removed when the rewrite has been settled or
was never done.

* `descriptor_codec_bijection`: a descriptor is read back, and what is read as one is its only
  encoding;
* `validate_prepared`, `validate_delivered`: so are the journals that are written.
-/

open Lib.Effects Lib.Encoding Lib.Transaction

namespace Neoth.Wal.RewriteJournal

abbrev Hash : Type := Digest

/-! ## Integers and digests in bytes -/

/-- `u64::from_be_bytes`. -/
def beNat (bytes : List UInt8) : Nat := bytes.foldl (fun n b => 256 * n + b.toNat) 0

theorem foldl_beBytes (width n start : Nat) :
    (Sha256.beBytes width n).foldl (fun n b => 256 * n + b.toNat) start =
      start * 256 ^ width + n % 256 ^ width := by
  induction width generalizing start with
  | zero => simp [Sha256.beBytes, Nat.mod_one]
  | succ width ih =>
    have hcons : Sha256.beBytes (width + 1) n = UInt8.ofNat (n / 256 ^ width) ::
        Sha256.beBytes width n := by
      simp only [Sha256.beBytes, List.range_succ_eq_map, List.map_cons, List.map_map,
        Nat.add_sub_cancel, Nat.sub_zero, List.cons.injEq, true_and]
      refine List.map_congr_left fun i _ => ?_
      simp only [Function.comp, Nat.succ_eq_add_one, show width - (i + 1) = width - 1 - i by omega]
    rw [hcons, List.foldl_cons, ih, Nat.mod_pow_succ]
    simp only [UInt8.toNat_ofNat']
    ring

theorem beNat_beBytes {width n : Nat} (h : n < 256 ^ width) :
    beNat (Sha256.beBytes width n) = n := by
  rw [beNat, foldl_beBytes, Nat.zero_mul, Nat.zero_add, Nat.mod_eq_of_lt h]

def beBytes64 (n : UInt64) : List UInt8 := Sha256.beBytes 8 n.toNat

theorem ofNat_beBytes64 (n : UInt64) : UInt64.ofNat (beNat (beBytes64 n)) = n := by
  rw [beBytes64, beNat_beBytes (n.toNat_lt.trans_le (by decide)), UInt64.ofNat_toNat]

def u64At (payload : List UInt8) (start : Nat) : UInt64 :=
  UInt64.ofNat (beNat ((payload.drop start).take 8))

/-- `copy_from_slice`; the callers have checked the length. -/
def hashAt (payload : List UInt8) (start : Nat) : Hash :=
  ⟨(payload.drop start ++ List.replicate 32 0).take 32, by simp⟩

def zeroHash : Hash := ⟨List.replicate 32 0, List.length_replicate⟩

def hexNibble (b : UInt8) : Nat :=
  if b ≤ 0x39 then b.toNat - 0x30 else if b ≤ 0x46 then b.toNat - 0x41 + 10 else b.toNat - 0x61 + 10

/-- `u8::from_str_radix` of each pair of digits. -/
def hexPairs : List UInt8 → List UInt8
  | a :: b :: rest => UInt8.ofNat (16 * hexNibble a + hexNibble b) :: hexPairs rest
  | _ => []

def parseHex32 (value field : String) : Except String Hash :=
  if (utf8 value).length = 64 ∧ (utf8 value).all isAsciiHexdigit then
    if h : (hexPairs (utf8 value)).length = 32 then .ok ⟨hexPairs (utf8 value), h⟩
    else .error ("decode " ++ field)
  else .error ("invalid " ++ field)

theorem hexPairs_hexEncode (bytes : List UInt8) : hexPairs (utf8 (hexEncode bytes)) = bytes := by
  have hdigit : ∀ n < 16, (String.utf8EncodeChar (hexDigit n)).length = 1 ∧
      (String.utf8EncodeChar (hexDigit n)).map hexNibble = [n] := by decide
  unfold utf8 hexEncode
  rw [String.toList_ofList]
  induction bytes with
  | nil => rfl
  | cons b bytes ih =>
    have hb := b.toNat_lt
    obtain ⟨hhigh, hhighValue⟩ := hdigit (b.toNat / 16) (by omega)
    obtain ⟨hlow, hlowValue⟩ := hdigit (b.toNat % 16) (Nat.mod_lt _ (by decide))
    obtain ⟨x, hx⟩ := List.length_eq_one_iff.mp hhigh
    obtain ⟨y, hy⟩ := List.length_eq_one_iff.mp hlow
    rw [hx, List.map_singleton, List.singleton_inj] at hhighValue
    rw [hy, List.map_singleton, List.singleton_inj] at hlowValue
    simp only [List.flatMap_cons, List.cons_append, List.nil_append, hx, hy, hexPairs, hhighValue,
      hlowValue]
    rw [ih, Nat.div_add_mod, UInt8.ofNat_toNat]

theorem parseHex32_hexEncode (hash : Hash) (field : String) :
    parseHex32 (hexEncode hash.val) field = .ok hash := by
  obtain ⟨hlength, hdigits⟩ := utf8_hexEncode hash.val
  have hvalid : (utf8 (hexEncode hash.val)).length = 64 ∧
      (utf8 (hexEncode hash.val)).all isAsciiHexdigit := by
    refine ⟨hlength.trans (by rw [hash.property]), ?_⟩
    rw [List.all_eq_true] at hdigits ⊢
    intro b hb
    have hdigit := hdigits b hb
    revert hdigit
    simp only [isAsciiHexdigit, Bool.or_eq_true]
    tauto
  unfold parseHex32
  rw [if_pos hvalid, dif_pos (by rw [hexPairs_hexEncode, hash.property])]
  exact congrArg _ (Subtype.ext (hexPairs_hexEncode _))

/-! ## Descriptors -/

structure DescriptorFields where
  operationId : Hash
  homeBindingSha256 : Hash
  targetIdentitySha256 : Hash
  oldTargetSha256 : Hash
  newTargetSha256 : Hash
  offsetSummarySha256 : Hash
  affectedFrameCount : UInt64
  oldTargetLen : UInt64
  newTargetLen : UInt64
  deriving DecidableEq

/-- What the constructor asks for. -/
def DescriptorFields.isValid (d : DescriptorFields) : Bool :=
  !(d.operationId == zeroHash || d.homeBindingSha256 == zeroHash ||
    d.targetIdentitySha256 == zeroHash ||
    d.oldTargetSha256 == zeroHash || d.newTargetSha256 == zeroHash ||
    d.offsetSummarySha256 == zeroHash ||
    d.affectedFrameCount == 0 || d.oldTargetLen == 0 || d.newTargetLen == 0 ||
    d.oldTargetSha256 == d.newTargetSha256)

/-- `RedactionRewriteReceiptDescriptor`: there is none with other fields. -/
abbrev Descriptor : Type := { d : DescriptorFields // d.isValid = true }

def Descriptor.new (d : DescriptorFields) : Except String Descriptor :=
  if h : d.isValid = true then .ok ⟨d, h⟩ else .error "redaction_rewrite_once_invalid_descriptor"

theorem Descriptor.old_ne_new (d : Descriptor) : d.val.oldTargetSha256 ≠ d.val.newTargetSha256 := by
  have hvalid := d.property
  simp only [DescriptorFields.isValid, Bool.not_eq_true', Bool.or_eq_false_iff,
    beq_eq_false_iff_ne] at hvalid
  exact hvalid.2

def payloadLen : Nat := 224

def Descriptor.encode (d : Descriptor) : List UInt8 :=
  [1, 0, 0, 0, 0, 0, 0, 0] ++ (d.val.operationId.val ++ (d.val.homeBindingSha256.val ++
    (d.val.targetIdentitySha256.val ++ (d.val.oldTargetSha256.val ++ (d.val.newTargetSha256.val ++
      (d.val.offsetSummarySha256.val ++ (beBytes64 d.val.affectedFrameCount ++
        (beBytes64 d.val.oldTargetLen ++ beBytes64 d.val.newTargetLen))))))))

def Descriptor.decodeCanonical (payload : List UInt8) : Except String Descriptor :=
  if payload.length ≠ payloadLen ∨ payload.take 8 ≠ [1, 0, 0, 0, 0, 0, 0, 0] then
    .error "redaction_rewrite_once_invalid_descriptor"
  else
    Descriptor.new ⟨hashAt payload 8, hashAt payload 40, hashAt payload 72, hashAt payload 104,
      hashAt payload 136, hashAt payload 168, u64At payload 200, u64At payload 208,
      u64At payload 216⟩

theorem length_beBytes64 (n : UInt64) : (beBytes64 n).length = 8 := Sha256.length_beBytes _ _

theorem length_hash (hash : Hash) : hash.val.length = 32 := hash.property

theorem Descriptor.length_encode (d : Descriptor) : d.encode.length = payloadLen := by
  simp only [encode, List.length_append, length_hash, length_beBytes64]
  rfl

theorem hashAt_first (hash : Hash) (ys : List UInt8) : hashAt (hash.val ++ ys) 0 = hash := by
  refine Subtype.ext ?_
  show ((hash.val ++ ys).drop 0 ++ _).take 32 = hash.val
  rw [List.drop_zero, List.append_assoc, List.take_left' hash.property]

theorem hashAt_skip {xs ys : List UInt8} {start : Nat} (h : xs.length ≤ start) :
    hashAt (xs ++ ys) start = hashAt ys (start - xs.length) := by
  unfold hashAt
  simp only [List.drop_append, List.drop_eq_nil_of_le h, List.nil_append]

theorem u64At_first (n : UInt64) (ys : List UInt8) : u64At (beBytes64 n ++ ys) 0 = n := by
  rw [u64At, List.drop_zero, List.take_left' (length_beBytes64 n), ofNat_beBytes64]

theorem u64At_last (n : UInt64) : u64At (beBytes64 n) 0 = n := by
  have hfirst := u64At_first n []
  rwa [List.append_nil] at hfirst

theorem u64At_skip {xs ys : List UInt8} {start : Nat} (h : xs.length ≤ start) :
    u64At (xs ++ ys) start = u64At ys (start - xs.length) := by
  unfold u64At
  simp only [List.drop_append, List.drop_eq_nil_of_le h, List.nil_append]

/-- **Read after write.** -/
theorem decodeCanonical_encode (d : Descriptor) : Descriptor.decodeCanonical d.encode = .ok d := by
  have hhead : d.encode.take 8 = [1, 0, 0, 0, 0, 0, 0, 0] := List.take_left' rfl
  have hfields : (⟨hashAt d.encode 8, hashAt d.encode 40, hashAt d.encode 72, hashAt d.encode 104,
      hashAt d.encode 136, hashAt d.encode 168, u64At d.encode 200, u64At d.encode 208,
        u64At d.encode 216⟩ : DescriptorFields) = d.val := by
    have hversion : [1, 0, 0, 0, 0, 0, 0, (0 : UInt8)].length = 8 := rfl
    unfold Descriptor.encode
    simp (disch := simp [length_hash, length_beBytes64]) only [hashAt_skip, hashAt_first,
      u64At_skip, u64At_first, u64At_last, hversion, length_hash, length_beBytes64, Nat.reduceSub]
  unfold Descriptor.decodeCanonical
  rw [if_neg (by simp [d.length_encode, hhead]), hfields]
  exact dif_pos d.property

theorem beBytes_succ (width n : Nat) :
    Sha256.beBytes (width + 1) n = Sha256.beBytes width (n / 256) ++ [UInt8.ofNat n] := by
  simp only [Sha256.beBytes, List.range_succ, List.map_append, List.map_singleton,
    Nat.add_sub_cancel, Nat.sub_self, Nat.pow_zero, Nat.div_one, List.append_cancel_right_eq]
  refine List.map_congr_left fun i hi => ?_
  have hlt := List.mem_range.mp hi
  rw [Nat.div_div_eq_div_mul, ← Nat.pow_succ', show width - i = (width - 1 - i).succ by omega]

theorem beBytes_beNat (bytes : List UInt8) :
    beNat bytes < 256 ^ bytes.length ∧ Sha256.beBytes bytes.length (beNat bytes) = bytes := by
  induction bytes using List.reverseRecOn with
  | nil => exact ⟨Nat.one_pos, rfl⟩
  | append_singleton bytes b ih =>
    have hlast : beNat (bytes ++ [b]) = 256 * beNat bytes + b.toNat := List.foldl_append
    have hlt := b.toNat_lt
    have hdiv : (256 * beNat bytes + b.toNat) / 256 = beNat bytes := by omega
    rw [List.length_append, List.length_singleton, hlast, beBytes_succ, hdiv, ih.2, Nat.pow_succ]
    refine ⟨by omega, congrArg (fun c => bytes ++ [c]) (UInt8.toNat_inj.mp ?_)⟩
    rw [UInt8.toNat_ofNat']
    omega

theorem beBytes64_u64At {payload : List UInt8} {start : Nat} (h : start + 8 ≤ payload.length) :
    beBytes64 (u64At payload start) = (payload.drop start).take 8 := by
  have hlength : ((payload.drop start).take 8).length = 8 := by simp; omega
  obtain ⟨hlt, hbytes⟩ := beBytes_beNat ((payload.drop start).take 8)
  rw [hlength] at hlt hbytes
  rw [beBytes64, u64At, UInt64.toNat_ofNat_of_lt' hlt, hbytes]

theorem val_hashAt {payload : List UInt8} {start : Nat} (h : start + 32 ≤ payload.length) :
    (hashAt payload start).val = (payload.drop start).take 32 := by
  show ((payload.drop start) ++ _).take 32 = _
  exact List.take_append_of_le_length (by rw [List.length_drop]; omega)

/-- **Write after read.**  What is taken for a descriptor is the one encoding of it. -/
theorem encode_decodeCanonical {payload : List UInt8} {d : Descriptor}
    (h : Descriptor.decodeCanonical payload = .ok d) : d.encode = payload := by
  unfold Descriptor.decodeCanonical Descriptor.new at h
  split_ifs at h with hrefused hvalid
  cases h
  obtain ⟨hlength, hhead⟩ := not_or.mp hrefused
  rw [not_not, payloadLen] at hlength
  have hcut : ∀ n k, (payload.drop n).take k ++ payload.drop (n + k) = payload.drop n := by
    intro n k
    rw [← List.drop_drop, List.take_append_drop]
  have hlast : (payload.drop 216).take 8 = payload.drop 216 :=
    List.take_of_length_le (by rw [List.length_drop, hlength])
  unfold Descriptor.encode
  simp (disch := omega) only [val_hashAt, beBytes64_u64At]
  rw [hlast, hcut 208, hcut 200, hcut 168, hcut 136, hcut 104, hcut 72, hcut 40, hcut 8,
    ← not_not.mp hhead]
  exact List.take_append_drop ..

/-- The codec of the descriptor is a bijection between what the constructor admits and what is taken
for it. -/
theorem descriptor_codec_bijection :
    (∀ fields d, Descriptor.new fields = .ok d → Descriptor.decodeCanonical d.encode = .ok d) ∧
      ∀ payload d, Descriptor.decodeCanonical payload = .ok d → d.encode = payload :=
  ⟨fun _ d _ => decodeCanonical_encode d, fun _ _ => encode_decodeCanonical⟩

/-! ## The file -/

/-- The physically retained target image. -/
structure TargetImage where
  sha256 : Hash
  len : UInt64
  deriving DecidableEq

def Descriptor.oldImage (d : Descriptor) : TargetImage :=
  ⟨d.val.oldTargetSha256, d.val.oldTargetLen⟩
def Descriptor.newImage (d : Descriptor) : TargetImage :=
  ⟨d.val.newTargetSha256, d.val.newTargetLen⟩

inductive JournalPhase
  | prepared
  | delivered
  deriving DecidableEq

structure Journal where
  version : UInt8
  phase : JournalPhase
  targetBasename : String
  descriptorB64 : String
  operationDigestHex : String
  oldTargetSha256Hex : String
  newTargetSha256Hex : String
  oldTargetLen : UInt64
  newTargetLen : UInt64
  affectedFrameCount : UInt64
  offsetSummarySha256Hex : String
  signerPubkey : String
  receiptProofSha256Hex : Option String
  signature : String

/-- The crates that the journal is written with: `ed25519_dalek`, the standard alphabet of `base64`,
`serde_json`. -/
class Crates where
  SigningKey : Type
  /-- `key.verifying_key().to_bytes()`. -/
  verifyingKey : SigningKey → Hash
  sign : SigningKey → List UInt8 → { bytes : List UInt8 // bytes.length = 64 }
  /-- `VerifyingKey::from_bytes` and `verify`. -/
  verifies : List UInt8 → List UInt8 → List UInt8 → Bool
  verifies_sign : ∀ key message, verifies (verifyingKey key).val message (sign key message).val =
    true
  base64Encode : List UInt8 → String
  base64Decode : String → Option (List UInt8)
  base64Decode_encode : ∀ bytes, base64Decode (base64Encode bytes) = some bytes
  /-- The alphabet has no white space. -/
  trim_base64Encode : ∀ bytes, trim (base64Encode bytes) = base64Encode bytes
  toVec : Journal → List UInt8
  fromSlice : List UInt8 → Option Journal
  fromSlice_toVec : ∀ journal, fromSlice (toVec journal) = some journal

open Crates (SigningKey)

section
variable [Crates]

def pubkeyB64 (key : SigningKey) : String := Crates.base64Encode (Crates.verifyingKey key).val

def signB64 (key : SigningKey) (message : List UInt8) : String :=
  Crates.base64Encode (Crates.sign key message).val

def verifyB64 (pubkey sig : String) (message : List UInt8) : Except String Unit := do
  let publicKey ← context (Crates.base64Decode (trim pubkey)) "decode signer public key base64"
  require (publicKey.length == 32) "signer public key is not 32 bytes"
  let signature ← context (Crates.base64Decode (trim sig)) "decode signature base64"
  require (signature.length == 64) "signature is not 64 bytes"
  require (Crates.verifies publicKey message signature)
    "ed25519 signature does not match the claimed public key"

theorem verifyB64_signB64 (key : SigningKey) (message : List UInt8) :
    verifyB64 (pubkeyB64 key) (signB64 key message) message = .ok () := by
  unfold verifyB64 pubkeyB64 signB64
  simp only [Crates.trim_base64Encode, Crates.base64Decode_encode, bind_eq_ok_iff,
    context_eq_ok_iff, require_eq_ok_iff]
  exact ⟨_, rfl, (), beq_iff_eq.mpr (Crates.verifyingKey key).property, _, rfl, (),
    beq_iff_eq.mpr (Crates.sign key message).property, Crates.verifies_sign key message⟩

end

/-! ## Validation -/

def journalVersion : UInt8 := 1
def maxJournalBytes : Nat := 8 * 1024
def maxTargetBasenameBytes : Nat := 255

/-- On Unix, where a path has one component that is its text if it has no `/` and is neither `.` nor
`..`. -/
def validateTargetBasename (name : String) : Except String Unit := do
  require (name != "" && decide (byteLen name ≤ maxTargetBasenameBytes))
    "invalid bounded redaction rewrite target basename"
  require (!name.toList.contains '/' && name != "." && name != "..")
    "redaction rewrite target must be one canonical basename"

def validateTargetIdentity (d : Descriptor) (derivedTargetIdentitySha256 : Hash) :
    Except String Unit :=
  require (d.val.targetIdentitySha256 == derivedTargetIdentitySha256)
    "redaction rewrite journal target identity differs from the bound target header"

def validateHomeBinding (d : Descriptor) (homeBindingSha256 : Hash) : Except String Unit :=
  require (d.val.homeBindingSha256 == homeBindingSha256)
    "redaction rewrite journal descriptor is bound to another home"

theorem validateHomeBinding_eq_ok_iff {d : Descriptor} {home : Hash} :
    validateHomeBinding d home = .ok () ↔ d.val.homeBindingSha256 = home := by
  unfold validateHomeBinding
  rw [require_eq_ok_iff, beq_iff_eq]

theorem validateTargetIdentity_eq_ok_iff {d : Descriptor} {identity : Hash} :
    validateTargetIdentity d identity = .ok () ↔ d.val.targetIdentitySha256 = identity := by
  unfold validateTargetIdentity
  rw [require_eq_ok_iff, beq_iff_eq]

def JournalPhase.asStr : JournalPhase → String
  | prepared => "prepared"
  | delivered => "delivered"

/-- The fields that are signed. -/
def Journal.unsignedValues (j : Journal) : List String :=
  [toString j.version.toNat, j.phase.asStr, j.targetBasename, j.descriptorB64, j.operationDigestHex,
    j.oldTargetSha256Hex, j.newTargetSha256Hex, toString j.oldTargetLen.toNat,
    toString j.newTargetLen.toNat, toString j.affectedFrameCount.toNat, j.offsetSummarySha256Hex,
    j.signerPubkey, j.receiptProofSha256Hex.getD ""]

def Journal.unsignedBytes (j : Journal) : List UInt8 :=
  utf8 "neoth/redaction-rewrite-journal/v1\x00" ++
    j.unsignedValues.flatMap fun value => beBytes64 (UInt64.ofNat (byteLen value)) ++ utf8 value

section
variable [Crates] [Sha256]

def operationDigest (d : Descriptor) : String :=
  hexEncode
    (Sha256.digest (utf8 "neoth/redaction-rewrite-operation/v1\x00" ++ d.val.operationId.val)).val

def Journal.descriptor (j : Journal) : Except String Descriptor := do
  let raw ← context (Crates.base64Decode j.descriptorB64) "decode journal descriptor"
  require (raw.length == 224) "invalid journal descriptor size"
  Descriptor.decodeCanonical raw

/-- The receipt proof of a journal, `None` as it stands. -/
def Journal.deliveredReceiptProof (j : Journal) : Except String (Option Hash) :=
  match j.receiptProofSha256Hex with
  | none => .ok none
  | some value => do
    let proof ← parseHex32 value "receipt proof digest"
    .ok (some proof)

def Journal.validatePhase (j : Journal) : Except String Unit :=
  match j.phase with
  | .prepared =>
    require j.receiptProofSha256Hex.isNone
      "prepared redaction rewrite journal cannot claim delivery"
  | .delivered => do
    let value ← context j.receiptProofSha256Hex
        "delivered redaction rewrite journal lacks receipt proof"
    let _ ← parseHex32 value "receipt proof digest"
    pure ()

def Journal.validate (j : Journal) (key : SigningKey) : Except String Descriptor := do
  require (j.version == journalVersion) "unsupported redaction rewrite journal version"
  validateTargetBasename j.targetBasename
  require (j.signerPubkey == pubkeyB64 key)
    "redaction rewrite journal signer does not match current WAL signing anchor"
  verifyB64 j.signerPubkey j.signature j.unsignedBytes
  let d ← j.descriptor
  require (j.operationDigestHex == operationDigest d)
    "redaction rewrite journal operation digest mismatch"
  require (j.oldTargetSha256Hex == hexEncode d.val.oldTargetSha256.val &&
      j.newTargetSha256Hex == hexEncode d.val.newTargetSha256.val)
    "redaction rewrite journal target digest mismatch"
  require (j.oldTargetLen == d.val.oldTargetLen && j.newTargetLen == d.val.newTargetLen)
    "redaction rewrite journal target length mismatch"
  require (j.affectedFrameCount == d.val.affectedFrameCount &&
      j.offsetSummarySha256Hex == hexEncode d.val.offsetSummarySha256.val)
    "redaction rewrite journal rewrite summary mismatch"
  j.validatePhase
  pure d

/-- The journal with its signature. -/
def Journal.signed (j : Journal) (key : SigningKey) : Journal :=
  { j with signature := signB64 key j.unsignedBytes }

/-- What `prepare` writes. -/
def preparedJournal (key : SigningKey) (targetBasename : String) (d : Descriptor) : Journal :=
  Journal.signed {
    version := journalVersion
    phase := .prepared
    targetBasename
    descriptorB64 := Crates.base64Encode d.encode
    operationDigestHex := operationDigest d
    oldTargetSha256Hex := hexEncode d.val.oldTargetSha256.val
    newTargetSha256Hex := hexEncode d.val.newTargetSha256.val
    oldTargetLen := d.val.oldTargetLen
    newTargetLen := d.val.newTargetLen
    affectedFrameCount := d.val.affectedFrameCount
    offsetSummarySha256Hex := hexEncode d.val.offsetSummarySha256.val
    signerPubkey := pubkeyB64 key
    receiptProofSha256Hex := none
    signature := "" } key

/-- What `mark_delivered` makes of a journal. -/
def Journal.markedDelivered (j : Journal) (key : SigningKey) (receiptProofSha256 : Hash) :
    Journal :=
  Journal.signed
    { j with phase := .delivered, receiptProofSha256Hex := some (hexEncode receiptProofSha256.val) }
      key

/-! ## Journals that are read back -/

variable {key : SigningKey} {d : Descriptor} {j : Journal}

/-- What a validated journal has; the fields that are not said to be something else are those of the
descriptor. -/
structure Journal.Valid (j : Journal) (key : SigningKey) (d : Descriptor) : Prop where
  version : j.version = journalVersion
  basename : validateTargetBasename j.targetBasename = .ok ()
  signer : j.signerPubkey = pubkeyB64 key
  signature : verifyB64 j.signerPubkey j.signature j.unsignedBytes = .ok ()
  descriptor : j.descriptor = .ok d
  operation : j.operationDigestHex = operationDigest d
  targets : j.oldTargetSha256Hex = hexEncode d.val.oldTargetSha256.val ∧
    j.newTargetSha256Hex = hexEncode d.val.newTargetSha256.val
  lengths : j.oldTargetLen = d.val.oldTargetLen ∧ j.newTargetLen = d.val.newTargetLen
  summary : j.affectedFrameCount = d.val.affectedFrameCount ∧
    j.offsetSummarySha256Hex = hexEncode d.val.offsetSummarySha256.val
  phase : j.validatePhase = .ok ()

theorem validate_eq_ok_iff : j.validate key = .ok d ↔ j.Valid key d := by
  unfold Journal.validate
  simp only [bind_eq_ok_iff, require_eq_ok_iff, beq_iff_eq, Bool.and_eq_true]
  constructor
  · rintro ⟨_, hversion, _, hbasename, _, hsigner, _, hsignature, _, hd, _, hop, _, htargets, _,
      hlengths, _, hsummary, _, hphase, hpure⟩
    cases hpure
    exact ⟨hversion, hbasename, hsigner, hsignature, hd, hop, htargets, hlengths, hsummary, hphase⟩
  · rintro ⟨hversion, hbasename, hsigner, hsignature, hd, hop, htargets, hlengths, hsummary, hphase⟩
    exact ⟨(), hversion, (), hbasename, (), hsigner, (), hsignature, d, hd, (), hop, (), htargets,
      (), hlengths, (), hsummary, (), hphase, rfl⟩

omit [Sha256] in
/-- The signature is over fields that it does not change. -/
theorem verify_signed (h : j.signerPubkey = pubkeyB64 key) :
    verifyB64 (j.signed key).signerPubkey (j.signed key).signature (j.signed key).unsignedBytes =
      .ok () := by
  show verifyB64 j.signerPubkey (signB64 key j.unsignedBytes) j.unsignedBytes = .ok ()
  rw [h]
  exact verifyB64_signB64 key _

theorem validate_prepared {targetBasename : String}
    (hbasename : validateTargetBasename targetBasename = .ok ()) :
    (preparedJournal key targetBasename d).validate key = .ok d := by
  refine validate_eq_ok_iff.mpr ⟨rfl, hbasename, rfl, verify_signed rfl, ?_, rfl, ⟨rfl, rfl⟩,
    ⟨rfl, rfl⟩, ⟨rfl, rfl⟩, rfl⟩
  unfold Journal.descriptor
  show (context (Crates.base64Decode (Crates.base64Encode d.encode)) _ >>= _) = _
  rw [Crates.base64Decode_encode]
  simp only [bind_eq_ok_iff, context_eq_ok_iff, require_eq_ok_iff]
  exact ⟨_, rfl, (), beq_iff_eq.mpr d.length_encode, decodeCanonical_encode d⟩

theorem validate_delivered (h : j.validate key = .ok d) (receiptProofSha256 : Hash) :
    (j.markedDelivered key receiptProofSha256).validate key = .ok d := by
  obtain ⟨hversion, hbasename, hsigner, -, hd, hop, htargets, hlengths, hsummary, -⟩ :=
    validate_eq_ok_iff.mp h
  refine validate_eq_ok_iff.mpr ⟨hversion, hbasename, hsigner, verify_signed hsigner, hd, hop,
    htargets, hlengths, hsummary, ?_⟩
  unfold Journal.validatePhase Journal.markedDelivered Journal.signed
  simp only [bind_eq_ok_iff, context_eq_ok_iff]
  exact ⟨_, rfl, _, parseHex32_hexEncode receiptProofSha256 _, rfl⟩

end

end Neoth.Wal.RewriteJournal
