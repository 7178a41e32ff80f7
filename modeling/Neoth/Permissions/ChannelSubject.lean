import Neoth.Lib.Joined
import Neoth.Lib.Json
import Neoth.Lib.Transaction

/-!
# The subject of a channel lease

`permissions/lease.rs`: the sender of a channel message becomes the last component of a path, in
hexadecimal, so that no sender can end a component or begin one.

* `toList_subject`: the subject as components joined by `/`;
* `subject_inj`: it names one channel, account, incarnation and sender;
* `byteLen_subject`: how long it is; `printable_subject`: it is printable ASCII.
-/

open Lib Lib.Encoding Lib.Text Lib.Transaction

namespace Neoth.Permissions

/-! ## Accounts -/

inductive ChannelKind
  | telegram | keet | slack | whatsAppBusiness | whatsAppBaileys | discord | signal | matrix
  | line | irc
  | mattermost | twitch | nostr | iMessageBlueBubbles | googleChat
  deriving DecidableEq

def ChannelKind.asStr : ChannelKind → String
  | .telegram => "telegram"
  | .keet => "keet"
  | .slack => "slack"
  | .whatsAppBusiness => "whatsapp_business"
  | .whatsAppBaileys => "whatsapp_baileys"
  | .discord => "discord"
  | .signal => "signal"
  | .matrix => "matrix"
  | .line => "line"
  | .irc => "irc"
  | .mattermost => "mattermost"
  | .twitch => "twitch"
  | .nostr => "nostr"
  | .iMessageBlueBubbles => "imessage_bluebubbles"
  | .googleChat => "gchat"

inductive ChannelAccountIdError
  | empty
  | tooLong (max : Nat)
  | invalidBoundary
  | invalidCharacters
  deriving DecidableEq

def maxChannelAccountIdLen : Nat := 64

def isAlnum (byte : UInt8) : Bool := (0x61 ≤ byte && byte ≤ 0x7a) || isAsciiDigit byte

def validateChannelAccountId (value : String) : Except ChannelAccountIdError Unit := do
  let bytes := utf8 value
  require (!bytes.isEmpty) .empty
  require (bytes.length ≤ maxChannelAccountIdLen) (.tooLong maxChannelAccountIdLen)
  require (bytes.all (· < 0x80) && trim value == value) .invalidCharacters
  require (bytes.head?.all isAlnum && bytes.getLast?.all isAlnum) .invalidBoundary
  require (bytes.all fun byte => isAlnum byte || byte == 0x5f || byte == 0x2d) .invalidCharacters

structure ChannelAccountId where
  value : String
  valid : validateChannelAccountId value = .ok ()

structure ChannelRef where
  channelId : ChannelKind
  accountId : ChannelAccountId

/-- What `Uuid::parse_str` takes and `hyphenated` gives back: 36 bytes, dashes at 8, 13, 18 and
23. -/
def isCanonicalUuid (value : String) : Bool :=
  byteLen value == 36 && (utf8 value).zipIdx.all fun (byte, index) =>
    if index = 8 ∨ index = 13 ∨ index = 18 ∨ index = 23 then byte == 0x2d
    else isAsciiDigit byte || isLowerHexLetter byte

structure AccountIncarnation where
  value : String
  canonical : isCanonicalUuid value = true

structure ChannelAccountBinding where
  channelRef : ChannelRef
  incarnation : Option AccountIncarnation

/-! ## Subjects -/

def channelLeaseSubject (channelRef : ChannelRef) (sender : String) : String :=
  "channel-ref/" ++ channelRef.channelId.asStr ++ "/" ++ channelRef.accountId.value ++
    "/sender-hex/" ++ hexEncode (utf8 sender)

def channelBoundLeaseSubject (binding : ChannelAccountBinding) (sender : String) : String :=
  match binding.incarnation with
  | none => channelLeaseSubject binding.channelRef sender
  | some incarnation =>
    "channel-binding/v1/" ++ binding.channelRef.channelId.asStr ++ "/" ++
      binding.channelRef.accountId.value ++
      "/incarnation/" ++ incarnation.value ++ "/sender-hex/" ++ hexEncode (utf8 sender)

/-- The components of the subject. -/
def components (binding : ChannelAccountBinding) (sender : String) : List String :=
  match binding.incarnation with
  | none => ["channel-ref", binding.channelRef.channelId.asStr, binding.channelRef.accountId.value,
      "sender-hex", hexEncode (utf8 sender)]
  | some incarnation => ["channel-binding", "v1", binding.channelRef.channelId.asStr,
      binding.channelRef.accountId.value, "incarnation", incarnation.value, "sender-hex",
      hexEncode (utf8 sender)]

/-- The bytes of the subject, from those of what it is made of. -/
def subjectBytes (binding : ChannelAccountBinding) (sender : String) : Nat :=
  (if binding.incarnation.isSome then 81 else 25) + byteLen binding.channelRef.channelId.asStr +
    byteLen binding.channelRef.accountId.value + 2 * byteLen sender

/-! ## Plain components -/

/-- Printable ASCII without the separator. -/
def isPlain (byte : UInt8) : Bool := 0x21 ≤ byte && byte ≤ 0x7e && byte != 0x2f

theorem isPlain_ofNat {n : Nat} (hn : n < 256) (h : isPlain (UInt8.ofNat n) = true) :
    0x21 ≤ n ∧ n ≤ 0x7e ∧ n ≠ 0x2f := by
  simp only [isPlain, Bool.and_eq_true, decide_eq_true_eq, bne_iff_ne, UInt8.le_iff_toNat_le,
    ← UInt8.toNat_inj, ne_eq, UInt8.reduceToNat, UInt8.toNat_ofNat'] at h
  omega

theorem isPlain_of_isAlnum {byte : UInt8}
    (h : (isAlnum byte || byte == 0x5f || byte == 0x2d) = true) : isPlain byte = true := by
  simp only [isAlnum, isAsciiDigit, isPlain, Bool.or_eq_true, Bool.and_eq_true, decide_eq_true_eq,
    beq_iff_eq, bne_iff_ne, UInt8.le_iff_toNat_le, ← UInt8.toNat_inj, ne_eq,
    UInt8.reduceToNat] at h ⊢
  omega

theorem isPlain_of_isHex {byte : UInt8} (h : (isAsciiDigit byte || isLowerHexLetter byte) = true) :
    isPlain byte = true := by
  simp only [isLowerHexLetter, isAsciiDigit, isPlain, Bool.or_eq_true, Bool.and_eq_true,
    decide_eq_true_eq, bne_iff_ne, UInt8.le_iff_toNat_le, ← UInt8.toNat_inj, ne_eq,
    UInt8.reduceToNat] at h ⊢
  omega

theorem toNat_of_isPlain {c : Char} (h : ∀ byte ∈ String.utf8EncodeChar c, isPlain byte = true) :
    0x21 ≤ c.toNat ∧ c.toNat ≤ 0x7e ∧ c.toNat ≠ 0x2f := by
  change 0x21 ≤ c.val.toNat ∧ c.val.toNat ≤ 0x7e ∧ c.val.toNat ≠ 0x2f
  unfold String.utf8EncodeChar at h
  dsimp only at h
  split at h
  · rename_i hone
    exact isPlain_ofNat (by omega) (h _ (List.mem_singleton_self _))
  -- a longer spelling ends in a continuation byte
  have hlast : isPlain (UInt8.ofNat (c.val.toNat % 64 + 128)) = true := by
    split at h
    · exact h _ (by simp)
    split at h
    · exact h _ (by simp)
    · exact h _ (by simp)
  have hbounds := isPlain_ofNat (by omega) hlast
  omega

def Plain (value : String) : Prop := ∀ byte ∈ utf8 value, isPlain byte = true

instance plainDecidable : DecidablePred Plain := fun value =>
  inferInstanceAs (Decidable (∀ byte ∈ utf8 value, isPlain byte = true))

theorem Plain.char {value : String} (h : Plain value) {c : Char} (hc : c ∈ value.toList) :
    0x21 ≤ c.toNat ∧ c.toNat ≤ 0x7e ∧ c.toNat ≠ 0x2f :=
  toNat_of_isPlain fun byte hbyte => h byte (List.mem_flatMap.mpr ⟨c, hc, hbyte⟩)

theorem plain_asStr (kind : ChannelKind) : Plain kind.asStr := by
  cases kind <;> decide +kernel

theorem ChannelAccountId.plain (id : ChannelAccountId) : Plain id.value := by
  have hvalid := id.valid
  simp only [validateChannelAccountId, bind_eq_ok_iff, require_eq_ok_iff] at hvalid
  obtain ⟨_, -, _, -, _, -, _, -, hall⟩ := hvalid
  exact fun byte hbyte => isPlain_of_isAlnum (List.all_eq_true.mp hall byte hbyte)

theorem AccountIncarnation.plain (incarnation : AccountIncarnation) : Plain incarnation.value := by
  have hcanonical := incarnation.canonical
  simp only [isCanonicalUuid, Bool.and_eq_true, List.all_eq_true] at hcanonical
  intro byte hbyte
  obtain ⟨i, hi, rfl⟩ := List.getElem_of_mem hbyte
  have hat := hcanonical.2 ((utf8 incarnation.value)[i], i)
    (List.mem_zipIdx_iff_getElem?.mpr (List.getElem?_eq_getElem hi))
  dsimp only at hat
  split at hat
  · rw [eq_of_beq hat]
    decide
  · exact isPlain_of_isHex hat

theorem plain_hexEncode (bytes : List UInt8) : Plain (hexEncode bytes) := fun byte hbyte =>
  isPlain_of_isHex (List.all_eq_true.mp (utf8_hexEncode bytes).2 byte hbyte)

section
variable (binding : ChannelAccountBinding) (sender : String)

theorem plain_components : ∀ part ∈ components binding sender, Plain part := by
  unfold components
  cases binding.incarnation with
  | none =>
    simp only [List.forall_mem_cons, List.not_mem_nil, false_imp_iff, implies_true, and_true]
    exact ⟨by decide +kernel, plain_asStr _, binding.channelRef.accountId.plain, by
      decide +kernel, plain_hexEncode _⟩
  | some incarnation =>
    simp only [List.forall_mem_cons, List.not_mem_nil, false_imp_iff, implies_true, and_true]
    exact ⟨by decide +kernel, by decide +kernel, plain_asStr _,
      binding.channelRef.accountId.plain, by decide +kernel, incarnation.plain, by
        decide +kernel, plain_hexEncode _⟩

/-! ## The subject -/

theorem toList_subject : (channelBoundLeaseSubject binding sender).toList =
    ['/'].intercalate ((components binding sender).map String.toList) := by
  unfold channelBoundLeaseSubject components
  cases binding.incarnation with
  | none => simp [channelLeaseSubject, List.intercalate]
  | some incarnation => simp [List.intercalate]

theorem byteLen_subject : byteLen (channelBoundLeaseSubject binding sender) =
    subjectBytes binding sender := by
  have happend : ∀ s t : String, byteLen (s ++ t) = byteLen s + byteLen t := fun s t => by
    simp [byteLen, utf8_append]
  have hhex : byteLen (hexEncode (utf8 sender)) = 2 * byteLen sender := (utf8_hexEncode _).1
  unfold channelBoundLeaseSubject subjectBytes
  cases binding.incarnation with
  | none =>
    have hopen : byteLen "channel-ref/" = 12 := by decide
    have hsep : byteLen "/" = 1 := by decide
    have hsender : byteLen "/sender-hex/" = 12 := by decide
    simp only [channelLeaseSubject, happend, hhex, hopen, hsep, hsender, Option.isSome_none,
      Bool.false_eq_true, if_false]
    omega
  | some incarnation =>
    have hopen : byteLen "channel-binding/v1/" = 19 := by decide
    have hsep : byteLen "/" = 1 := by decide
    have hword : byteLen "/incarnation/" = 13 := by decide
    have hsender : byteLen "/sender-hex/" = 12 := by decide
    have huuid : byteLen incarnation.value = 36 := by
      have hcanonical := incarnation.canonical
      simp only [isCanonicalUuid, Bool.and_eq_true, beq_iff_eq] at hcanonical
      exact hcanonical.1
    simp only [happend, hhex, hopen, hsep, hword, hsender, huuid, Option.isSome_some, if_true]
    omega

theorem printable_subject : ∀ c ∈ (channelBoundLeaseSubject binding sender).toList, 0x21 ≤ c.toNat ∧
    c.toNat ≤ 0x7e := by
  intro c hc
  rw [toList_subject] at hc
  rcases mem_intercalate hc with rfl | ⟨part, hpart, hc⟩
  · decide
  · obtain ⟨value, hvalue, rfl⟩ := List.mem_map.mp hpart
    obtain ⟨hlow, hhigh, -⟩ := (plain_components binding sender value hvalue).char hc
    exact ⟨hlow, hhigh⟩

end

theorem asStr_injective : Function.Injective ChannelKind.asStr := by
  intro kind kind' h
  revert h
  cases kind <;> cases kind' <;> decide +kernel

theorem ChannelAccountId.ext_value {id id' : ChannelAccountId} (h : id.value = id'.value) :
    id = id' := by
  cases id
  cases id'
  cases h
  rfl

theorem AccountIncarnation.ext_value {incarnation incarnation' : AccountIncarnation}
    (h : incarnation.value = incarnation'.value) : incarnation = incarnation' := by
  cases incarnation
  cases incarnation'
  cases h
  rfl

theorem components_inj {binding binding' : ChannelAccountBinding} {sender sender' : String}
    (h : components binding sender = components binding' sender') :
      binding = binding' ∧ sender = sender' := by
  have href : ∀ {ref ref' : ChannelRef}, ref.channelId.asStr = ref'.channelId.asStr →
      ref.accountId.value = ref'.accountId.value → ref = ref' := by
    rintro ⟨kind, id⟩ ⟨kind', id'⟩ hkind hid
    obtain rfl := asStr_injective hkind
    obtain rfl := ChannelAccountId.ext_value hid
    rfl
  have hsender : ∀ {s s' : String}, hexEncode (utf8 s) = hexEncode (utf8 s') → s = s' := fun heq =>
    Json.utf8_injective (hexEncode_injective heq)
  obtain ⟨ref, incarnation⟩ := binding
  obtain ⟨ref', incarnation'⟩ := binding'
  cases incarnation with
  | none =>
    cases incarnation' with
    | none =>
      simp only [components, List.cons.injEq, true_and, and_true] at h
      obtain ⟨hkind, hid, hhex⟩ := h
      exact ⟨by rw [href hkind hid], hsender hhex⟩
    | some incarnation' => simp [components] at h
  | some incarnation =>
    cases incarnation' with
    | none => simp [components] at h
    | some incarnation' =>
      simp only [components, List.cons.injEq, true_and, and_true] at h
      obtain ⟨hkind, hid, huuid, hhex⟩ := h
      exact ⟨by rw [href hkind hid, AccountIncarnation.ext_value huuid], hsender hhex⟩

/-- **A subject is one sender's.** -/
theorem subject_inj {binding binding' : ChannelAccountBinding} {sender sender' : String}
    (h : channelBoundLeaseSubject binding sender = channelBoundLeaseSubject binding' sender') :
    binding = binding' ∧ sender = sender' := by
  have hlist := congrArg String.toList h
  rw [toList_subject, toList_subject] at hlist
  have hplain : ∀ binding sender, ∀ part ∈ (components binding sender).map String.toList,
      '/' ∉ part := by
    intro binding sender part hpart hslash
    obtain ⟨value, hvalue, rfl⟩ := List.mem_map.mp hpart
    exact ((plain_components binding sender value hvalue).char hslash).2.2 rfl
  have hne : ∀ binding sender, (components binding sender).map String.toList ≠ [] := by
    intro binding sender
    unfold components
    cases binding.incarnation <;> simp
  have hparts := eq_of_intercalate_eq (hplain _ _) (hplain _ _) (hne _ _) (hne _ _) hlist
  exact components_inj
    (List.map_injective_iff.mpr (fun _ _ heq => String.toList_injective heq) hparts)

end Neoth.Permissions
