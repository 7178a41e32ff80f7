import Neoth.Lib.Machine
import Neoth.Lib.Table
import Neoth.MeshSync.Inbound

/-!
# Diverging origins

All origins of the receiving side together: `persist_inbound_on_conn_inner` of
`cluster/durable_sync.rs` over the rows of every origin and every auth epoch, with one table of
conflicts.  A stream is what `Inbound` keeps of one origin within one auth epoch; the membership
authority decides which epoch of an origin is current, and activating a fence drops the progress of
the others.

* `MeshStore.step`: a peer is admitted, or a frame is delivered;
* `Named`: a conflict row for two digests of one content;
* `MeshStore.Sound`: what every run keeps;
* `divergence_recorded`: two rows of one content that differ have a conflict row, a row holds the
  last content that was committed, and the order in which the streams came in does not matter.
-/

open Std Lib Lib.Encoding Lib.Machine Lib.Transaction Lib.TreeMap

namespace Neoth.MeshSync

/-! ## Streams -/

/-- Stable id and auth epoch. -/
abbrev StreamKey := PeerPubkey × Nat

/-- The rows of one origin within one auth epoch; its conflicts are with those of the others. -/
structure Stream where
  key : StreamKey
  inbox : Inbox
  frontier : VectorClock

def Stream.empty (key : StreamKey) : Stream := ⟨key, .empty, ∅⟩

/-- The progress is dropped, the content stays. -/
def Stream.deactivate (stream : Stream) : Stream :=
  { stream with inbox := { stream.inbox with inbound := none, receipts := ∅ }, frontier := ∅ }

theorem Stream.deactivate_key (stream : Stream) : stream.deactivate.key = stream.key := rfl

/-- A frame that was committed. -/
structure Commit where
  key : StreamKey
  frame : GossipFrame

/-- `authority`: the auth epoch in which a peer is admitted.  `log`: the commits so far. -/
structure MeshStore where
  authority : PeerPubkey → Option Nat
  redactions : List ProfileRedaction
  streams : Table Stream.key
  conflicts : List Conflict
  log : List Commit

def MeshStore.empty (redactions : List ProfileRedaction) : MeshStore :=
  ⟨fun _ => none, redactions, ∅, [], []⟩

namespace MeshStore

def stream (s : MeshStore) (key : StreamKey) : Stream := (s.streams.find key).getD (.empty key)

/-- The row of `mesh_sync_materialized`. -/
def materialized (s : MeshStore) (key : StreamKey) (contentId : String) : Option Materialized :=
  (s.stream key).inbox.materialized[contentId]?

/-- `ORDER BY stable_node_id, auth_epoch`. -/
def streamLe (a b : Stream) : Prop := a.key.1 < b.key.1 ∨ (a.key.1 = b.key.1 ∧ a.key.2 ≤ b.key.2)

instance : DecidableRel streamLe := fun _ _ => inferInstanceAs (Decidable (_ ∨ _))

/-- The rows of the other streams. -/
def others (s : MeshStore) (key : StreamKey) : List OtherMaterialized :=
  ((s.streams.rows.filter fun stream => stream.key ≠ key).insertionSort streamLe).flatMap
    fun stream =>
    stream.inbox.materialized.toList.map fun row =>
      ⟨row.1, stream.key.1, stream.key.2, row.2.contentSha256⟩

/-- `activate_membership_fence`, on the rows of the receiving side. -/
def activate (s : MeshStore) (key : StreamKey) : MeshStore :=
  { s with
    streams := s.streams.update (fun stream => stream.key.1 = key.1 ∧ stream.key.2 ≠ key.2)
      Stream.deactivate Stream.deactivate_key }

/-- The rows that a delivery writes. -/
def store (s : MeshStore) (key : StreamKey) (inbox : Inbox) (frontier : VectorClock)
    (log : List Commit) : MeshStore :=
  { s with
    streams := s.streams.put { s.stream key with inbox := { inbox with conflicts := [] }, frontier }
    conflicts := inbox.conflicts
    log }

/-- The log after the answer to a frame. -/
def logged (log : List Commit) (key : StreamKey) (frame : GossipFrame) : InboundCommit → List Commit
  | .committed _ => log ++ [⟨key, frame⟩]
  | _ => log

end MeshStore

inductive MeshEvent
  | enroll (peer : PeerPubkey) (authEpoch : Nat)
  | deliver (key : StreamKey) (frame : GossipFrame) (policy : GossipPolicy) (now : Int)

namespace MeshStore

section Step
variable [Sha256] [SerdeJson] [UnicodeText]

/-- `persist_inbound_on_conn_inner` under a fence. -/
def deliver (s : MeshStore) (key : StreamKey) (frame : GossipFrame) (policy : GossipPolicy)
    (now : Int) : Except String (MeshStore × InboundCommit) := do
  match ← checkInbound key.1 frame policy now with
  | .dropped acceptance => pure (s, .dropped acceptance)
  | .passed eventType => do
    require (s.authority key.1 == some key.2) "membership effect is not current"
    let s := s.activate key
    let stream := s.stream key
    let ((inbox, frontier), commit) ← commitInbound ⟨key.2, s.redactions, s.others key⟩ key.1 frame
        eventType
      { stream.inbox with conflicts := s.conflicts } stream.frontier
    pure (s.store key inbox frontier (logged s.log key frame commit), commit)

/-- An enrolment raises the auth epoch of the peer or fails. -/
def step (s : MeshStore) : MeshEvent → MeshStore × Except String InboundCommit
  | .enroll peer authEpoch =>
    if (s.authority peer).all fun current => current < authEpoch then
      ({ s with authority := Function.update s.authority peer (some authEpoch) },
        .ok (.dropped .accept))
    else (s, .error "auth epoch does not rise")
  | .deliver key frame policy now => transact (fun s => s.deliver key frame policy now) s

def after (redactions : List ProfileRedaction) (es : List MeshEvent) : MeshStore :=
  (run step (empty redactions) es).1

end Step

/-! ## What a commit leaves -/

/-- `conflict` is about these two digests of the content. -/
def Named (conflicts : List Conflict) (contentId : String) (a : StreamKey) (digestA : Digest)
    (b : StreamKey) (digestB : Digest) : Prop :=
  ∃ c ∈ conflicts, c.contentId = contentId ∧
    ((c.incumbentOrigin, c.incumbentAuthEpoch) = a ∧ c.incumbentSha256 = digestA ∧
        (c.incomingOrigin, c.incomingAuthEpoch) = b ∧ c.incomingSha256 = digestB ∨
      (c.incumbentOrigin, c.incumbentAuthEpoch) = b ∧ c.incumbentSha256 = digestB ∧
        (c.incomingOrigin, c.incomingAuthEpoch) = a ∧ c.incomingSha256 = digestA)

variable {conflicts : List Conflict} {contentId : String} {a b : StreamKey}
  {digestA digestB : Digest}

theorem Named.symm (h : Named conflicts contentId a digestA b digestB) :
    Named conflicts contentId b digestB a digestA := by
  obtain ⟨c, hc, hid, hsides⟩ := h
  exact ⟨c, hc, hid, hsides.symm⟩

theorem Named.mono {more : List Conflict} (h : Named conflicts contentId a digestA b digestB)
    (hsub : conflicts ⊆ more) : Named more contentId a digestA b digestB := by
  obtain ⟨c, hc, hid, hsides⟩ := h
  exact ⟨c, hsub hc, hid, hsides⟩

theorem subset_insertConflict (conflicts : List Conflict) (contentId : String) (a b : StreamKey)
    (digestA digestB : Digest) (policy : ConflictPolicy) :
    conflicts ⊆ insertConflict conflicts contentId a.1 a.2 b.1 b.2 digestA digestB policy := by
  unfold insertConflict
  extract_lets row
  split
  · exact List.Subset.refl _
  · exact List.subset_append_left _ _

theorem named_insertConflict (conflicts : List Conflict) (contentId : String) (a b : StreamKey)
    (digestA digestB : Digest) (policy : ConflictPolicy) :
    Named (insertConflict conflicts contentId a.1 a.2 b.1 b.2 digestA digestB policy) contentId a
      digestA b digestB := by
  unfold insertConflict
  dsimp only
  -- the row as it would be inserted
  generalize hrow : (if compare a.1 b.1 = .lt ∨ (a.1 = b.1 ∧ a.2 ≤ b.2) then
      (⟨contentId, a.1, a.2, b.1, b.2, digestA, digestB, policy⟩ : Conflict)
    else ⟨contentId, b.1, b.2, a.1, a.2, digestB, digestA, policy⟩) = row
  have hnames : ∀ c : Conflict, { c with policy := policy } = row → ∀ rows, c ∈ rows →
      Named rows contentId a digestA b digestB := by
    intro c hc rows hmem
    refine ⟨c, hmem, ?_⟩
    rw [← hrow] at hc
    split at hc
    · obtain ⟨hid, hfirst, hfirstEpoch, hsecond, hsecondEpoch, hfirstSha, hsecondSha, -⟩ :=
        Conflict.mk.inj hc
      exact ⟨hid, .inl ⟨Prod.ext hfirst hfirstEpoch, hfirstSha, Prod.ext hsecond hsecondEpoch,
        hsecondSha⟩⟩
    · obtain ⟨hid, hfirst, hfirstEpoch, hsecond, hsecondEpoch, hfirstSha, hsecondSha, -⟩ :=
        Conflict.mk.inj hc
      exact ⟨hid, .inr ⟨Prod.ext hfirst hfirstEpoch, hfirstSha, Prod.ext hsecond hsecondEpoch,
        hsecondSha⟩⟩
  split
  · rename_i hany
    obtain ⟨c, hc, heq⟩ := List.any_eq_true.mp hany
    exact hnames c (of_decide_eq_true heq) _ hc
  · have hpolicy : row.policy = policy := by
      rw [← hrow]
      split <;> rfl
    exact hnames row (by rw [← hpolicy]) _ (List.mem_append_right _ (List.mem_singleton_self _))

/-- The loop over the rows of the other streams. -/
theorem named_foldl_insertConflict (contentId : String) (b : StreamKey) (digestB : Digest)
    (others : List OtherMaterialized) (conflicts : List Conflict) :
    let final :=
      others.foldl (fun conflicts other => insertConflict conflicts contentId other.originPeerPk
      other.authEpoch b.1 b.2 other.contentSha256 digestB .crossOriginTypedConflict) conflicts
    conflicts ⊆ final ∧ ∀ other ∈ others,
      Named final contentId (other.originPeerPk, other.authEpoch) other.contentSha256 b
        digestB := by
  induction others generalizing conflicts with
  | nil => simp
  | cons other others ih =>
    obtain ⟨hsub, hnamed⟩ :=
      ih (insertConflict conflicts contentId other.originPeerPk other.authEpoch b.1 b.2
      other.contentSha256 digestB .crossOriginTypedConflict)
    refine ⟨List.Subset.trans
      (subset_insertConflict conflicts contentId (other.originPeerPk, other.authEpoch) b
      _ _ _) hsub, ?_⟩
    intro x hx
    rcases List.mem_cons.mp hx with rfl | hx
    · exact (named_insertConflict conflicts contentId (x.originPeerPk, x.authEpoch) b
        x.contentSha256 digestB .crossOriginTypedConflict).mono hsub
    · exact hnamed x hx

variable {around : Surroundings} {origin : PeerPubkey} {frame : GossipFrame}

theorem materializeInbound_conflicts {inbox inbox' : Inbox}
    (h : materializeInbound around origin frame inbox = .ok inbox') :
    inbox.conflicts ⊆ inbox'.conflicts ∧ ∀ other ∈ around.others,
      other.contentId = frame.envelope.contentId →
      other.contentSha256 ≠ frame.contentSha256 →
      Named inbox'.conflicts frame.envelope.contentId (other.originPeerPk, other.authEpoch)
        other.contentSha256 (origin, around.authEpoch) frame.contentSha256 := by
  unfold materializeInbound at h
  simp only [bind_eq_ok_iff] at h
  obtain ⟨conflicts, hown, h⟩ := h
  cases h
  have hsub : inbox.conflicts ⊆ conflicts := by
    unfold checkCurrent at hown
    split at hown
    · cases hown
      exact List.Subset.refl _
    · simp only [bind_eq_ok_iff] at hown
      obtain ⟨-, -, -, -, hown⟩ := hown
      cases hown
      split
      · exact List.Subset.refl _
      · exact subset_insertConflict _ _ (origin, around.authEpoch) (origin, around.authEpoch) _ _ _
  obtain ⟨hmono, hnamed⟩ :=
    named_foldl_insertConflict frame.envelope.contentId (origin, around.authEpoch)
    frame.contentSha256 (around.others.filter fun other =>
      other.contentId == frame.envelope.contentId &&
      other.contentSha256 != frame.contentSha256) conflicts
  refine ⟨List.Subset.trans hsub hmono, ?_⟩
  intro other hother hid hdigest
  exact hnamed other (List.mem_filter.mpr ⟨hother, by simp [hid, hdigest]⟩)

/-! ## Steps -/

/-- The row of a frame. -/
def rowOf (frame : GossipFrame) : Materialized :=
  ⟨frame.eventSeq, frame.contentSha256, frame.envelope⟩

section Spec
variable [Sha256] [SerdeJson] [UnicodeText]

omit [Sha256] in
/-- Is the content kept, or only the receipt? -/
def storesContent (redactions : List ProfileRedaction) (frame : GossipFrame) : Bool :=
  match gossipPayloadEventMeta frame.payload with
  | none => false
  | some (eventType, _) =>
    (rawFrameMatchesForgetTombstone redactions eventType frame.payload).toOption == some false

variable {redactions : List ProfileRedaction} {eventType : UInt8}

omit [Sha256] in
theorem storesContent_eq {eventType subtype : UInt8}
    (hmeta : gossipPayloadEventMeta frame.payload = some (eventType, subtype)) {forgotten : Bool}
    (h : rawFrameMatchesForgetTombstone redactions eventType frame.payload = .ok forgotten) :
    storesContent redactions frame = !forgotten := by
  unfold storesContent
  rw [hmeta]
  simp only [h]
  cases forgotten <;> rfl

/-- What a commit does to the tables. -/
structure CommitStep (s s' : MeshStore) (key : StreamKey) (frame : GossipFrame) : Prop where
  authority : s'.authority = s.authority
  redactions : s'.redactions = s.redactions
  log : s'.log = s.log ++ [⟨key, frame⟩]
  current : s.authority key.1 = some key.2
  checked : ∃ policy now eventType, checkInbound key.1 frame policy now = .ok (.passed eventType)
  expected : frame.eventSeq = (s.stream key).inbox.nextExpected
  next : (s'.stream key).inbox.nextExpected = frame.eventSeq + 1
  nextOther : ∀ k : StreamKey, k.1 ≠ key.1 →
    (s'.stream k).inbox.nextExpected = (s.stream k).inbox.nextExpected
  materialized : ∀ k id, s'.materialized k id =
    if k = key ∧ frame.envelope.contentId = id ∧ storesContent s.redactions frame = true
      then some (rowOf frame)
    else s.materialized k id
  conflicts : s.conflicts ⊆ s'.conflicts
  named : storesContent s.redactions frame = true → ∀ k ≠ key, ∀ r,
    s.materialized k frame.envelope.contentId = some r → r.contentSha256 ≠ frame.contentSha256 →
    Named s'.conflicts frame.envelope.contentId k r.contentSha256 key frame.contentSha256

/-- What a step does that commits nothing: at most it activates the current stream of one origin. -/
structure QuietStep (s s' : MeshStore) : Prop where
  redactions : s'.redactions = s.redactions
  log : s'.log = s.log
  conflicts : s'.conflicts = s.conflicts
  materialized : ∀ k id, s'.materialized k id = s.materialized k id
  authority : ∀ peer, s'.authority peer = s.authority peer ∨
    ∃ authEpoch, s'.authority peer = some authEpoch ∧ ∀ current ∈ s.authority peer,
      current < authEpoch
  next : ∀ k : StreamKey, s.authority k.1 = some k.2 →
    (s'.stream k).inbox.nextExpected = (s.stream k).inbox.nextExpected

omit [Sha256] [SerdeJson] [UnicodeText] in
theorem stream_key (s : MeshStore) (key : StreamKey) : (s.stream key).key = key := by
  unfold stream
  cases h : s.streams.find key with
  | none => rfl
  | some stream => exact (Table.find_eq_some_iff.mp h).2

omit [Sha256] [SerdeJson] [UnicodeText] in
theorem stream_activate (s : MeshStore) (key k : StreamKey) : (s.activate key).stream k =
    if k.1 = key.1 ∧ k.2 ≠ key.2 then (s.stream k).deactivate else s.stream k := by
  unfold stream activate
  rw [Table.find_update]
  cases h : s.streams.find k with
  | none =>
    split
    · rfl
    · rfl
  | some stream =>
    have hkey := (Table.find_eq_some_iff.mp h).2
    simp only [Option.map_some, Option.getD_some, hkey, decide_eq_true_eq]

omit [Sha256] [SerdeJson] [UnicodeText] in
theorem materialized_activate (s : MeshStore) (key k : StreamKey) (id : String) :
    (s.activate key).materialized k id = s.materialized k id := by
  unfold materialized
  rw [stream_activate]
  split <;> rfl

variable {s : MeshStore} {key : StreamKey}

omit [Sha256] [SerdeJson] [UnicodeText] in
theorem mem_others {key k : StreamKey} (hne : k ≠ key) {id : String} {r : Materialized}
    (h : s.materialized k id = some r) : ⟨id, k.1, k.2, r.contentSha256⟩ ∈ s.others key := by
  unfold materialized stream at h
  cases hfind : s.streams.find k with
  | none =>
    rw [hfind] at h
    cases ExtTreeMap.getElem?_empty.symm.trans h
  | some stream =>
    rw [hfind, Option.getD_some] at h
    obtain ⟨hmem, hkey⟩ := Table.find_eq_some_iff.mp hfind
    unfold others
    rw [List.mem_flatMap]
    refine ⟨stream, ?_, ?_⟩
    · rw [List.mem_insertionSort, List.mem_filter]
      exact ⟨hmem, by simpa [hkey] using hne⟩
    · rw [List.mem_map]
      exact ⟨(id, r), ExtTreeMap.mem_toList_iff_getElem?_eq_some.mpr h, by rw [hkey]⟩

omit [Sha256] [SerdeJson] [UnicodeText] in
theorem stream_store (s : MeshStore) (key : StreamKey) (inbox : Inbox) (frontier : VectorClock)
    (log : List Commit) (k : StreamKey) : (s.store key inbox frontier log).stream k =
      if k = key then ⟨key, { inbox with conflicts := [] }, frontier⟩ else s.stream k := by
  rw [stream, store, Table.find_put]
  by_cases hk : k = key
  · simp [hk, stream_key]
  · rw [if_neg hk, if_neg (by rw [stream_key]; exact fun heq => hk heq.symm)]
    rfl

variable {commit : InboundCommit}

theorem commitInbound_spec {inbox inbox' : Inbox} {frontier frontier' : VectorClock}
    (h : commitInbound around origin frame eventType inbox frontier =
      .ok ((inbox', frontier'), commit)) :
    (inbox' = inbox ∧ ∀ ack, commit ≠ .committed ack) ∨
    (commit = .committed frame.ack ∧ frame.eventSeq = inbox.nextExpected ∧
      inbox'.nextExpected = frame.eventSeq + 1 ∧
      (rawFrameMatchesForgetTombstone around.redactions eventType frame.payload = .ok true ∧
          inbox'.materialized = inbox.materialized ∧ inbox'.conflicts = inbox.conflicts ∨
        rawFrameMatchesForgetTombstone around.redactions eventType frame.payload = .ok false ∧
          inbox'.materialized = inbox.materialized.insert frame.envelope.contentId (rowOf frame) ∧
          inbox.conflicts ⊆ inbox'.conflicts ∧
          ∀ other ∈ around.others, other.contentId = frame.envelope.contentId →
            other.contentSha256 ≠ frame.contentSha256 →
            Named inbox'.conflicts frame.envelope.contentId (other.originPeerPk, other.authEpoch)
              other.contentSha256 (origin, around.authEpoch) frame.contentSha256)) := by
  unfold commitInbound at h
  simp only [bind_eq_ok_iff] at h
  obtain ⟨-, -, h⟩ := h
  split at h
  · cases h
    exact .inl ⟨rfl, (by simp)⟩
  · split at h
    · obtain ⟨rfl, hcommit, -⟩ := answerDuplicate_spec h
      refine .inl ⟨rfl, ?_⟩
      rcases hcommit with rfl | rfl <;> simp
    · have hexpected : frame.eventSeq = inbox.nextExpected := by omega
      obtain ⟨rfl, hcommits, -⟩ := commitNext_spec hexpected h
      refine .inr ⟨rfl, hexpected, hcommits.next, ?_⟩
      unfold commitNext at h
      simp only [bind_eq_ok_iff] at h
      obtain ⟨forgotten, hforgotten, -, -, -, -, stored, hstore, -, -, merged, -, h⟩ := h
      cases h
      cases forgotten with
      | true =>
        cases hstore
        exact .inl ⟨hforgotten, rfl, rfl⟩
      | false =>
        refine .inr ⟨hforgotten, ?_⟩
        unfold storeContent at hstore
        simp only [Bool.not_false, bind_eq_ok_iff] at hstore
        obtain ⟨-, -, hstore⟩ := hstore
        obtain ⟨hsub, hnamed⟩ := materializeInbound_conflicts hstore
        refine ⟨?_, hsub, hnamed⟩
        unfold materializeInbound at hstore
        simp only [bind_eq_ok_iff] at hstore
        obtain ⟨conflicts, -, hstore⟩ := hstore
        cases hstore
        rfl

variable {policy : GossipPolicy} {now : Int}

/-- What a delivery leaves that is no error. -/
theorem deliver_spec {s s' : MeshStore} (h : s.deliver key frame policy now = .ok (s', commit)) :
    QuietStep s s' ∨ CommitStep s s' key frame := by
  unfold deliver at h
  simp only [bind_eq_ok_iff] at h
  obtain ⟨checked, hchecked, h⟩ := h
  cases checked with
  | dropped acceptance =>
    cases h
    exact .inl ⟨rfl, rfl, rfl, fun _ _ => rfl, fun _ => .inl rfl, fun _ _ => rfl⟩
  | passed eventType =>
    simp only [bind_eq_ok_iff, require_eq_ok_iff, beq_iff_eq] at h
    obtain ⟨-, hcurrent, ⟨⟨inbox, frontier⟩, commit'⟩, hcommit, h⟩ := h
    cases h
    have hown : (s.activate key).stream key = s.stream key := by
      rw [stream_activate, if_neg fun h => h.2 rfl]
    rw [hown] at hcommit
    have hnextOther : ∀ k : StreamKey, k.1 ≠ key.1 → ∀ log,
        ((s.activate key).store key inbox frontier log).stream k = s.stream k := by
      intro k hk log
      rw [stream_store, if_neg fun heq => hk (congrArg Prod.fst heq), stream_activate,
        if_neg fun h => hk h.1]
    rcases commitInbound_spec hcommit with ⟨rfl, hnone⟩ | ⟨rfl, hexpected, hnext, hstored⟩
    · -- nothing is committed
      refine .inl ⟨rfl, ?_, rfl, ?_, fun _ => .inl rfl, ?_⟩
      · cases commit' with
        | committed ack => exact absurd rfl (hnone ack)
        | _ => rfl
      · intro k id
        rw [materialized, stream_store]
        split
        · rename_i hk
          rw [hk]
          rfl
        · exact materialized_activate s key k id
      · intro k hk
        by_cases hkey : k = key
        · rw [stream_store, if_pos hkey, hkey]
          rfl
        · have hother : k.1 ≠ key.1 := by
            intro hfirst
            rw [hfirst, hcurrent] at hk
            exact hkey (Prod.ext hfirst (Option.some.inj hk).symm)
          rw [hnextOther k hother]
    · have hmeta : ∃ subtype, gossipPayloadEventMeta frame.payload = some (eventType, subtype) := by
        obtain ⟨-, -, -, -, -, subtype, hmeta, -⟩ := checkInbound_eq_passed_iff.mp hchecked
        exact ⟨subtype, hmeta⟩
      obtain ⟨subtype, hmeta⟩ := hmeta
      refine .inr ⟨rfl, rfl, rfl, hcurrent, ⟨policy, now, eventType, hchecked⟩, hexpected, ?_, ?_,
        ?_, ?_, ?_⟩
      · rw [stream_store, if_pos rfl]
        exact hnext
      · intro k hk
        rw [hnextOther k hk]
      · intro k id
        rw [materialized, stream_store]
        by_cases hk : k = key
        · subst hk
          rw [if_pos rfl]
          show inbox.materialized[id]? = _
          rcases hstored with ⟨hforgotten, hsame, -⟩ | ⟨hkept, hinsert, -⟩
          · have hstores : storesContent s.redactions frame = false :=
              storesContent_eq hmeta hforgotten
            rw [hsame, hstores, if_neg (by simp)]
            rfl
          · have hstores : storesContent s.redactions frame = true := storesContent_eq hmeta hkept
            rw [hinsert, hstores]
            by_cases hid : frame.envelope.contentId = id
            · rw [if_pos ⟨rfl, hid, rfl⟩, ← hid, ExtTreeMap.getElem?_insert_self]
            · rw [if_neg (by tauto), getElem?_insert_of_ne _ hid]
              rfl
        · rw [if_neg hk, if_neg (by tauto)]
          exact materialized_activate s key k id
      · show s.conflicts ⊆ inbox.conflicts
        rcases hstored with ⟨-, -, hsame⟩ | ⟨-, -, hsub, -⟩
        · rw [hsame]
          exact List.Subset.refl _
        · exact hsub
      · intro hstores k hne r hr hdigest
        rcases hstored with ⟨hforgotten, -⟩ | ⟨-, -, -, hnamed⟩
        · rw [show storesContent s.redactions frame =
            false from storesContent_eq hmeta hforgotten] at hstores
          cases hstores
        · exact hnamed _ (mem_others hne ((materialized_activate ..).trans hr)) rfl hdigest

omit [Sha256] [SerdeJson] [UnicodeText] in
theorem QuietStep.refl (s : MeshStore) : QuietStep s s :=
  ⟨rfl, rfl, rfl, fun _ _ => rfl, fun _ => .inl rfl, fun _ _ => rfl⟩

theorem step_deliver (s : MeshStore) (key : StreamKey) (frame : GossipFrame) (policy : GossipPolicy)
    (now : Int) :
    step s (.deliver key frame policy now) = transact (fun s => s.deliver key frame policy now) s :=
  rfl

theorem step_spec (s : MeshStore) (e : MeshEvent) :
    QuietStep s (step s e).1 ∨ ∃ key frame, CommitStep s (step s e).1 key frame := by
  cases e with
  | enroll peer authEpoch =>
    refine .inl ?_
    simp only [step]
    split
    · rename_i hrises
      refine ⟨rfl, rfl, rfl, fun _ _ => rfl, ?_, fun _ _ => rfl⟩
      intro p
      by_cases hp : p = peer
      · refine .inr ⟨authEpoch, by rw [hp]; exact Function.update_self .., ?_⟩
        intro current hcurrent
        rw [hp] at hcurrent
        rw [Option.mem_def.mp hcurrent] at hrises
        exact of_decide_eq_true hrises
      · exact .inl (Function.update_of_ne hp ..)
    · exact .refl s
  | deliver key frame policy now =>
    rw [step_deliver]
    cases h : s.deliver key frame policy now with
    | error error =>
      rw [transact_of_error h]
      exact .inl (.refl s)
    | ok result =>
      obtain ⟨s', commit⟩ := result
      rw [transact_of_ok h]
      rcases deliver_spec h with hquiet | hcommit
      · exact .inl hquiet
      · exact .inr ⟨key, frame, hcommit⟩

/-! ## What every run keeps -/

omit [Sha256] in
/-- The row that the frames of one stream leave of one content: that of the last one that is
kept. -/
def latestRow (redactions : List ProfileRedaction) (id : String) (frames : List GossipFrame) :
    Option Materialized :=
  (frames.filter fun frame => storesContent redactions frame &&
    frame.envelope.contentId == id).getLast?.map rowOf

/-- The committed frames of one stream, in order. -/
def framesOf (s : MeshStore) (key : StreamKey) : List GossipFrame :=
  (s.log.filter fun c => c.key = key).map (·.frame)

structure Sound (s : MeshStore) : Prop where
  latest : ∀ k id, s.materialized k id = latestRow s.redactions id (s.framesOf k)
  increasing : ∀ k, (s.framesOf k).Pairwise fun f g => f.eventSeq < g.eventSeq
  admitted : ∀ c ∈ s.log, ∃ current, s.authority c.key.1 = some current ∧ c.key.2 ≤ current
  below : ∀ c ∈ s.log, s.authority c.key.1 = some c.key.2 →
    c.frame.eventSeq < (s.stream c.key).inbox.nextExpected
  checked : ∀ c ∈ s.log, ∃ policy now eventType,
    checkInbound c.key.1 c.frame policy now = .ok (.passed eventType)
  named : ∀ k l, k ≠ l → ∀ id r r', s.materialized k id = some r → s.materialized l id = some r' →
    r.contentSha256 ≠ r'.contentSha256 → Named s.conflicts id k r.contentSha256 l r'.contentSha256

omit [Sha256] [SerdeJson] [UnicodeText] in
theorem mem_framesOf : frame ∈ s.framesOf key ↔ ⟨key, frame⟩ ∈ s.log := by
  unfold framesOf
  simp only [List.mem_map, List.mem_filter, decide_eq_true_eq]
  constructor
  · rintro ⟨c, ⟨hc, rfl⟩, rfl⟩
    exact hc
  · intro h
    exact ⟨_, ⟨h, rfl⟩, rfl⟩

theorem sound_empty (redactions : List ProfileRedaction) : (empty redactions).Sound := by
  have hnone : ∀ k id, (empty redactions).materialized k id = none := by
    intro k id
    exact ExtTreeMap.getElem?_empty
  refine ⟨hnone, fun _ => List.Pairwise.nil, by simp [empty], by simp [empty], by simp [empty], ?_⟩
  intro k l _ id r r' hr
  cases (hnone k id).symm.trans hr

theorem QuietStep.sound {s s' : MeshStore} (h : QuietStep s s') (hs : s.Sound) : s'.Sound := by
  have hframes : ∀ k, s'.framesOf k = s.framesOf k := by
    intro k
    rw [framesOf, h.log, framesOf]
  refine ⟨?_, ?_, ?_, ?_, ?_, ?_⟩
  · intro k id
    rw [h.materialized, hs.latest, h.redactions, hframes]
  · intro k
    rw [hframes]
    exact hs.increasing k
  · intro c hc
    obtain ⟨current, hcurrent, hle⟩ := hs.admitted c (h.log ▸ hc)
    rcases h.authority c.key.1 with hsame | ⟨authEpoch, hnew, hlt⟩
    · exact ⟨current, hsame.trans hcurrent, hle⟩
    · have hlt := hlt current hcurrent
      exact ⟨authEpoch, hnew, by omega⟩
  · intro c hc hauthority
    rw [h.log] at hc
    obtain ⟨current, hcurrent, hle⟩ := hs.admitted c hc
    rcases h.authority c.key.1 with hsame | ⟨authEpoch, hnew, hlt⟩
    · rw [hsame] at hauthority
      rw [h.next c.key hauthority]
      exact hs.below c hc hauthority
    · have hlt := hlt current hcurrent
      have heq := Option.some.inj (hnew.symm.trans hauthority)
      omega
  · intro c hc
    exact hs.checked c (h.log ▸ hc)
  · intro k l hne id r r' hr hr' hdigest
    rw [h.materialized] at hr hr'
    rw [h.conflicts]
    exact hs.named k l hne id r r' hr hr' hdigest

omit [Sha256] in
theorem latestRow_append (redactions : List ProfileRedaction) (id : String)
    (frames : List GossipFrame) (frame : GossipFrame) :
    latestRow redactions id (frames ++ [frame]) =
      if frame.envelope.contentId = id ∧ storesContent redactions frame = true
        then some (rowOf frame)
      else latestRow redactions id frames := by
  unfold latestRow
  rw [List.filter_append]
  by_cases h : frame.envelope.contentId = id ∧ storesContent redactions frame = true
  · rw [if_pos h, List.filter_cons_of_pos (by simp [h.1, h.2]), List.filter_nil,
      List.getLast?_append]
    rfl
  · rw [if_neg h, List.filter_cons_of_neg (by simp; tauto), List.filter_nil, List.append_nil]

theorem CommitStep.sound {s s' : MeshStore} (h : CommitStep s s' key frame) (hs : s.Sound) :
    s'.Sound := by
  have hframes : ∀ k, s'.framesOf k = s.framesOf k ++ if key = k then [frame] else [] := by
    intro k
    rw [framesOf, h.log, List.filter_append, List.map_append, framesOf]
    by_cases hk : key = k <;> simp [hk]
  have hbelow : ∀ c ∈ s.log, c.key = key → c.frame.eventSeq < frame.eventSeq := by
    rintro c hc rfl
    rw [h.expected]
    exact hs.below c hc h.current
  refine ⟨?_, ?_, ?_, ?_, ?_, ?_⟩
  · intro k id
    rw [h.materialized, hframes, h.redactions]
    by_cases hk : k = key
    · rw [if_pos hk.symm, latestRow_append, ← hs.latest]
      by_cases hstored : frame.envelope.contentId = id ∧ storesContent s.redactions frame = true
      · rw [if_pos ⟨hk, hstored⟩, if_pos hstored]
      · rw [if_neg (fun hall => hstored hall.2), if_neg hstored]
    · rw [if_neg fun hall => hk hall.1, if_neg (Ne.symm hk), List.append_nil, hs.latest]
  · intro k
    rw [hframes]
    split
    · rename_i hk
      refine List.pairwise_append.mpr ⟨hs.increasing k, List.pairwise_singleton .., ?_⟩
      intro f hf g hg
      rw [List.mem_singleton.mp hg]
      exact hbelow ⟨k, f⟩ (mem_framesOf.mp hf) hk.symm
    · rw [List.append_nil]
      exact hs.increasing k
  · intro c hc
    rw [h.log] at hc
    rw [h.authority]
    rcases List.mem_append.mp hc with hc | hc
    · exact hs.admitted c hc
    · rw [List.mem_singleton.mp hc]
      exact ⟨key.2, h.current, le_rfl⟩
  · intro c hc hauthority
    rw [h.authority] at hauthority
    rw [h.log] at hc
    by_cases hkey : c.key.1 = key.1
    · have hsecond : c.key.2 = key.2 := by
        rw [hkey] at hauthority
        exact Option.some.inj (hauthority.symm.trans h.current)
      have hkey : c.key = key := Prod.ext hkey hsecond
      rw [hkey, h.next]
      rcases List.mem_append.mp hc with hc | hc
      · have hlt := hbelow c hc hkey
        omega
      · rw [List.mem_singleton.mp hc]
        exact Nat.lt_succ_self _
    · rw [h.nextOther c.key hkey]
      rcases List.mem_append.mp hc with hc | hc
      · exact hs.below c hc hauthority
      · rw [List.mem_singleton.mp hc] at hkey
        exact absurd rfl hkey
  · intro c hc
    rw [h.log] at hc
    rcases List.mem_append.mp hc with hc | hc
    · exact hs.checked c hc
    · rw [List.mem_singleton.mp hc]
      exact h.checked
  · intro k l hne id r r' hr hr' hdigest
    rw [h.materialized] at hr hr'
    -- only one of the two streams can have got the frame
    split at hr
    · rename_i hk
      obtain ⟨rfl, rfl, hstores⟩ := hk
      cases hr
      rw [if_neg fun hall => hne hall.1.symm] at hr'
      exact (h.named hstores l (Ne.symm hne) r' hr' (Ne.symm hdigest)).symm
    · split at hr'
      · rename_i hl
        obtain ⟨rfl, rfl, hstores⟩ := hl
        cases hr'
        exact h.named hstores k hne r hr hdigest
      · exact (hs.named k l hne id r r' hr hr' hdigest).mono h.conflicts

theorem sound_step (hs : s.Sound) (e : MeshEvent) : (step s e).1.Sound := by
  rcases step_spec s e with hquiet | ⟨key, frame, hcommit⟩
  · exact hquiet.sound hs
  · exact hcommit.sound hs

theorem sound_after (redactions : List ProfileRedaction) (es : List MeshEvent) :
    (after redactions es).Sound :=
  run_invariant (P := Sound) (fun _ e hs => sound_step hs e) _ (sound_empty redactions) es

theorem redactions_after (redactions : List ProfileRedaction) (es : List MeshEvent) :
    (after redactions es).redactions = redactions := by
  refine run_invariant (P := fun s : MeshStore => s.redactions = redactions) ?_ _ rfl es
  intro s e hs
  rcases step_spec s e with hquiet | ⟨key, frame, hcommit⟩
  · exact hquiet.redactions.trans hs
  · exact hcommit.redactions.trans hs

/-! ## Content ids -/

omit [SerdeJson] [UnicodeText] in
/-- An id that starts as those of raw content is the digest of the payload. -/
theorem contentId_of_raw (h : checkInbound origin frame policy now = .ok (.passed eventType))
    (hraw : frame.envelope.contentId.toList.head? = some 'r') :
    frame.envelope.contentId = "raw:" ++ hexEncode (Sha256.digest frame.payload).val := by
  obtain ⟨-, -, -, -, -, eventSubtype, -, -, -, hshape⟩ := checkInbound_eq_passed_iff.mp h
  unfold validateContentShape at hshape
  simp only [bind_eq_ok_iff] at hshape
  obtain ⟨-, -, -, -, hshape⟩ := hshape
  cases hcontent : frame.envelope.content with
  | memory snapshot =>
    rw [hcontent] at hshape
    simp only at hshape
    split at hshape
    · unfold validateMemory at hshape
      simp only [bind_eq_ok_iff, require_eq_ok_iff, beq_iff_eq] at hshape
      obtain ⟨-, -, -, -, -, -, -, -, -, -, -, -, -, hid, hsame⟩ := hshape
      rw [hsame, hid, memoryStableId, String.toList_append] at hraw
      exact absurd hraw (by simp)
    · cases hshape
  | groundTruth snapshot =>
    rw [hcontent] at hshape
    simp only at hshape
    split at hshape
    · unfold validateGroundTruth at hshape
      simp only [bind_eq_ok_iff, require_eq_ok_iff, beq_iff_eq] at hshape
      obtain ⟨-, -, -, -, -, -, -, -, -, -, -, -, -, -, -, -, -, hid, hsame⟩ := hshape
      rw [hsame, hid, groundTruthStableId, String.toList_append] at hraw
      exact absurd hraw (by simp)
    · cases hshape
  | rawPrivate inner walFrame =>
    rw [hcontent] at hshape
    simp only [bind_eq_ok_iff, require_eq_ok_iff, beq_iff_eq, Bool.and_eq_true] at hshape
    obtain ⟨-, -, -, ⟨-, hframe⟩, -, -, hid⟩ := hshape
    rw [hid, hframe]
  | metadata inner sub walFrame =>
    rw [hcontent] at hshape
    simp only [bind_eq_ok_iff, require_eq_ok_iff, beq_iff_eq, Bool.and_eq_true] at hshape
    obtain ⟨-, -, -, -, hid⟩ := hshape
    rw [hid, String.toList_append] at hraw
    exact absurd hraw (by simp)

omit [Sha256] [SerdeJson] [UnicodeText] in
/-- The raw event types are none of the others. -/
theorem classifyEventExt_raw (h : classifyEventExt eventType 0 = .rawIngressGated) :
    ¬ (0x90 ≤ eventType ∧ eventType ≤ 0x92) ∧ eventType ≠ 0x98 ∧
      ∀ eventSubtype, classifyEventExt eventType eventSubtype ≠ .replicate := by
  have hnonzero : eventType ≠ 0 := by
    rintro rfl
    cases h
  have hclass : ∀ eventSubtype, classifyEventExt eventType eventSubtype = classifyEvent eventType :=
    fun _ => if_neg hnonzero
  rw [hclass] at h
  refine ⟨?_, ?_, fun eventSubtype heq => ?_⟩
  · rintro ⟨hlow, hhigh⟩
    have hmem : eventType = 0x90 ∨ eventType = 0x91 ∨ eventType = 0x92 := by
      rw [← UInt8.toNat_inj, ← UInt8.toNat_inj, ← UInt8.toNat_inj]
      rw [UInt8.le_iff_toNat_le] at hlow hhigh
      simp at hlow hhigh ⊢
      omega
    rcases hmem with rfl | rfl | rfl <;> cases h
  · rintro rfl
    cases h
  · rw [hclass, h] at heq
    cases heq

/-- Only raw content is ever withheld. -/
theorem contentId_of_withheld {redactions : List ProfileRedaction} {origin : PeerPubkey}
    {frame : GossipFrame} {policy : GossipPolicy} {now : Int} {eventType : UInt8}
    (h : checkInbound origin frame policy now = .ok (.passed eventType))
    (hwithheld : rawFrameMatchesForgetTombstone redactions eventType frame.payload ≠ .ok false) :
    frame.envelope.contentId = "raw:" ++ hexEncode (Sha256.digest frame.payload).val := by
  obtain ⟨-, -, -, -, -, eventSubtype, -, -, -, hshape⟩ := checkInbound_eq_passed_iff.mp h
  have hgated : classifyEventExt eventType 0 = .rawIngressGated := by
    by_contra hne
    exact hwithheld (if_pos hne)
  obtain ⟨hmemory, hgroundTruth, hreplicate⟩ := classifyEventExt_raw hgated
  refine contentId_of_raw h ?_
  unfold validateContentShape at hshape
  simp only [bind_eq_ok_iff] at hshape
  obtain ⟨-, -, -, -, hshape⟩ := hshape
  cases hcontent : frame.envelope.content with
  | memory snapshot =>
    rw [hcontent] at hshape
    simp only [if_neg hmemory] at hshape
    cases hshape
  | groundTruth snapshot =>
    rw [hcontent] at hshape
    simp only [if_neg hgroundTruth] at hshape
    cases hshape
  | rawPrivate inner walFrame =>
    rw [hcontent] at hshape
    simp only [bind_eq_ok_iff, require_eq_ok_iff, beq_iff_eq, Bool.and_eq_true] at hshape
    obtain ⟨-, -, -, -, -, -, hid⟩ := hshape
    rw [hid, String.toList_append]
    simp
  | metadata inner sub walFrame =>
    rw [hcontent] at hshape
    simp only [bind_eq_ok_iff, require_eq_ok_iff, beq_iff_eq, Bool.and_eq_true] at hshape
    obtain ⟨-, -, -, hclass, -⟩ := hshape
    exact absurd hclass (hreplicate eventSubtype)

/-- The content of a frame that is withheld is not that of one that is kept, up to a collision of
digests. -/
theorem collision_of_withheld {f g : GossipFrame}
    (hf : ∃ policy now eventType, checkInbound key.1 f policy now = .ok (.passed eventType))
    (hg : ∃ policy now eventType, checkInbound key.1 g policy now = .ok (.passed eventType))
    (hkept : storesContent redactions f = true) (hwithheld : storesContent redactions g = false)
    (hid : g.envelope.contentId = f.envelope.contentId) :
    g.payload ≠ f.payload ∧ Sha256.digest g.payload = Sha256.digest f.payload := by
  obtain ⟨policy, now, eventType, hg⟩ := hg
  obtain ⟨policy', now', eventType', hf⟩ := hf
  obtain ⟨-, -, -, -, -, eventSubtype, hmeta, -⟩ := checkInbound_eq_passed_iff.mp hg
  have hidg : g.envelope.contentId = "raw:" ++ hexEncode (Sha256.digest g.payload).val := by
    refine @contentId_of_withheld _ _ _ redactions _ _ _ _ _ hg ?_
    intro hfound
    rw [storesContent_eq hmeta hfound] at hwithheld
    cases hwithheld
  have hidf : f.envelope.contentId = "raw:" ++ hexEncode (Sha256.digest f.payload).val := by
    refine contentId_of_raw hf ?_
    rw [← hid, hidg, String.toList_append]
    simp
  refine ⟨?_, ?_⟩
  · intro hpayload
    rw [storesContent, hpayload] at hwithheld
    rw [storesContent, hwithheld] at hkept
    cases hkept
  · have htext : "raw:" ++ hexEncode (Sha256.digest g.payload).val =
        "raw:" ++ hexEncode (Sha256.digest f.payload).val :=
      hidg.symm.trans (hid.trans hidf)
    have hhex := congrArg String.toList htext
    rw [String.toList_append, String.toList_append] at hhex
    exact Subtype.ext (hexEncode_injective (String.toList_inj.mp (List.append_cancel_left hhex)))

/-! ## The other origins do not matter -/

omit [Sha256] [SerdeJson] [UnicodeText] in
theorem checkCurrent_others {inbox : Inbox} {own : List Conflict}
    (h : checkCurrent around origin frame inbox = .ok own) (others : List OtherMaterialized)
    (conflicts : List Conflict) :
    ∃ own', checkCurrent { around with others } origin frame { inbox with conflicts } =
      .ok own' := by
  unfold checkCurrent at h ⊢
  cases hcurrent : inbox.materialized[frame.envelope.contentId]? with
  | none => exact ⟨conflicts, rfl⟩
  | some current =>
    rw [hcurrent] at h
    simp only [bind_eq_ok_iff] at h ⊢
    obtain ⟨u, hpos, v, hmonotone, -⟩ := h
    exact ⟨_, u, hpos, v, hmonotone, rfl⟩

omit [Sha256] [SerdeJson] [UnicodeText] in
theorem storeContent_others {inbox inbox' : Inbox} {stored : Bool}
    (h : storeContent around origin frame eventType inbox stored = .ok inbox')
    (others : List OtherMaterialized) (conflicts : List Conflict) :
    ∃ conflicts',
      storeContent { around with others } origin frame eventType { inbox with conflicts } stored =
      .ok { inbox' with conflicts := conflicts' } := by
  cases stored with
  | false =>
    cases h
    exact ⟨conflicts, rfl⟩
  | true =>
    unfold storeContent materializeInbound at h ⊢
    simp only [bind_eq_ok_iff] at h ⊢
    obtain ⟨u, hfresh, own, hown, h⟩ := h
    cases h
    obtain ⟨own', hown'⟩ := checkCurrent_others hown others conflicts
    exact ⟨_, u, hfresh, own', hown', rfl⟩

/-- A commit is the same, but for the conflicts, whatever the other streams hold. -/
theorem commitInbound_others {inbox inbox' : Inbox} {frontier frontier' : VectorClock}
    (h : commitInbound around origin frame eventType inbox frontier =
      .ok ((inbox', frontier'), commit))
    (others : List OtherMaterialized) (conflicts : List Conflict) :
    ∃ conflicts', commitInbound { around with others } origin frame eventType
      { inbox with conflicts } frontier =
      .ok (({ inbox' with conflicts := conflicts' }, frontier'), commit) := by
  unfold commitInbound at h ⊢
  simp only [bind_eq_ok_iff] at h ⊢
  obtain ⟨u, hpos, h⟩ := h
  have hexpected : ({ inbox with conflicts } : Inbox).nextExpected = inbox.nextExpected := rfl
  rw [hexpected]
  by_cases hgap : inbox.nextExpected < frame.eventSeq
  · rw [if_pos hgap] at h
    cases h
    exact ⟨conflicts, (), hpos, by rw [if_pos hgap]; rfl⟩
  · rw [if_neg hgap] at h
    simp only [if_neg hgap]
    by_cases hold : frame.eventSeq < inbox.nextExpected
    · rw [if_pos hold] at h
      simp only [if_pos hold]
      unfold answerDuplicate at h ⊢
      simp only [bind_eq_ok_iff] at h ⊢
      obtain ⟨receipt, hreceipt, v, hdigest, h⟩ := h
      cases hframe : receipt.frameSha256 with
      | none =>
        rw [hframe] at h
        cases h
        refine ⟨conflicts, (), hpos, receipt, hreceipt, (), hdigest, ?_⟩
        rw [hframe]
        rfl
      | some stored =>
        rw [hframe] at h
        simp only [bind_eq_ok_iff] at h
        obtain ⟨w, hstored, merged, hmerge, h⟩ := h
        cases h
        refine ⟨conflicts, (), hpos, receipt, hreceipt, (), hdigest, ?_⟩
        rw [hframe]
        simp only [bind_eq_ok_iff]
        exact ⟨(), hstored, _, hmerge, rfl⟩
    · rw [if_neg hold] at h
      simp only [if_neg hold]
      unfold commitNext at h ⊢
      simp only [bind_eq_ok_iff] at h ⊢
      obtain ⟨forgotten, hforgotten, v, hbound, w, hfresh, stored, hstore, x, hnext, merged,
          hmerge, h⟩ := h
      cases h
      obtain ⟨conflicts', hother⟩ := storeContent_others hstore others conflicts
      exact ⟨conflicts', (), hpos, forgotten, hforgotten, (), hbound, (), hfresh, _, hother, (),
        hnext, _, hmerge, rfl⟩

/-- Whose streams an event is about. -/
def peerOf : MeshEvent → PeerPubkey
  | .enroll peer _ => peer
  | .deliver key .. => key.1

omit [Sha256] [SerdeJson] [UnicodeText] in
/-- The part of the store that is about one peer. -/
def view (s : MeshStore) (peer : PeerPubkey) : Option Nat × List ProfileRedaction ×
    (Nat → Stream) :=
  (s.authority peer, s.redactions, fun authEpoch => s.stream (peer, authEpoch))

variable {peer : PeerPubkey}

omit [Sha256] [SerdeJson] [UnicodeText] in
theorem view_eq_iff {s t : MeshStore} : s.view peer = t.view peer ↔
    s.authority peer = t.authority peer ∧ s.redactions = t.redactions ∧
      ∀ authEpoch, s.stream (peer, authEpoch) = t.stream (peer, authEpoch) := by
  unfold view
  rw [Prod.mk.injEq, Prod.mk.injEq, funext_iff]

theorem deliver_view {s s' t : MeshStore} (hview : s.view key.1 = t.view key.1)
    (h : s.deliver key frame policy now = .ok (s', commit)) :
    ∃ t', t.deliver key frame policy now = .ok (t', commit) ∧ s'.view key.1 = t'.view key.1 := by
  obtain ⟨hauthority, hredactions, hstreams⟩ := view_eq_iff.mp hview
  unfold deliver at h ⊢
  simp only [bind_eq_ok_iff] at h ⊢
  obtain ⟨checked, hchecked, h⟩ := h
  cases checked with
  | dropped acceptance =>
    cases h
    exact ⟨t, ⟨_, hchecked, rfl⟩, hview⟩
  | passed eventType =>
    simp only [bind_eq_ok_iff] at h
    obtain ⟨u, hcurrent, ⟨⟨inbox, frontier⟩, commit'⟩, hcommit, h⟩ := h
    cases h
    have hactivated : ∀ authEpoch, (s.activate key).stream (key.1, authEpoch) =
        (t.activate key).stream (key.1, authEpoch) := by
      intro authEpoch
      rw [stream_activate, stream_activate, hstreams]
    obtain ⟨conflicts, hother⟩ :=
      commitInbound_others hcommit ((t.activate key).others key) t.conflicts
    dsimp only at hother
    refine ⟨(t.activate key).store key { inbox with conflicts } frontier
      (logged t.log key frame commit'), ⟨_, hchecked, ?_⟩, ?_⟩
    · simp only [bind_eq_ok_iff]
      refine ⟨u, hauthority ▸ hcurrent, (({ inbox with conflicts }, frontier), commit'), ?_, rfl⟩
      rw [← hactivated key.2, show (t.activate key).redactions = s.redactions from hredactions.symm]
      exact hother
    · refine view_eq_iff.mpr ⟨hauthority, hredactions, fun authEpoch => ?_⟩
      rw [stream_store, stream_store, hactivated]

theorem step_view {s t : MeshStore} {e : MeshEvent}
    (hview : s.view (peerOf e) = t.view (peerOf e)) :
    (step s e).1.view (peerOf e) = (step t e).1.view (peerOf e) := by
  cases e with
  | enroll peer authEpoch =>
    obtain ⟨hauthority, hredactions, hstreams⟩ := view_eq_iff.mp hview
    have hauthority : s.authority peer = t.authority peer := hauthority
    simp only [step]
    rw [hauthority]
    split
    · refine view_eq_iff.mpr ⟨?_, hredactions, hstreams⟩
      show Function.update s.authority peer (some authEpoch) peer =
        Function.update t.authority peer (some authEpoch) peer
      rw [Function.update_self, Function.update_self]
    · exact hview
  | deliver key frame policy now =>
    rw [step_deliver, step_deliver]
    cases h : s.deliver key frame policy now with
    | ok result =>
      obtain ⟨s', commit⟩ := result
      obtain ⟨t', ht, hafter⟩ := deliver_view hview h
      rw [transact_of_ok h, transact_of_ok ht]
      exact hafter
    | error error =>
      cases h' : t.deliver key frame policy now with
      | ok result =>
        obtain ⟨t', commit⟩ := result
        obtain ⟨s', hs, -⟩ := deliver_view hview.symm h'
        cases h.symm.trans hs
      | error error' =>
        rw [transact_of_error h, transact_of_error h']
        exact hview

theorem step_view_of_ne {e : MeshEvent} (h : peerOf e ≠ peer) (s : MeshStore) :
    (step s e).1.view peer = s.view peer := by
  cases e with
  | enroll p authEpoch =>
    simp only [step]
    split
    · exact view_eq_iff.mpr ⟨Function.update_of_ne (Ne.symm h) .., rfl, fun _ => rfl⟩
    · rfl
  | deliver key frame policy now =>
    rw [step_deliver]
    cases hs : s.deliver key frame policy now with
    | error error => rw [transact_of_error hs]
    | ok result =>
      obtain ⟨s', commit⟩ := result
      rw [transact_of_ok hs]
      unfold deliver at hs
      simp only [bind_eq_ok_iff] at hs
      obtain ⟨checked, -, hs⟩ := hs
      cases checked with
      | dropped acceptance =>
        cases hs
        rfl
      | passed eventType =>
        simp only [bind_eq_ok_iff] at hs
        obtain ⟨-, -, ⟨⟨inbox, frontier⟩, commit'⟩, -, hs⟩ := hs
        cases hs
        refine view_eq_iff.mpr ⟨rfl, rfl, fun authEpoch => ?_⟩
        rw [stream_store, if_neg fun heq => h (congrArg Prod.fst heq).symm, stream_activate,
          if_neg fun hk => h hk.1.symm]

/-- What a run leaves of one peer is what the events of that peer leave. -/
theorem run_view (peer : PeerPubkey) (es : List MeshEvent) {s t : MeshStore}
    (hview : s.view peer = t.view peer) :
    (run step s es).1.view peer = (run step t (es.filter fun e => peerOf e = peer)).1.view
      peer := by
  induction es generalizing s t with
  | nil => exact hview
  | cons e es ih =>
    by_cases he : peerOf e = peer
    · rw [List.filter_cons_of_pos (by simpa using he), run_cons, run_cons]
      subst he
      exact ih (step_view hview)
    · rw [List.filter_cons_of_neg (by simpa using he), run_cons]
      exact ih ((step_view_of_ne he s).trans hview)

/-! ## Divergence -/

/-- **Divergence is recorded.**  After any run, two rows of one content that differ have a conflict
row with both sides and both digests; a row is that of the last frame committed of its stream and
content, and the content of every committed frame that is not withheld has one; and any other order
of the same events of each peer leaves the same rows.  (A frame that is withheld can only follow the
frame of a row if both have one digest and are not the same.) -/
theorem divergence_recorded (redactions : List ProfileRedaction) (es : List MeshEvent) :
    (∀ k l : StreamKey, k ≠ l → ∀ id r r', (after redactions es).materialized k id = some r →
      (after redactions es).materialized l id = some r' → r.contentSha256 ≠ r'.contentSha256 →
      Named (after redactions es).conflicts id k r.contentSha256 l r'.contentSha256) ∧
    (∀ k id r, (after redactions es).materialized k id = some r →
      ∃ f, ⟨k, f⟩ ∈ (after redactions es).log ∧ f.envelope.contentId = id ∧ r = rowOf f ∧
        ∀ g, ⟨k, g⟩ ∈ (after redactions es).log → g.envelope.contentId = id →
        g.eventSeq ≤ f.eventSeq ∨
          (g.payload ≠ f.payload ∧ Sha256.digest g.payload = Sha256.digest f.payload)) ∧
    (∀ c ∈ (after redactions es).log, storesContent redactions c.frame = true →
      ((after redactions es).materialized c.key c.frame.envelope.contentId).isSome = true) ∧
    ∀ es', (∀ peer, es'.filter (fun e => peerOf e = peer) = es.filter fun e => peerOf e = peer) →
      ∀ k id, (after redactions es').materialized k id =
        (after redactions es).materialized k id := by
  have hs := sound_after redactions es
  have hredactions := redactions_after redactions es
  refine ⟨hs.named, ?_, ?_, ?_⟩
  · intro k id r hr
    rw [hs.latest, hredactions, latestRow, Option.map_eq_some_iff] at hr
    obtain ⟨f, hlast, rfl⟩ := hr
    have hmem := List.mem_filter.mp (List.mem_of_getLast? hlast)
    simp only [Bool.and_eq_true, beq_iff_eq] at hmem
    obtain ⟨hlog, hkept, hid⟩ := hmem
    refine ⟨f, mem_framesOf.mp hlog, hid, rfl, ?_⟩
    intro g hg hgid
    by_cases hwithheld : storesContent redactions g = true
    · -- the last of an increasing list is its greatest
      have hmem : g ∈ ((after redactions es).framesOf k).filter fun frame =>
          storesContent redactions frame && frame.envelope.contentId == id :=
        List.mem_filter.mpr ⟨mem_framesOf.mpr hg, by simp [hwithheld, hgid]⟩
      have hincreasing := (hs.increasing k).filter fun frame =>
        storesContent redactions frame && frame.envelope.contentId == id
      obtain ⟨before, hbefore⟩ := List.getLast?_eq_some_iff.mp hlast
      rw [hbefore] at hmem hincreasing
      rcases List.mem_append.mp hmem with hmem | hmem
      · exact .inl ((List.pairwise_append.mp hincreasing).2.2 g hmem f
          (List.mem_singleton_self f)).le
      · rw [List.mem_singleton.mp hmem]
        exact .inl le_rfl
    · rw [Bool.not_eq_true] at hwithheld
      exact .inr (collision_of_withheld (hs.checked ⟨k, f⟩ (mem_framesOf.mp hlog))
        (hs.checked ⟨k, g⟩ hg) hkept hwithheld (hgid.trans hid.symm))
  · intro c hc hkept
    rw [hs.latest, hredactions, latestRow, Option.isSome_map, List.getLast?_isSome]
    refine List.ne_nil_of_mem (List.mem_filter.mpr ⟨mem_framesOf.mpr hc, ?_⟩)
    simp [hkept]
  · intro es' hes' k id
    have hview : (after redactions es').view k.1 = (after redactions es).view k.1 := by
      rw [after, after, run_view k.1 es' rfl, run_view k.1 es rfl, hes']
    obtain ⟨-, -, hstreams⟩ := view_eq_iff.mp hview
    rw [materialized, hstreams, materialized]

end Spec

end MeshStore

end Neoth.MeshSync
