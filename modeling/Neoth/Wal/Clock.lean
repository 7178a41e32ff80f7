import Neoth.Lib.Encoding
import Neoth.Lib.Machine
import Neoth.MeshSync.WalFrame

/-!
# The clock behind the event ids

The hybrid logical clock of `wal/hlc.rs`, and the header builder of `wal/builder.rs`, which stamps
every event with it.  The process has one clock; `ClockState` holds it together with the events that
were built.

* `Hlc.tickLocal`, `Hlc.tickReceive`, `tickGlobalHlc`: the ticks;
* `HeaderBuilder.build`: the header of one event, whose id is the physical half of the clock;
* `ClockState.step`: building and merging, in any order and with any readings of the wall clock;
* `event_ids_nodup_iff`: when the ids of a run are distinct.
-/

open Lib.Encoding Lib.Machine Neoth.MeshSync

namespace Neoth.Wal

/-! ## The clock -/

/-- The order of `u64`, for the order lemmas. -/
instance linearOrderUInt64 : LinearOrder UInt64 where
  le_refl := UInt64.le_refl
  le_trans _ _ _ := UInt64.le_trans
  le_antisymm _ _ := UInt64.le_antisymm
  le_total := UInt64.le_total
  lt_iff_le_not_ge _ _ := by
    rw [UInt64.not_le]
    exact ⟨fun h => ⟨UInt64.le_of_lt h, h⟩, fun h => h.2⟩
  toDecidableLE := inferInstance
  max_def _ _ := rfl
  min_def _ _ := rfl

structure Hlc where
  physicalNs : UInt64
  logical : UInt32
  deriving DecidableEq

/-- `Hlc::EPOCH`, where the process starts. -/
def Hlc.epoch : Hlc := ⟨0, 0⟩

structure HlcError where
  peerNodeId : Option (Vector UInt8 16)

def u32Max : UInt32 := 0xffffffff
def u64Max : UInt64 := 0xffffffffffffffff

/-- `u32::checked_add(1)` on the logical counter. -/
def nextLogical (logical : UInt32) (peerNodeId : Option (Vector UInt8 16)) :
    Except HlcError UInt32 :=
  if logical = u32Max then .error ⟨peerNodeId⟩ else .ok (logical + 1)

def Hlc.tickLocal (current : Hlc) (nowNs : UInt64) : Except HlcError Hlc :=
  if current.physicalNs < nowNs then .ok ⟨nowNs, 0⟩
  else (nextLogical current.logical none).map fun logical => ⟨current.physicalNs, logical⟩

def Hlc.tickReceive (current : Hlc) (nowNs : UInt64) (peer : Hlc) (peerNodeId : Vector UInt8 16) :
    Except HlcError Hlc :=
  let maxPhys := max (max current.physicalNs peer.physicalNs) nowNs
  if maxPhys = current.physicalNs ∧ maxPhys = peer.physicalNs then
    (nextLogical (max current.logical peer.logical) (some peerNodeId)).map fun logical =>
      ⟨current.physicalNs, logical⟩
  else if maxPhys = current.physicalNs then
    (nextLogical current.logical (some peerNodeId)).map fun logical => ⟨current.physicalNs, logical⟩
  else if maxPhys = peer.physicalNs then
    (nextLogical peer.logical (some peerNodeId)).map fun logical => ⟨peer.physicalNs, logical⟩
  else .ok ⟨maxPhys, 0⟩

/-- `tick_global_hlc`: an overflow of the logical counter moves the physical half on. -/
def tickGlobalHlc (current : Hlc) (nowNs : UInt64) : Hlc :=
  match current.tickLocal nowNs with
  | .ok next => next
  | .error _ => ⟨max (saturatingSucc nowNs) (saturatingSucc current.physicalNs), 0⟩

/-- `merge_global_hlc_after_authenticated_receive`: an overflow leaves the clock as it was. -/
def mergeGlobalHlc (current : Hlc) (nowNs : UInt64) (peer : Hlc) (peerNodeId : Vector UInt8 16) :
    Hlc :=
  match current.tickReceive nowNs peer peerNodeId with
  | .ok next => next
  | .error _ => current

theorem lt_saturatingSucc {n : UInt64} (h : n ≠ u64Max) : n < saturatingSucc n := by
  have hne : n.toNat ≠ 2 ^ 64 - 1 := fun heq => h (UInt64.toNat_inj.mp heq)
  have hlt := n.toNat_lt
  rw [UInt64.lt_iff_toNat_lt, saturatingSucc_toNat]
  omega

/-- What a tick makes of the physical half. -/
theorem physicalNs_tickGlobalHlc (current : Hlc) (nowNs : UInt64) :
    (tickGlobalHlc current nowNs).physicalNs =
      if current.physicalNs < nowNs then nowNs
      else if current.logical = u32Max then
        max (saturatingSucc nowNs) (saturatingSucc current.physicalNs)
      else current.physicalNs := by
  unfold tickGlobalHlc Hlc.tickLocal nextLogical
  split_ifs <;> rfl

theorem le_physicalNs_tickGlobalHlc (current : Hlc) (nowNs : UInt64) :
    current.physicalNs ≤ (tickGlobalHlc current nowNs).physicalNs := by
  rw [physicalNs_tickGlobalHlc]
  split_ifs with h h'
  · exact h.le
  · exact (le_saturatingSucc _).trans (le_max_right _ _)
  · exact le_rfl

theorem le_physicalNs_mergeGlobalHlc (current : Hlc) (nowNs : UInt64) (peer : Hlc)
    (peerNodeId : Vector UInt8 16) :
    current.physicalNs ≤ (mergeGlobalHlc current nowNs peer peerNodeId).physicalNs := by
  have hmax : current.physicalNs ≤ max (max current.physicalNs peer.physicalNs) nowNs :=
    (le_max_left _ _).trans (le_max_left _ _)
  unfold mergeGlobalHlc Hlc.tickReceive nextLogical
  dsimp only
  split_ifs with h₁ h₂ h₃ h₄ h₅ h₆ <;> try exact le_rfl
  · rw [h₅] at hmax
    exact hmax
  · exact hmax

/-! ## Headers -/

/-- `xxh3_64`. -/
class Xxh3 where
  hash : List UInt8 → UInt64

structure EventHeader where
  eventType : UInt8
  eventSubtype : UInt8
  flags : UInt8
  flags_ok : flags &&& 0xe0 = 0
  totalLen : UInt32
  payloadLen : UInt32
  generation : UInt32
  eventId : UInt64
  hlc : Hlc
  importance : UInt32
  importance_ok : importanceOk importance.toNat = true
  scope : UInt32
  category : UInt32
  sessionId : Vector UInt8 16
  nodeId : Vector UInt8 16
  payloadHash : UInt64

structure HeaderBuilder where
  eventType : UInt8
  eventSubtype : UInt8
  flags : {bits : UInt8 // bits &&& 0xe0 = 0}
  importance : UInt32
  scope : UInt32
  category : UInt32
  sessionId : Vector UInt8 16
  nodeId : Vector UInt8 16
  payload : List UInt8

/-- `HeaderBuilder::new`: the importance is 0.5. -/
def HeaderBuilder.new (eventType : UInt8) (payload : List UInt8) : HeaderBuilder :=
  ⟨eventType, 0, ⟨0, rfl⟩, 0x3f000000, 0, 0, .replicate 16 0, .replicate 16 0, payload⟩

/-- `HeaderBuilder::build`, with the clock that the tick has returned. -/
def HeaderBuilder.build [Xxh3] (b : HeaderBuilder) (hlc : Hlc) : EventHeader where
  eventType := b.eventType
  eventSubtype := b.eventSubtype
  flags := b.flags
  flags_ok := b.flags.2
  totalLen := .ofNat (preambleLen + headerBodyLen + b.payload.length + crcLen)
  payloadLen := .ofNat b.payload.length
  generation := 0
  eventId := hlc.physicalNs
  hlc := hlc
  importance := if importanceOk b.importance.toNat then b.importance else 0
  importance_ok := by
    split
    · assumption
    · rfl
  scope := b.scope
  category := b.category
  sessionId := b.sessionId
  nodeId := b.nodeId
  payloadHash := Xxh3.hash b.payload

/-! ## Runs of one process -/

/-- An event as the writer takes it. -/
structure Event where
  header : EventHeader
  payload : List UInt8

structure ClockState where
  hlc : Hlc
  built : List Event

def ClockState.boot : ClockState := ⟨.epoch, []⟩

inductive ClockEvent
  | build (nowNs : UInt64) (builder : HeaderBuilder)
  | merge (nowNs : UInt64) (peer : Hlc) (peerNodeId : Vector UInt8 16)

namespace ClockState

variable [Xxh3]

def step (s : ClockState) : ClockEvent → ClockState × Unit
  | .build nowNs builder =>
    let hlc := tickGlobalHlc s.hlc nowNs
    (⟨hlc, s.built ++ [⟨builder.build hlc, builder.payload⟩]⟩, ())
  | .merge nowNs peer peerNodeId => (⟨mergeGlobalHlc s.hlc nowNs peer peerNodeId, s.built⟩, ())

def after (es : List ClockEvent) : ClockState := (run step boot es).1

theorem after_append_singleton (es : List ClockEvent) (e : ClockEvent) :
    after (es ++ [e]) = ((after es).step e).1 := by
  unfold after
  rw [run_append]
  rfl

omit [Xxh3] in
def ids (s : ClockState) : List UInt64 := s.built.map fun event => event.header.eventId

/-- The clock has reached every id. -/
theorem ids_le (es : List ClockEvent) : ∀ id ∈ (after es).ids, id ≤ (after es).hlc.physicalNs := by
  refine run_invariant (P := fun s => ∀ id ∈ s.ids, id ≤ s.hlc.physicalNs) ?_ boot
    (by simp [ids, boot]) es
  intro s e h id hid
  cases e with
  | build nowNs builder =>
    simp only [step, ids, List.map_append, List.mem_append, List.map_singleton,
      List.mem_singleton] at hid
    rcases hid with hid | rfl
    · exact (h id hid).trans (le_physicalNs_tickGlobalHlc _ _)
    · exact le_rfl
  | merge nowNs peer peerNodeId => exact (h id hid).trans (le_physicalNs_mergeGlobalHlc _ _ _ _)

omit [Xxh3] in
/-- The wall clock is ahead of the process clock, or the process clock moves on by itself, or no
event has got its physical half for an id. -/
def FreshAt (s : ClockState) (nowNs : UInt64) : Prop :=
  s.hlc.physicalNs < nowNs ∨ (s.hlc.logical = u32Max ∧ s.hlc.physicalNs ≠ u64Max) ∨
  s.hlc.physicalNs ∉ s.ids

omit [Xxh3] in
instance (s : ClockState) (nowNs : UInt64) : Decidable (s.FreshAt nowNs) :=
  inferInstanceAs (Decidable (_ ∨ _ ∨ _))

omit [Xxh3] in
/-- One step: the next id is a new one exactly when the clock is fresh. -/
theorem tick_notMem_iff {s : ClockState} (hle : ∀ id ∈ s.ids, id ≤ s.hlc.physicalNs)
    (nowNs : UInt64) : (tickGlobalHlc s.hlc nowNs).physicalNs ∉ s.ids ↔ s.FreshAt nowNs := by
  have hnew : ∀ id, s.hlc.physicalNs < id → id ∉ s.ids := fun id hlt hmem =>
    absurd (hle id hmem) hlt.not_ge
  unfold FreshAt
  rw [physicalNs_tickGlobalHlc]
  by_cases hnow : s.hlc.physicalNs < nowNs
  · simp only [hnow, if_true, true_or, iff_true]
    exact hnew _ hnow
  by_cases hlogical : s.hlc.logical = u32Max
  · by_cases hmax : s.hlc.physicalNs = u64Max
    · -- the clock is at its end and stays there
      have hstay : max (saturatingSucc nowNs) (saturatingSucc s.hlc.physicalNs) =
          s.hlc.physicalNs := by
        have htop : ∀ n : UInt64, n ≤ u64Max := fun n => UInt64.le_iff_toNat_le.mpr (by
          have hlt := n.toNat_lt
          show n.toNat ≤ 2 ^ 64 - 1
          omega)
        refine le_antisymm ?_ ((le_saturatingSucc _).trans (le_max_right _ _))
        rw [hmax]
        exact htop _
      rw [if_neg hnow, if_pos hlogical, hstay]
      refine ⟨fun h => .inr (.inr h), ?_⟩
      rintro (h | ⟨-, h⟩ | h)
      · exact absurd h hnow
      · exact absurd hmax h
      · exact h
    · simp only [if_neg hnow, hlogical, hmax, ne_eq, not_false_eq_true, and_self, true_or, or_true,
        iff_true, if_true]
      exact hnew _ ((lt_saturatingSucc hmax).trans_le (le_max_right _ _))
  · simp [hnow, hlogical]

theorem event_ids_nodup_iff (es : List ClockEvent) :
    (after es).ids.Nodup ↔
      ∀ before nowNs builder rest, es = before ++ .build nowNs builder :: rest →
      (after before).FreshAt nowNs := by
  induction es using List.reverseRecOn with
  | nil =>
    refine iff_of_true (by simp [after, ids, boot]) ?_
    intro before nowNs builder rest h
    simp at h
  | append_singleton es e ih =>
    have hsplit : (∀ before nowNs builder rest, es ++ [e] = before ++ .build nowNs builder :: rest →
          (after before).FreshAt nowNs) ↔
        (∀ before nowNs builder rest, es = before ++ .build nowNs builder :: rest →
          (after before).FreshAt nowNs) ∧
        ∀ nowNs builder, e = .build nowNs builder → (after es).FreshAt nowNs := by
      constructor
      · intro h
        refine ⟨?_, ?_⟩
        · rintro before nowNs builder rest rfl
          exact h before nowNs builder (rest ++ [e]) (by simp)
        · rintro nowNs builder rfl
          exact h es nowNs builder [] rfl
      · rintro ⟨hbefore, hlast⟩ before nowNs builder rest h
        rcases List.eq_nil_or_concat rest with rfl | ⟨rest', last, rfl⟩
        · obtain ⟨rfl, he⟩ := List.append_inj' h rfl
          exact hlast nowNs builder (List.singleton_inj.mp he)
        · rw [List.concat_eq_append, ← List.cons_append, ← List.append_assoc] at h
          exact hbefore before nowNs builder rest' (List.append_inj' h rfl).1
    rw [hsplit, ← ih, after_append_singleton]
    cases e with
    | merge nowNs peer peerNodeId => simp [step, ids]
    | build nowNs builder =>
      have hids : ((after es).step (.build nowNs builder)).1.ids =
          (after es).ids ++ [(tickGlobalHlc (after es).hlc nowNs).physicalNs] := by
        simp [step, ids, HeaderBuilder.build]
      rw [hids, List.nodup_append]
      constructor
      · rintro ⟨hnodup, -, hdisjoint⟩
        refine ⟨hnodup, ?_⟩
        rintro _ _ ⟨⟩
        exact (tick_notMem_iff (ids_le es) nowNs).mp fun hmem =>
          hdisjoint _ hmem _ (List.mem_singleton_self _) rfl
      · rintro ⟨hnodup, hfresh⟩
        refine ⟨hnodup, List.nodup_singleton _, ?_⟩
        rintro id hid _ hmem rfl
        rw [List.mem_singleton] at hmem
        exact (tick_notMem_iff (ids_le es) nowNs).mpr (hfresh _ _ rfl) (hmem ▸ hid)

/-- Every event built in a run whose steps meet a condition comes from a step that met it. -/
theorem built_of_run {P : ClockState → UInt64 → Prop} (es : List ClockEvent)
    (h : ∀ before nowNs builder rest, es = before ++ .build nowNs builder :: rest →
      P (after before) nowNs) :
    ∀ event ∈ (after es).built, ∃ before nowNs, ∃ builder : HeaderBuilder, P (after before) nowNs ∧
      event = ⟨builder.build (tickGlobalHlc (after before).hlc nowNs), builder.payload⟩ := by
  induction es using List.reverseRecOn with
  | nil =>
    intro event hevent
    simp [after, boot] at hevent
  | append_singleton es e ih =>
    have hbefore := ih fun before nowNs builder rest heq =>
      h before nowNs builder (rest ++ [e]) (by simp [heq])
    rw [after_append_singleton]
    cases e with
    | merge nowNs peer peerNodeId => exact hbefore
    | build nowNs builder =>
      intro event hevent
      rcases List.mem_append.mp hevent with hold | hnew
      · exact hbefore event hold
      · exact ⟨es, nowNs, builder, h es nowNs builder [] rfl, List.mem_singleton.mp hnew⟩

end ClockState

end Neoth.Wal
