import Neoth.Wal.Clock

/-!
# What the hybrid clock issues

`wal/hlc.rs` as it works, on a clock in place: a refused call may have written a part of it.  A
`Node` is the clock with the values that its steps have returned.

* `lt_of_hlcTickLocal`, `lt_of_hlcTickReceive`: a granted step returns a later value;
* `tickReceive_eq`, `fst_mergeAfterReceive`: the steps as `Wal.Clock` takes them;
* `clock_advances_iff`: the runs in which the clock only ever moves on.
-/

open Lib.Encoding Lib.Machine Neoth.MeshSync

namespace Neoth.Wal

/-! ## The order of stamps -/

/-- Physical time first, then the count. -/
instance Hlc.instLT : LT Hlc :=
  ⟨fun a b => a.physicalNs < b.physicalNs ∨ a.physicalNs = b.physicalNs ∧ a.logical < b.logical⟩

theorem Hlc.lt_iff {a b : Hlc} :
    a < b ↔ a.physicalNs < b.physicalNs ∨ a.physicalNs = b.physicalNs ∧ a.logical < b.logical :=
  Iff.rfl

instance Hlc.decidableLT (a b : Hlc) : Decidable (a < b) := inferInstanceAs (Decidable (_ ∨ _))

theorem Hlc.lt_trans {a b c : Hlc} (h : a < b) (h' : b < c) : a < c := by
  rw [Hlc.lt_iff] at *
  rcases h with h | ⟨h, hl⟩ <;> rcases h' with h' | ⟨h', hl'⟩
  · exact .inl (h.trans h')
  · exact .inl (h' ▸ h)
  · exact .inl (h ▸ h')
  · exact .inr ⟨h.trans h', UInt32.lt_trans hl hl'⟩

/-! ## Ticks in place -/

/-- `checked_add(1)` on `base`, assigned to the count of the clock. -/
def Hlc.count (current : Hlc) (base : UInt32) (peerNodeId : Option (Vector UInt8 16)) :
    Hlc × Except HlcError Unit :=
  match nextLogical base peerNodeId with
  | .ok logical => ({ current with logical }, .ok ())
  | .error e => (current, .error e)

def hlcTickLocal (current : Hlc) (nowNs : UInt64) : Hlc × Except HlcError Unit :=
  if current.physicalNs < nowNs then (⟨nowNs, 0⟩, .ok ()) else current.count current.logical none

def hlcTickReceive (current : Hlc) (nowNs : UInt64) (peer : Hlc) (peerNodeId : Vector UInt8 16) :
    Hlc × Except HlcError Unit :=
  let maxPhys := max (max current.physicalNs peer.physicalNs) nowNs
  if maxPhys = current.physicalNs ∧ maxPhys = peer.physicalNs then
    current.count (max current.logical peer.logical) (some peerNodeId)
  else if maxPhys = current.physicalNs then current.count current.logical (some peerNodeId)
  else if maxPhys = peer.physicalNs then
    -- the physical half is assigned before the count is known to fit
    ({ current with physicalNs := peer.physicalNs } : Hlc).count peer.logical (some peerNodeId)
  else (⟨maxPhys, 0⟩, .ok ())

/-- `merge_global_hlc_after_authenticated_receive`, which ticks a copy, so that it leaves the clock
that `mergeGlobalHlc` says (`fst_mergeAfterReceive`). -/
def mergeAfterReceive (current : Hlc) (nowNs : UInt64) (peer : Hlc) (peerNodeId : Vector UInt8 16) :
    Hlc × Except HlcError Unit :=
  match hlcTickReceive current nowNs peer peerNodeId with
  | (candidate, .ok ()) => (candidate, .ok ())
  | (_, .error e) => (current, .error e)

theorem tickReceive_eq (current : Hlc) (nowNs : UInt64) (peer : Hlc)
    (peerNodeId : Vector UInt8 16) : current.tickReceive nowNs peer peerNodeId =
      (hlcTickReceive current nowNs peer peerNodeId).2.map
        fun _ => (hlcTickReceive current nowNs peer peerNodeId).1 := by
  have hcount : ∀ (clock : Hlc) (base : UInt32),
      ((clock.count base (some peerNodeId)).2.map fun _ =>
      (clock.count base (some peerNodeId)).1) =
      (nextLogical base (some peerNodeId)).map fun logical => ⟨clock.physicalNs, logical⟩ := by
    intro clock base
    unfold Hlc.count
    cases nextLogical base (some peerNodeId) <;> rfl
  unfold Hlc.tickReceive hlcTickReceive
  dsimp only
  split_ifs
  · rw [hcount]
  · rw [hcount]
  · rw [hcount]
  · rfl

theorem fst_mergeAfterReceive (current : Hlc) (nowNs : UInt64) (peer : Hlc)
    (peerNodeId : Vector UInt8 16) :
    (mergeAfterReceive current nowNs peer peerNodeId).1 =
      mergeGlobalHlc current nowNs peer peerNodeId := by
  unfold mergeAfterReceive mergeGlobalHlc
  rw [tickReceive_eq]
  rcases hlcTickReceive current nowNs peer peerNodeId with ⟨clock, e | u⟩ <;> rfl

theorem count_eq_ok {current next : Hlc} {base : UInt32} {node : Option (Vector UInt8 16)}
    (h : current.count base node = (next, .ok ())) : next.physicalNs = current.physicalNs ∧
    base < next.logical := by
  unfold Hlc.count nextLogical at h
  split_ifs at h with hmax
  · cases h
  · cases h
    have hne : base.toNat ≠ 2 ^ 32 - 1 := fun heq => hmax (UInt32.toNat_inj.mp heq)
    have hlt := base.toNat_lt
    refine ⟨rfl, ?_⟩
    show base < base + 1
    rw [UInt32.lt_iff_toNat_lt, UInt32.toNat_add, UInt32.toNat_one]
    omega

theorem count_eq_error {current next : Hlc} {base : UInt32} {node : Option (Vector UInt8 16)}
    {e : HlcError}
    (h : current.count base node = (next, .error e)) : next = current ∧ base = u32Max := by
  unfold Hlc.count nextLogical at h
  split_ifs at h with hmax
  · cases h
    exact ⟨rfl, hmax⟩
  · cases h

theorem lt_of_hlcTickLocal {current next : Hlc} {nowNs : UInt64}
    (h : hlcTickLocal current nowNs = (next, .ok ())) : current < next := by
  unfold hlcTickLocal at h
  split_ifs at h with hlt
  · cases h
    exact .inl hlt
  · obtain ⟨hphysical, hlogical⟩ := count_eq_ok h
    exact .inr ⟨hphysical.symm, hlogical⟩

theorem eq_of_hlcTickLocal {current next : Hlc} {nowNs : UInt64} {e : HlcError}
    (h : hlcTickLocal current nowNs = (next, .error e)) : next = current := by
  unfold hlcTickLocal at h
  split_ifs at h
  · cases h
  · exact (count_eq_error h).1

theorem lt_of_max_lt {a b n : UInt32} (h : max a b < n) : a < n ∧ b < n := by
  have hmax : max a b = if a ≤ b then b else a := rfl
  rw [hmax] at h
  split_ifs at h with hle
  · exact ⟨UInt32.lt_of_le_of_lt hle h, h⟩
  · exact ⟨h, UInt32.lt_trans (UInt32.not_le.mp hle) h⟩

theorem lt_of_hlcTickReceive {current next peer : Hlc} {nowNs : UInt64} {node : Vector UInt8 16}
    (h : hlcTickReceive current nowNs peer node = (next, .ok ())) :
      current < next ∧ peer < next := by
  have hcurrent : current.physicalNs ≤ max (max current.physicalNs peer.physicalNs) nowNs :=
    (le_max_left _ _).trans (le_max_left _ _)
  have hpeer : peer.physicalNs ≤ max (max current.physicalNs peer.physicalNs) nowNs :=
    (le_max_right _ _).trans (le_max_left _ _)
  unfold hlcTickReceive at h
  dsimp only at h
  split_ifs at h with hboth hown hother
  · obtain ⟨hphysical, hlogical⟩ := count_eq_ok h
    obtain ⟨hl, hl'⟩ := lt_of_max_lt hlogical
    exact ⟨.inr ⟨hphysical.symm, hl⟩,
      .inr ⟨(hphysical.trans (hboth.1.symm.trans hboth.2)).symm, hl'⟩⟩
  · obtain ⟨hphysical, hlogical⟩ := count_eq_ok h
    refine ⟨.inr ⟨hphysical.symm, hlogical⟩, .inl ?_⟩
    rw [hphysical]
    rw [hown] at hpeer hboth
    exact lt_of_le_of_ne hpeer fun heq => hboth ⟨rfl, heq.symm⟩
  · obtain ⟨hphysical, hlogical⟩ := count_eq_ok h
    refine ⟨.inl ?_, .inr ⟨hphysical.symm, hlogical⟩⟩
    rw [hphysical]
    rw [hother] at hcurrent hown
    exact lt_of_le_of_ne hcurrent fun heq => hown heq.symm
  · cases h
    exact ⟨.inl (lt_of_le_of_ne hcurrent fun heq => hown heq.symm),
      .inl (lt_of_le_of_ne hpeer fun heq => hother heq.symm)⟩

/-- The peer alone is ahead, and its count is at the end. -/
def PeerAtEnd (current : Hlc) (nowNs : UInt64) (peer : Hlc) : Prop :=
  current.physicalNs < peer.physicalNs ∧ nowNs ≤ peer.physicalNs ∧ peer.logical = u32Max

instance (current : Hlc) (nowNs : UInt64) (peer : Hlc) : Decidable (PeerAtEnd current nowNs peer) :=
  inferInstanceAs (Decidable (_ ∧ _))

/-- A refused call has left the clock alone, except where the peer is ahead. -/
theorem eq_of_hlcTickReceive_iff {current next peer : Hlc} {nowNs : UInt64} {node : Vector UInt8 16}
    {e : HlcError} (h : hlcTickReceive current nowNs peer node = (next, .error e)) :
    next = current ↔ ¬ PeerAtEnd current nowNs peer := by
  have hcurrent : current.physicalNs ≤ max (max current.physicalNs peer.physicalNs) nowNs :=
    (le_max_left _ _).trans (le_max_left _ _)
  have hnow : nowNs ≤ max (max current.physicalNs peer.physicalNs) nowNs := le_max_right _ _
  have hpeer : peer.physicalNs ≤ max (max current.physicalNs peer.physicalNs) nowNs :=
    (le_max_right _ _).trans (le_max_left _ _)
  unfold hlcTickReceive at h
  dsimp only at h
  split_ifs at h with hboth hown hother
  · refine iff_of_true (count_eq_error h).1 fun hend => ?_
    exact hend.1.ne (hboth.1.symm.trans hboth.2)
  · refine iff_of_true (count_eq_error h).1 fun hend => ?_
    rw [hown] at hpeer
    exact hend.1.not_ge hpeer
  · obtain ⟨rfl, hmax⟩ := count_eq_error h
    have hlt : current.physicalNs < peer.physicalNs := by
      rw [hother] at hcurrent hown
      exact lt_of_le_of_ne hcurrent fun heq => hown heq.symm
    refine iff_of_false (fun heq => ?_) (not_not_intro ⟨hlt, hother ▸ hnow, hmax⟩)
    exact hlt.ne' (congrArg (·.physicalNs) heq)
  · cases h

theorem not_peerAtEnd_of_ok {current next peer : Hlc} {nowNs : UInt64} {node : Vector UInt8 16}
    (h : hlcTickReceive current nowNs peer node = (next, .ok ())) : ¬ PeerAtEnd current nowNs
      peer := by
  rintro ⟨hlt, hnow, hmax⟩
  have hpeer : max (max current.physicalNs peer.physicalNs) nowNs = peer.physicalNs := by
    rw [max_eq_right hlt.le, max_eq_left hnow]
  unfold hlcTickReceive at h
  dsimp only at h
  rw [hpeer, if_neg fun heq => hlt.ne' heq.1, if_neg hlt.ne', if_pos rfl, Hlc.count, nextLogical,
    if_pos hmax] at h
  cases h

theorem tickGlobalHlc_of_error {current : Hlc} {nowNs : UInt64} {e : HlcError}
    (h : current.tickLocal nowNs = .error e) : current.logical = u32Max ∧
      tickGlobalHlc current nowNs = ⟨max (saturatingSucc nowNs) (saturatingSucc current.physicalNs),
        0⟩ := by
  refine ⟨?_, by rw [tickGlobalHlc, h]⟩
  unfold Hlc.tickLocal nextLogical at h
  split_ifs at h with hlt hmax
  · exact hmax
  · cases h

theorem not_end_lt (next : Hlc) : ¬ (⟨u64Max, u32Max⟩ : Hlc) < next := by
  rw [Hlc.lt_iff]
  rintro (h | ⟨-, h⟩)
  · have hlt := next.physicalNs.toNat_lt
    have hgt : 2 ^ 64 - 1 < next.physicalNs.toNat := h
    omega
  · have hlt := next.logical.toNat_lt
    have hgt : 2 ^ 32 - 1 < next.logical.toNat := h
    omega

/-- An overflow moves the physical half on, unless that is at its end as well. -/
theorem lt_tickGlobalHlc_iff (current : Hlc) (nowNs : UInt64) :
    current < tickGlobalHlc current nowNs ↔ current ≠ ⟨u64Max, u32Max⟩ := by
  cases h : current.tickLocal nowNs with
  | ok next =>
    have hlocal : hlcTickLocal current nowNs = (next, .ok ()) := by
      unfold Hlc.tickLocal at h
      unfold hlcTickLocal Hlc.count
      split_ifs at h ⊢ with hlt
      · cases h
        rfl
      · cases hnext : nextLogical current.logical none with
        | error e => simp [hnext, Except.map] at h
        | ok logical =>
          rw [hnext] at h
          cases h
          rfl
    have htick : tickGlobalHlc current nowNs = next := by rw [tickGlobalHlc, h]
    rw [htick]
    refine iff_of_true (lt_of_hlcTickLocal hlocal) ?_
    rintro rfl
    exact not_end_lt _ (lt_of_hlcTickLocal hlocal)
  | error e =>
    obtain ⟨hlogical, htick⟩ := tickGlobalHlc_of_error h
    rw [htick]
    constructor
    · rintro hlt rfl
      exact not_end_lt _ hlt
    · intro hne
      refine .inl (lt_of_lt_of_le (lt_saturatingSucc ?_) (le_max_right _ _))
      intro hphysical
      apply hne
      rw [← hphysical, ← hlogical]

/-! ## Runs of a node -/

/-- The clock, and the values that its steps have returned. -/
structure Node where
  clock : Hlc
  issued : List Hlc

def Node.boot : Node := ⟨.epoch, []⟩

inductive NodeEvent
  | tickGlobal (nowNs : UInt64)
  | tickLocal (nowNs : UInt64)
  | receive (nowNs : UInt64) (peer : Hlc) (peerNodeId : Vector UInt8 16)
  | merge (nowNs : UInt64) (peer : Hlc) (peerNodeId : Vector UInt8 16)

def NodeEvent.peer : NodeEvent → Option Hlc
  | .tickGlobal _ | .tickLocal _ => none
  | .receive _ peer _ | .merge _ peer _ => some peer

namespace Node

def call (s : Node) : NodeEvent → Hlc × Except HlcError Unit
  | .tickGlobal nowNs => (tickGlobalHlc s.clock nowNs, .ok ())
  | .tickLocal nowNs => hlcTickLocal s.clock nowNs
  | .receive nowNs peer peerNodeId => hlcTickReceive s.clock nowNs peer peerNodeId
  | .merge nowNs peer peerNodeId => mergeAfterReceive s.clock nowNs peer peerNodeId

def step (s : Node) (e : NodeEvent) : Node × Except HlcError Hlc :=
  match s.call e with
  | (clock, .ok ()) => (⟨clock, s.issued ++ [clock]⟩, .ok clock)
  | (clock, .error err) => (⟨clock, s.issued⟩, .error err)

def after (es : List NodeEvent) : Node := (run step boot es).1

/-- A step that returns a value returns one later than all before it, and than the peer's; one that
is refused leaves the clock as it was. -/
def Advances (s : Node) (e : NodeEvent) : Prop :=
  (∀ value, (s.step e).2 = .ok value → (∀ old ∈ s.issued, old < value) ∧ ∀ peer ∈ e.peer,
    peer < value) ∧
    ∀ err, (s.step e).2 = .error err → (s.step e).1.clock = s.clock

/-- The clock has not come to its end when it must move on by itself, and no call in place meets a
peer that is ahead with its count at the end. -/
def HasRoom (s : Node) : NodeEvent → Prop
  | .tickGlobal _ => s.clock ≠ ⟨u64Max, u32Max⟩
  | .receive nowNs peer _ => ¬ PeerAtEnd s.clock nowNs peer
  | .tickLocal _ | .merge _ _ _ => True

structure Sound (s : Node) : Prop where
  reached : ∀ old ∈ s.issued, old = s.clock ∨ old < s.clock
  held : s.clock = .epoch ∨ s.clock ∈ s.issued

variable {s : Node} {e : NodeEvent} {clock : Hlc}

theorem advances_of_ok (h : s.call e = (clock, .ok ())) :
    s.Advances e ↔ (∀ old ∈ s.issued, old < clock) ∧ ∀ peer ∈ e.peer, peer < clock := by
  have hstep : s.step e = (⟨clock, s.issued ++ [clock]⟩, .ok clock) := by rw [step, h]
  unfold Advances
  rw [hstep]
  constructor
  · intro hadvances
    exact hadvances.1 clock rfl
  · intro hvalue
    refine ⟨?_, fun err heq => by cases heq⟩
    rintro value ⟨⟩
    exact hvalue

theorem advances_of_error {err : HlcError} (h : s.call e = (clock, .error err)) :
    s.Advances e ↔ clock = s.clock := by
  have hstep : s.step e = (⟨clock, s.issued⟩, .error err) := by rw [step, h]
  unfold Advances
  rw [hstep]
  exact ⟨fun hadvances => hadvances.2 err rfl,
    fun heq => ⟨fun value hvalue => (by cases hvalue), fun _ _ => heq⟩⟩

/-- What is later than the clock is later than everything issued. -/
theorem Sound.lt (hs : Sound s) (h : s.clock < clock) : ∀ old ∈ s.issued, old < clock := by
  intro old hold
  rcases hs.reached old hold with rfl | hlt
  · exact h
  · exact Hlc.lt_trans hlt h

/-- **One step.** -/
theorem advances_iff_hasRoom (hs : Sound s) (e : NodeEvent) : s.Advances e ↔ s.HasRoom e := by
  cases e with
  | tickGlobal nowNs =>
    have hcall : s.call (.tickGlobal nowNs) = (tickGlobalHlc s.clock nowNs, .ok ()) := rfl
    rw [advances_of_ok hcall]
    constructor
    · rintro ⟨hlater, -⟩ hend
      rcases hs.held with hepoch | hissued
      · rw [hepoch] at hend
        exact absurd hend (by decide)
      · exact (lt_tickGlobalHlc_iff _ _).mp (hlater _ hissued) hend
    · intro hroom
      exact ⟨hs.lt ((lt_tickGlobalHlc_iff _ _).mpr hroom), fun peer hpeer => by cases hpeer⟩
  | tickLocal nowNs =>
    refine iff_of_true ?_ trivial
    rcases hcall : hlcTickLocal s.clock nowNs with ⟨clock, err | u⟩
    · exact (advances_of_error (e := .tickLocal nowNs) hcall).mpr (eq_of_hlcTickLocal hcall)
    · exact (advances_of_ok (e := .tickLocal nowNs) hcall).mpr
        ⟨hs.lt (lt_of_hlcTickLocal hcall), fun peer hpeer => (by cases hpeer)⟩
  | receive nowNs peer peerNodeId =>
    rcases hcall : hlcTickReceive s.clock nowNs peer peerNodeId with ⟨clock, err | u⟩
    · rw [advances_of_error (e := .receive nowNs peer peerNodeId) hcall]
      exact eq_of_hlcTickReceive_iff hcall
    · obtain ⟨hclock, hpeer⟩ := lt_of_hlcTickReceive hcall
      rw [advances_of_ok (e := .receive nowNs peer peerNodeId) hcall]
      refine iff_of_true ⟨hs.lt hclock, ?_⟩ (not_peerAtEnd_of_ok hcall)
      rintro _ ⟨⟩
      exact hpeer
  | merge nowNs peer peerNodeId =>
    refine iff_of_true ?_ trivial
    rcases hreceive : hlcTickReceive s.clock nowNs peer peerNodeId with ⟨clock, err | u⟩
    · have hcall : s.call (.merge nowNs peer peerNodeId) = (s.clock, .error err) := by
        rw [call, mergeAfterReceive, hreceive]
      exact (advances_of_error hcall).mpr rfl
    · have hcall : s.call (.merge nowNs peer peerNodeId) = (clock, .ok ()) := by
        rw [call, mergeAfterReceive, hreceive]
      obtain ⟨hclock, hpeer⟩ := lt_of_hlcTickReceive hreceive
      refine (advances_of_ok hcall).mpr ⟨hs.lt hclock, ?_⟩
      rintro _ ⟨⟩
      exact hpeer

theorem sound_step (hs : Sound s) (e : NodeEvent) (h : s.Advances e) : Sound (s.step e).1 := by
  rcases hcall : s.call e with ⟨clock, err | u⟩
  · obtain rfl := (advances_of_error hcall).mp h
    have hstep : (s.step e).1 = s := by rw [step, hcall]
    rwa [hstep]
  · have hlater := ((advances_of_ok hcall).mp h).1
    have hstep : (s.step e).1 = ⟨clock, s.issued ++ [clock]⟩ := by rw [step, hcall]
    rw [hstep]
    refine ⟨?_, .inr (by simp)⟩
    intro old hold
    rcases List.mem_append.mp hold with hold | hnew
    · exact .inr (hlater old hold)
    · exact .inl (List.mem_singleton.mp hnew)

theorem sound_boot : Sound boot := ⟨by simp [boot], .inl rfl⟩

/-- **The clock.** -/
theorem clock_advances_iff (es : List NodeEvent) :
    (∀ before e rest, es = before ++ e :: rest → (after before).Advances e) ↔
      ∀ before e rest, es = before ++ e :: rest → (after before).HasRoom e := by
  have hsound : ∀ {M : Node → NodeEvent → Prop}, (∀ s e, Sound s → M s e → s.Advances e) →
      ∀ before e rest, (∀ a d b, es = a ++ d :: b → M (after a) d) → es = before ++ e :: rest →
        Sound (after before) := by
    rintro M hM before e rest hmeets rfl
    refine run_invariant_of_meets (P := Sound) (M :=
      M) (fun s d hs hm => sound_step hs d (hM s d hs hm)) boot sound_boot before ?_
    rintro a d b rfl
    exact hmeets a d (b ++ e :: rest) (by simp)
  constructor
  · intro h before e rest hsplit
    exact (advances_iff_hasRoom (hsound (fun _ _ _ hm => hm) before e rest h hsplit) e).mp
      (h before e rest hsplit)
  · intro h before e rest hsplit
    exact (advances_iff_hasRoom
      (hsound (fun s d hs => (advances_iff_hasRoom hs d).mpr) before e rest h hsplit) e).mpr
      (h before e rest hsplit)

/-- A peer that is at the end of time, and a tick: the clock goes back, to a value below the one
issued. -/
theorem clock_goes_back :
    let peer : Hlc := ⟨u64Max, 0xfffffffe⟩
    let s := after [.merge 1 peer (.replicate 16 7)]
    s.issued = [⟨u64Max, u32Max⟩] ∧ (s.step (.tickGlobal 2)).2.toOption = some ⟨u64Max, 0⟩ ∧
      ¬ ∀ es : List NodeEvent, ∀ before e rest, es = before ++ e :: rest →
      (after before).Advances e := by
  refine ⟨by decide, by decide, ?_⟩
  intro h
  have hadvances := h [.merge 1 ⟨u64Max, 0xfffffffe⟩ (.replicate 16 7), .tickGlobal 2]
    [.merge 1 ⟨u64Max, 0xfffffffe⟩ (.replicate 16 7)] (.tickGlobal 2) [] rfl
  exact absurd (hadvances.1 ⟨u64Max, 0⟩ rfl).1 (by decide)

end Node

end Neoth.Wal
