import Neoth.Authority.Types
import Neoth.Lib.Machine

/-!
# The registry of live effects

`GenerationEffectRegistry` of `cluster/membership.rs`.  Every effect a peer's grant has
started holds a lease; a revocation closes the gate (`beginRevocation`), which returns a
fence over the leases it captures, commits its intent, and only then publishes the
cancellation to them.  Each function runs under the registry's lock, so an interleaving of
any number of effects and revocations is a list of actions.

* `GenerationEffectState.Later`: the gate only closes, and leases keep their generations;
* `captured_transition_refused_iff`: what a fence guarantees about the effects it captured.
-/

open Lib Lib.Transaction

namespace Neoth.Authority

inductive MembershipEffectKind
  | network
  | queuedProvider
  | externalPermit
  | inflightProvider
  | durableCommit
  deriving DecidableEq

/-- `ExternalPermit | InflightProvider`: the irreversible call may have started. -/
def MembershipEffectKind.isExternal : MembershipEffectKind → Bool
  | .externalPermit | .inflightProvider => true
  | _ => false

structure MembershipGeneration where
  stableNodeId : StableNodeId
  authEpoch : Nat
  membershipEpoch : Nat
  deriving DecidableEq

structure LiveMembershipEffect where
  id : Nat
  generation : MembershipGeneration
  carrier : CarrierKind
  kind : MembershipEffectKind
  /-- The value of the watch channel: the request that cancelled the effect. -/
  cancel : Option String

structure GenerationEffectState where
  nextId : Nat
  minimumMembershipEpoch : Nat
  revokedAuthFloor : Table fun entry : StableNodeId × Nat => entry.1
  revoking : Table fun entry : MembershipGeneration × String => entry.1
  effects : Table LiveMembershipEffect.id

structure GenerationCancellationFence where
  requestId : String
  stableNodeId : StableNodeId
  ids : List Nat
  queuedByCarrier : List (CarrierKind × Nat)
  externalEffectsUnclassified : Bool

/-- `GenerationEffectState::default()`. -/
def GenerationEffectState.empty : GenerationEffectState := ⟨0, 0, ∅, ∅, ∅⟩

/-- A revocation of `revoked` that commits `committedEpoch` captures this generation: it is of
an older authority epoch, or of the revoked identity. -/
def MembershipGeneration.capturedBy (g revoked : MembershipGeneration) (committedEpoch : Nat) :
    Bool :=
  g.membershipEpoch < committedEpoch ||
    (g.stableNodeId == revoked.stableNodeId && g.authEpoch ≤ revoked.authEpoch)

namespace GenerationEffectState

/-- The gate as `register` and `validate` read it; `subject` opens their messages. -/
def checkGate (s : GenerationEffectState) (subject : String) (g : MembershipGeneration) :
    Except String Unit := do
  require (s.minimumMembershipEpoch ≤ g.membershipEpoch)
    (subject ++ " was cancelled by a newer authority epoch")
  require ((s.revokedAuthFloor.find g.stableNodeId).all fun entry => entry.2 < g.authEpoch)
    "membership authentication generation was revoked"
  require (s.revoking.find g).isNone (subject ++ " has a revocation intent")

def register (s : GenerationEffectState) (g : MembershipGeneration) (carrier : CarrierKind)
    (kind : MembershipEffectKind) : Except String (GenerationEffectState × Nat) := do
  s.checkGate "membership generation" g
  require (s.nextId + 1 < 2 ^ 64) "membership effect generation exhausted"
  let id := s.nextId + 1
  .ok ({ s with nextId := id, effects := s.effects.put ⟨id, g, carrier, kind, none⟩ }, id)

/-- Unlike `validate`, this reads the cancellation and the intents only. -/
def transition (s : GenerationEffectState) (id : Nat) (kind : MembershipEffectKind) :
    Except String GenerationEffectState := do
  let effect ← context (s.effects.find id) "membership effect lease is no longer live"
  require effect.cancel.isNone "membership effect generation was cancelled"
  require (s.revoking.find effect.generation).isNone
    "membership effect generation has a revocation intent"
  .ok
    { s with
      effects := s.effects.update (fun e => e.id == id) ({ · with kind := kind }) fun _ => rfl }

def validate (s : GenerationEffectState) (id : Nat) : Except String Unit := do
  let effect ← context (s.effects.find id) "membership effect lease is no longer live"
  require effect.cancel.isNone "membership effect generation was cancelled"
  s.checkGate "membership effect generation" effect.generation

def queuedOn (captured : List LiveMembershipEffect) (stableNodeId : StableNodeId)
    (carrier : CarrierKind) : Option (CarrierKind × Nat) :=
  let queued := captured.countP fun e =>
    e.generation.stableNodeId == stableNodeId && e.kind == .queuedProvider && e.carrier == carrier
  if queued = 0 then none else some (carrier, queued)

def beginRevocation (s : GenerationEffectState) (requestId : String) (g : MembershipGeneration)
    (committedEpoch : Nat) : GenerationEffectState × GenerationCancellationFence :=
  let captured := s.effects.rows.filter fun e => e.generation.capturedBy g committedEpoch
  let floor := ((s.revokedAuthFloor.find g.stableNodeId).map (·.2)).getD 0
  ({ s with
      -- `entry(generation).or_insert_with(..)`
      revoking := if (s.revoking.find g).isSome then s.revoking else s.revoking.put (g, requestId)
      minimumMembershipEpoch := max s.minimumMembershipEpoch committedEpoch
      revokedAuthFloor := s.revokedAuthFloor.put (g.stableNodeId, max floor g.authEpoch) },
    { requestId := requestId
      stableNodeId := g.stableNodeId
      ids := captured.map (·.id)
      queuedByCarrier := [.peeroxide, .iroh].filterMap (queuedOn captured g.stableNodeId)
      externalEffectsUnclassified := captured.any (·.kind.isExternal) })

/-- `GenerationCancellationFence::cancel`. -/
def cancel (s : GenerationEffectState) (fence : GenerationCancellationFence) :
    GenerationEffectState :=
  { s with
    effects := s.effects.update (fun e => fence.ids.contains e.id)
      ({ · with cancel := some fence.requestId }) fun _ => rfl }

def release (s : GenerationEffectState) (id : Nat) : GenerationEffectState :=
  { s with effects := s.effects.delete (·.id == id) }

end GenerationEffectState

/-! ## The rendezvous of effects and revocations -/

/-- The part of `LiveSessionRegistry` that revocations go through. -/
structure LiveRevocations where
  registry : GenerationEffectState
  cancellationFences : Table GenerationCancellationFence.requestId

def LiveRevocations.empty : LiveRevocations := ⟨.empty, ∅⟩

inductive EffectAction
  | register (generation : MembershipGeneration) (carrier : CarrierKind)
    (kind : MembershipEffectKind)
  | validate (id : Nat)
  | transition (id : Nat) (kind : MembershipEffectKind)
  | signalRevocation (requestId : String) (generation : MembershipGeneration) (committedEpoch : Nat)
  | publishRevocationCancellation (requestId : String)
  | waitForRevocation (requestId : String)
  | release (id : Nat)

inductive EffectAnswer
  | registered (lease : Except String Nat)
  | answered (result : Except String Unit)
  | fenced (fence : GenerationCancellationFence)

namespace LiveRevocations

def register (l : LiveRevocations) (g : MembershipGeneration) (carrier : CarrierKind)
    (kind : MembershipEffectKind) : LiveRevocations × EffectAnswer :=
  match l.registry.register g carrier kind with
  | .ok (next, id) => ({ l with registry := next }, .registered (.ok id))
  | .error e => (l, .registered (.error e))

def transition (l : LiveRevocations) (id : Nat) (kind : MembershipEffectKind) :
    LiveRevocations × EffectAnswer :=
  match l.registry.transition id kind with
  | .ok next => ({ l with registry := next }, .answered (.ok ()))
  | .error e => (l, .answered (.error e))

def signalRevocation (l : LiveRevocations) (requestId : String) (g : MembershipGeneration)
    (committedEpoch : Nat) : LiveRevocations × EffectAnswer :=
  let (registry, fence) := l.registry.beginRevocation requestId g committedEpoch
  -- `entry(request_id).or_insert(fence)`: a retry keeps the first fence
  let fences := if (l.cancellationFences.find requestId).isSome then l.cancellationFences
    else l.cancellationFences.put fence
  (⟨registry, fences⟩, .fenced fence)

def publishRevocationCancellation (l : LiveRevocations) (requestId : String) :
    LiveRevocations × EffectAnswer :=
  match l.cancellationFences.find requestId with
  | some fence => ({ l with registry := l.registry.cancel fence }, .answered (.ok ()))
  | none => (l, .answered (.error "membership revocation cancellation fence is missing"))

/-- The fence is dropped once none of its leases is live; a wait that times out changes nothing. -/
def waitForRevocation (l : LiveRevocations) (requestId : String) : LiveRevocations × EffectAnswer :=
  match l.cancellationFences.find requestId with
  | none => (l, .answered (.ok ()))
  | some fence =>
    if l.registry.effects.any fun e => fence.ids.contains e.id then
      (l, .answered
        (.error s!"membership revocation {requestId} was not locally classified within 5 seconds"))
    else
      ({ l with cancellationFences := l.cancellationFences.delete (·.requestId == requestId) },
        .answered (.ok ()))

def step (l : LiveRevocations) : EffectAction → LiveRevocations × EffectAnswer
  | .register g carrier kind => l.register g carrier kind
  | .validate id => (l, .answered (l.registry.validate id))
  | .transition id kind => l.transition id kind
  | .signalRevocation requestId g committedEpoch => l.signalRevocation requestId g committedEpoch
  | .publishRevocationCancellation requestId => l.publishRevocationCancellation requestId
  | .waitForRevocation requestId => l.waitForRevocation requestId
  | .release id => ({ l with registry := l.registry.release id }, .answered (.ok ()))

end LiveRevocations

/-! ## What a step can do -/

namespace GenerationEffectState

variable {s : GenerationEffectState} {g : MembershipGeneration}

theorem checkGate_eq_ok_iff {subject : String} :
    s.checkGate subject g = .ok () ↔
      s.minimumMembershipEpoch ≤ g.membershipEpoch ∧
      (∀ entry ∈ s.revokedAuthFloor, entry.1 = g.stableNodeId → entry.2 < g.authEpoch) ∧
      s.revoking.find g = none := by
  have hfloor :
      ((s.revokedAuthFloor.find g.stableNodeId).all fun entry => entry.2 < g.authEpoch) = true ↔
      ∀ entry ∈ s.revokedAuthFloor, entry.1 = g.stableNodeId → entry.2 < g.authEpoch := by
    simp only [Option.all_eq_true, Table.find_eq_some_iff, decide_eq_true_eq, and_imp]
  simp only [checkGate, bind_eq_ok_iff, require_eq_ok_iff, decide_eq_true_eq, hfloor,
    Option.isNone_iff_eq_none]
  simp

/-- Since `s`, the gate has closed at most further, and every lease is an old one of the same
generation, or was let in by the gate. -/
structure Later (s s' : GenerationEffectState) : Prop where
  minimum_le : s.minimumMembershipEpoch ≤ s'.minimumMembershipEpoch
  floor_le : ∀ entry ∈ s.revokedAuthFloor,
    ∃ entry' ∈ s'.revokedAuthFloor, entry'.1 = entry.1 ∧ entry.2 ≤ entry'.2
  effects : ∀ e' ∈ s'.effects, (∃ e ∈ s.effects, e.id = e'.id ∧ e.generation = e'.generation) ∨
    s.checkGate "membership generation" e'.generation = .ok ()

/-- Leases may go or change their kind or cancellation. -/
theorem Later.of_effects {effects : Table LiveMembershipEffect.id}
    (h : ∀ e' ∈ effects, ∃ e ∈ s.effects, e.id = e'.id ∧ e.generation = e'.generation) :
    Later s { s with effects := effects } :=
  ⟨le_rfl, fun entry hentry => ⟨entry, hentry, rfl, le_rfl⟩, fun e' he' => .inl (h e' he')⟩

theorem Later.refl (s : GenerationEffectState) : Later s s :=
  .of_effects fun e he => ⟨e, he, rfl, rfl⟩

theorem register_later {s s' : GenerationEffectState} {carrier : CarrierKind}
    {kind : MembershipEffectKind}
    {id : Nat} (h : s.register g carrier kind = .ok (s', id)) : Later s s' := by
  simp only [register, bind_eq_ok_iff] at h
  obtain ⟨_, hgate, _, _, h⟩ := h
  cases h
  refine ⟨le_rfl, fun entry hentry => ⟨entry, hentry, rfl, le_rfl⟩, ?_⟩
  intro e he
  rcases Table.mem_put.mp he with rfl | ⟨hold, -⟩
  · exact .inr hgate
  · exact .inl ⟨e, hold, rfl, rfl⟩

theorem update_later {p : LiveMembershipEffect → Bool}
    {f : LiveMembershipEffect → LiveMembershipEffect}
    {hid : ∀ e, (f e).id = e.id} (hgeneration : ∀ e, (f e).generation = e.generation) :
    Later s { s with effects := s.effects.update p f hid } := by
  refine .of_effects fun e' he' => ?_
  obtain ⟨e, he, rfl⟩ := Table.mem_update.mp he'
  refine ⟨e, he, ?_⟩
  split
  · exact ⟨(hid e).symm, (hgeneration e).symm⟩
  · exact ⟨rfl, rfl⟩

theorem beginRevocation_later (s : GenerationEffectState) (requestId : String)
    (g : MembershipGeneration)
    (committedEpoch : Nat) : Later s (s.beginRevocation requestId g committedEpoch).1 := by
  refine ⟨le_max_left _ _, ?_, fun e he => .inl ⟨e, he, rfl, rfl⟩⟩
  intro entry hentry
  by_cases hsame : entry.1 = g.stableNodeId
  · refine ⟨_, Table.mem_put.mpr (.inl rfl), hsame.symm, ?_⟩
    have hfind : s.revokedAuthFloor.find g.stableNodeId = some entry :=
      Table.find_eq_some_iff.mpr ⟨hentry, hsame⟩
    simp [hfind]
  · exact ⟨entry, Table.mem_put.mpr (.inr ⟨hentry, hsame⟩), rfl, le_rfl⟩

end GenerationEffectState

open GenerationEffectState

theorem LiveRevocations.step_later (l : LiveRevocations) (a : EffectAction) :
    Later l.registry (l.step a).1.registry := by
  cases a with
  | register g carrier kind =>
    show Later l.registry (l.register g carrier kind).1.registry
    unfold LiveRevocations.register
    split
    · rename_i h
      exact register_later h
    · exact .refl _
  | validate id => exact .refl _
  | transition id kind =>
    show Later l.registry (l.transition id kind).1.registry
    unfold LiveRevocations.transition
    split
    · rename_i h
      simp only [GenerationEffectState.transition, bind_eq_ok_iff] at h
      obtain ⟨_, _, _, _, _, _, h⟩ := h
      cases h
      exact update_later fun _ => rfl
    · exact .refl _
  | signalRevocation requestId g committedEpoch => exact beginRevocation_later ..
  | publishRevocationCancellation requestId =>
    show Later l.registry (l.publishRevocationCancellation requestId).1.registry
    unfold publishRevocationCancellation
    split
    · exact update_later fun _ => rfl
    · exact .refl _
  | waitForRevocation requestId =>
    show Later l.registry (l.waitForRevocation requestId).1.registry
    unfold waitForRevocation
    split
    · exact .refl _
    · split <;> exact .refl _
  | release id =>
    refine .of_effects fun e he => ?_
    exact ⟨e, (Table.mem_delete.mp he).1, rfl, rfl⟩

/-! ## The fence -/

/-- The gate is closed for what a revocation of `g` at `committedEpoch` captures, and `ids` are
the captured leases. -/
structure GenerationEffectState.Fenced (s : GenerationEffectState) (g : MembershipGeneration)
    (committedEpoch : Nat) (ids : List Nat) : Prop where
  minimum : committedEpoch ≤ s.minimumMembershipEpoch
  floor : ∃ entry ∈ s.revokedAuthFloor, entry.1 = g.stableNodeId ∧ g.authEpoch ≤ entry.2
  captured : ∀ e ∈ s.effects, e.generation.capturedBy g committedEpoch = true → e.id ∈ ids

variable {g : MembershipGeneration} {committedEpoch : Nat}

theorem capturedBy_iff {g revoked : MembershipGeneration} :
    g.capturedBy revoked committedEpoch = true ↔
      g.membershipEpoch < committedEpoch ∨
        (g.stableNodeId = revoked.stableNodeId ∧ g.authEpoch ≤ revoked.authEpoch) := by
  simp [MembershipGeneration.capturedBy]

variable {s : GenerationEffectState}

/-- The gate lets nothing through that the fence captures. -/
theorem GenerationEffectState.Fenced.gate_closed {ids : List Nat}
    (h : s.Fenced g committedEpoch ids) (subject : String) {generation : MembershipGeneration}
    (hcaptured : generation.capturedBy g committedEpoch = true) :
    s.checkGate subject generation ≠ .ok () := by
  intro hok
  obtain ⟨hminimum, hfloor, -⟩ := checkGate_eq_ok_iff.mp hok
  obtain ⟨entry, hentry, hsame, hle⟩ := h.floor
  have hminimum' := h.minimum
  rcases capturedBy_iff.mp hcaptured with hstale | ⟨hid, hauth⟩
  · omega
  · have hlt := hfloor entry hentry (hsame.trans hid.symm)
    omega

theorem GenerationEffectState.Fenced.later {s s' : GenerationEffectState} {ids : List Nat}
    (h : s.Fenced g committedEpoch ids) (hlater : Later s s') : s'.Fenced g committedEpoch ids := by
  obtain ⟨entry, hentry, hsame, hle⟩ := h.floor
  obtain ⟨entry', hentry', hsame', hle'⟩ := hlater.floor_le entry hentry
  refine ⟨h.minimum.trans hlater.minimum_le, ⟨entry', hentry', hsame'.trans hsame, hle.trans hle'⟩,
    ?_⟩
  intro e' he' hcaptured
  rcases hlater.effects e' he' with ⟨e, he, hid, hgeneration⟩ | hgate
  · rw [← hid]
    exact h.captured e he (hgeneration ▸ hcaptured)
  · exact absurd hgate (h.gate_closed _ hcaptured)

theorem beginRevocation_fenced (s : GenerationEffectState) (requestId : String)
    (g : MembershipGeneration) (committedEpoch : Nat) :
    (s.beginRevocation requestId g committedEpoch).1.Fenced g committedEpoch
      (s.beginRevocation requestId g committedEpoch).2.ids := by
  refine ⟨le_max_right _ _, ⟨_, Table.mem_put.mpr (.inl rfl), rfl, le_max_right _ _⟩, ?_⟩
  intro e he hcaptured
  exact List.mem_map_of_mem (List.mem_filter.mpr ⟨he, hcaptured⟩)

/-- A live lease is refused a transition exactly when it is cancelled, or a revocation has named
its very generation. -/
theorem transition_refused_iff {e : LiveMembershipEffect} (he : e ∈ s.effects)
    (kind : MembershipEffectKind) : (∃ err, s.transition e.id kind = .error err) ↔
      e.cancel.isSome ∨ (s.revoking.find e.generation).isSome := by
  have hfind : s.effects.find e.id = some e := Table.find_eq_some_iff.mpr ⟨he, rfl⟩
  unfold GenerationEffectState.transition
  rw [hfind]
  cases hcancel : e.cancel with
  | some requestId => simp [context, require, bind, Except.bind, hcancel]
  | none =>
    cases hrevoking : s.revoking.find e.generation with
    | some entry => simp [context, require, bind, Except.bind, hcancel, hrevoking]
    | none => simp [context, require, bind, Except.bind, hcancel, hrevoking]

/-- **Effect registry linearization.** From the fence of any revocation in any interleaving on:
no lease of a captured generation is given out any more, and those that live are the fence's.
Of these, one is refused an irreversible call exactly when the cancellation has been published to
it, or its very generation is one that a revocation named; and the fence says that there were such
calls exactly when one of the captured effects had started one. -/
theorem captured_transition_refused_iff (before after : List EffectAction) (requestId : String)
    (g : MembershipGeneration) (committedEpoch : Nat) :
    let l := (Lib.Machine.run LiveRevocations.step .empty before).1
    let fence := (l.registry.beginRevocation requestId g committedEpoch).2
    let s := (Lib.Machine.run LiveRevocations.step .empty
      (before ++ .signalRevocation requestId g committedEpoch :: after)).1.registry
    (l.step (.signalRevocation requestId g committedEpoch)).2 = .fenced fence ∧
    (fence.externalEffectsUnclassified = true ↔
      ∃ e ∈ l.registry.effects, e.generation.capturedBy g committedEpoch = true ∧
        e.kind.isExternal = true) ∧
    (∀ generation carrier kind, generation.capturedBy g committedEpoch = true →
      ∃ err, s.register generation carrier kind = .error err) ∧
    (∀ e ∈ s.effects, e.generation.capturedBy g committedEpoch = true →
      e.id ∈ fence.ids ∧
      ∀ kind, kind.isExternal = true →
        ((∃ err, s.transition e.id kind = .error err) ↔
          e.cancel.isSome ∨ (s.revoking.find e.generation).isSome)) := by
  intro l fence s
  have hfenced : s.Fenced g committedEpoch fence.ids := by
    have hstart : (l.step (.signalRevocation requestId g committedEpoch)).1.registry.Fenced g
        committedEpoch fence.ids := beginRevocation_fenced l.registry requestId g committedEpoch
    have hkeep : ∀ (l : LiveRevocations) a, l.registry.Fenced g committedEpoch fence.ids →
        (l.step a).1.registry.Fenced g committedEpoch fence.ids :=
      fun l a h => h.later (l.step_later a)
    have hrun := Lib.Machine.run_invariant
      (P := fun l : LiveRevocations => l.registry.Fenced g committedEpoch fence.ids) hkeep _
        hstart after
    simp only [s, Lib.Machine.run_append, Lib.Machine.run_cons]
    exact hrun
  refine ⟨rfl, ?_, ?_, ?_⟩
  · simp only [fence, beginRevocation, List.any_eq_true, List.mem_filter, Table.mem_rows]
    simp only [and_assoc]
  · intro generation carrier kind hcaptured
    cases hregister : s.register generation carrier kind with
    | error err => exact ⟨err, rfl⟩
    | ok r =>
      simp only [GenerationEffectState.register, bind_eq_ok_iff] at hregister
      obtain ⟨_, hgate, -⟩ := hregister
      exact absurd hgate (hfenced.gate_closed _ hcaptured)
  · intro e he hcaptured
    exact ⟨hfenced.captured e he hcaptured, fun kind _ => transition_refused_iff he kind⟩

/-! ## A survivor between the fence and its cancellation -/

def sampleRevokedGeneration : MembershipGeneration :=
  ⟨"8a88e3dd7409f195fd52db2d3cba5d72ca6709bf1d94121bf3748801b40f6f5c", 1, 3⟩

def sampleSurvivor : MembershipGeneration :=
  ⟨"8139770ea87d175f56a35466c34c7ecccb8d8a91b4ee37a25df60f5b8fc9b394", 1, 3⟩

/-- A queued provider call of another node passes the validation of `begin_external`; then the
gate is closed; then the transition takes the lock. -/
def sampleInterleaving : List EffectAction :=
  [.register sampleSurvivor .peeroxide .queuedProvider, .validate 1]

def sampleRequestId : String := "01902d3e-7c1a-7b00-8a3f-2c1d4e5f6a7b"

theorem survivor_enters_after_fence :
    ¬ ∀ (before after : List EffectAction) (requestId : String) (g : MembershipGeneration)
      (committedEpoch : Nat),
      let l := (Lib.Machine.run LiveRevocations.step .empty before).1
      let fence := (l.registry.beginRevocation requestId g committedEpoch).2
      let s := (Lib.Machine.run LiveRevocations.step .empty
        (before ++ .signalRevocation requestId g committedEpoch :: after)).1.registry
      ∀ id ∈ fence.ids, ∀ kind, kind.isExternal = true → ∃ err,
        s.transition id kind = .error err := by
  intro h
  obtain ⟨err, herr⟩ := h sampleInterleaving [] sampleRequestId sampleRevokedGeneration 4 1
    (by decide +kernel) .externalPermit rfl
  have hok : ((Lib.Machine.run LiveRevocations.step .empty (sampleInterleaving ++
      [.signalRevocation sampleRequestId sampleRevokedGeneration 4])).1.registry.transition 1
      .externalPermit).toOption.isSome = true := by decide +kernel
  rw [herr] at hok
  cases hok

end Neoth.Authority
