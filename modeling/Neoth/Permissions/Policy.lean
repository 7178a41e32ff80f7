import Neoth.Permissions.Actions

/-!
# Autonomy policies: overrides, the custom level and the cap of a selected skill

A policy is a level with the operator's overrides per action, read only at the
custom level, and the caps of the operator's skills.  A gate that serves a
selected skill asks both its cap and the global policy; the stricter answer is
the effective decision.

* `evaluateWithCurrentGlobal_rank`: the effective decision stands, in the chain
  Allow < Confirm < Deny, where the stricter of the two stands;
* `evaluateAtSnapshot_ge`: so it is never more permissive than the policy without
  the cap.
-/

open Lib Std
open Lib.Encoding (byteLen)

namespace Neoth.Permissions

inductive AutonomyLevel where
  | strict
  | standard
  | elevated
  | full
  | custom
  deriving DecidableEq

def AutonomyLevel.asStr : AutonomyLevel → String
  | .strict => "strict"
  | .standard => "standard"
  | .elevated => "elevated"
  | .full => "full"
  | .custom => "custom"

inductive CustomDecision where
  | allow
  | confirm
  | deny
  deriving DecidableEq

instance : Ord ActionKind := ⟨compareOn ActionKind.ctorIdx⟩

instance : TransOrd ActionKind := inferInstanceAs (TransCmp (compareOn ActionKind.ctorIdx))

def isSkillIdChar (c : Char) : Bool := c.isLower || c.isDigit || c == '_' || c == '-'

/-- What `SkillId::parse` accepts. -/
def SkillId.Valid (value : String) : Prop :=
  value ≠ "" ∧ byteLen value ≤ 64 ∧ ∀ c ∈ value.toList, isSkillIdChar c = true

structure SkillId where
  value : String
  valid : SkillId.Valid value

instance : Ord SkillId := ⟨compareOn SkillId.value⟩

structure SkillAutonomyOverride where
  level : AutonomyLevel
  overrides : ExtTreeMap ActionKind CustomDecision

structure AutonomyPolicySnapshot where
  level : AutonomyLevel
  overrides : ExtTreeMap ActionKind CustomDecision
  skillOverrides : ExtTreeMap SkillId SkillAutonomyOverride

namespace AutonomyPolicySnapshot

def customOverride (p : AutonomyPolicySnapshot) (kind : ActionKind) : Option CustomDecision :=
  p.overrides[kind]?

end AutonomyPolicySnapshot

/-! ## One policy -/

def customRequestedDecision [FloatText] (action : Action) (configured : Option CustomDecision)
    (standard full : Decision) : Decision :=
  match configured with
  | none => standard
  | some configured =>
    let requested : Decision := match configured with
      | .allow => .allow
      | .confirm => .confirm s!"custom override: {action.kind.asStr} requires confirm"
      | .deny => .deny s!"custom override: {action.kind.asStr} denied"
    if requested.isDeny then requested
    else match full, requested with
      | .deny reason, _ => .deny s!"custom safety floor: {reason}"
      | .confirm reason, .allow => .confirm s!"custom safety floor: {reason}"
      | _, _ =>
        match action with
        | .paidProviderCall _ _ _ _ eurEstimate =>
          if !Binary32.isFinite eurEstimate || Binary32.lt eurEstimate 0 then
            .confirm (s!"custom safety floor: invalid paid-provider EUR estimate " ++
              s!"({FloatText.display eurEstimate}) requires confirm")
          else requested
        | _ => requested

def evaluateSnapshot [FloatText] (action : Action) (policy : AutonomyPolicySnapshot) :
    Option Decision :=
  match policy.level with
  | .strict => evaluateStrict action
  | .standard => evaluateStandard action
  | .elevated => evaluateElevated action
  | .full => evaluateFull action
  | .custom => do
    let standard ← evaluateStandard action
    let full ← evaluateFull action
    some (customRequestedDecision action (policy.customOverride action.kind) standard full)

/-! ## The cap of a selected skill -/

structure EffectiveAutonomyPolicy where
  skillCap : Option AutonomyPolicySnapshot

namespace EffectiveAutonomyPolicy

def hasSkillCap (p : EffectiveAutonomyPolicy) : Bool := p.skillCap.isSome

/-- The stricter of the two decisions, with its reason; the global one where they agree. -/
def stricter (global cap : Decision) : Decision :=
  match global, cap with
  | .deny reason, _ => .deny reason
  | _, .deny reason => .deny reason
  | .confirm reason, _ => .confirm reason
  | _, .confirm reason => .confirm reason
  | .allow, .allow => .allow

def evaluateWithCurrentGlobal [FloatText] (p : EffectiveAutonomyPolicy) (action : Action)
    (currentGlobal : AutonomyPolicySnapshot) : Option Decision := do
  let global ← evaluateSnapshot action currentGlobal
  match p.skillCap with
  | none => some global
  | some skillCap =>
    let cap ← evaluateSnapshot action skillCap
    some (stricter global cap)

theorem rank_stricter (global cap : Decision) :
    (stricter global cap).rank = max global.rank cap.rank := by
  cases global <;> cases cap <;> rfl

theorem evaluateWithCurrentGlobal_rank [FloatText] {p : EffectiveAutonomyPolicy} {action : Action}
    {currentGlobal : AutonomyPolicySnapshot} {d : Decision}
    (h : p.evaluateWithCurrentGlobal action currentGlobal = some d) :
    ∃ global, evaluateSnapshot action currentGlobal = some global ∧
      match p.skillCap with
      | none => d = global
      | some skillCap => ∃ cap, evaluateSnapshot action skillCap = some cap ∧
          d.rank = max global.rank cap.rank := by
  obtain ⟨global, hglobal, h⟩ := Option.bind_eq_some_iff.mp h
  refine ⟨global, hglobal, ?_⟩
  cases hcap : p.skillCap with
  | none =>
    rw [hcap] at h
    exact (Option.some.inj h).symm
  | some skillCap =>
    rw [hcap] at h
    obtain ⟨cap, hevaluated, h⟩ := Option.bind_eq_some_iff.mp h
    obtain rfl := Option.some.inj h
    exact ⟨cap, hevaluated, rank_stricter global cap⟩

end EffectiveAutonomyPolicy

/-- The restriction a selected skill's route carries.  `currentAutonomyReload` says
whether the route was bound to the daemon's reload controller. -/
structure SkillInvocationPolicy where
  skillId : SkillId
  effective : EffectiveAutonomyPolicy
  currentAutonomyReload : Bool

namespace SkillInvocationPolicy

def hasSkillCap (p : SkillInvocationPolicy) : Bool := p.effective.hasSkillCap

/-- `live` is the policy the reload controller holds at this moment. -/
def currentGlobalSnapshot (p : SkillInvocationPolicy) (live fallback : AutonomyPolicySnapshot) :
    AutonomyPolicySnapshot :=
  if p.hasSkillCap && p.currentAutonomyReload then live else fallback

def evaluateAtSnapshot [FloatText] (p : SkillInvocationPolicy) (action : Action)
    (currentGlobal : AutonomyPolicySnapshot) : Option Decision :=
  p.effective.evaluateWithCurrentGlobal action currentGlobal

/-- **A cap only restricts.** -/
theorem evaluateAtSnapshot_ge [FloatText] {p : SkillInvocationPolicy} {action : Action}
    {currentGlobal : AutonomyPolicySnapshot} {d : Decision}
    (h : p.evaluateAtSnapshot action currentGlobal = some d) :
    ∃ global, evaluateSnapshot action currentGlobal = some global ∧ global.rank ≤ d.rank := by
  obtain ⟨global, hglobal, hcap⟩ := EffectiveAutonomyPolicy.evaluateWithCurrentGlobal_rank h
  refine ⟨global, hglobal, ?_⟩
  split at hcap
  · rw [hcap]
  · obtain ⟨cap, -, hrank⟩ := hcap
    rw [hrank]
    exact Nat.le_max_left ..

end SkillInvocationPolicy

end Neoth.Permissions
