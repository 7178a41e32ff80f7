import Neoth.Permissions.Actions

/-!
# Capability leases

A lease grants one subject one coarse scope until its expiry second, which it no
longer covers.  `leaseScopeFor` is the seam between actions and scopes; most
actions have none, and no lease is ever about them.

* `covers_iff`: what a covering lease says;
* `mem_active_iff`: the active leases of a store, whatever their order.
-/

namespace Neoth.Permissions

inductive LeaseScope where
  | read
  | writeNeothHome
  | channelSend
  | clusterTaskAccept
  | mcpTool (id : String)
  | dangerousCommand
  | egress
  deriving DecidableEq

def leaseScopeFor : Action → Option LeaseScope
  | .read => some .read
  | .osFileRead _ => some .read
  | .osDirectoryList _ => some .read
  | .writeNeothHome => some .writeNeothHome
  | .obsidianPreloadWrite => some .writeNeothHome
  | .channelSend => some .channelSend
  | .mcpToolInvocation serverId tool => some (.mcpTool s!"{serverId}:{tool}")
  | .clusterTaskAccept => some .clusterTaskAccept
  | .dangerousTarget _ => none
  | .selfBinaryReplace .. => none
  | .patchApplyToRepo .. => none
  | .proactiveChannelSend _ => none
  | .writeOutsideHome => none
  | .execScripts => none
  | .execArbitrary => none
  | .paidProviderCall .. => none
  | .unboundedPaidProviderCall .. => none
  | .externalTtsSynthesis .. => none
  | .externalHttpRequest .. => none
  | .clusterPeerPairing .. => none
  | .osFileWrite _ => none
  | .osAppLaunch _ => none
  | .osClipboardRead => none
  | .osClipboardWrite => none
  | .externalTaskWrite .. => none
  | .selfSkillToggle .. => none
  | .selfCronRegister _ => none
  | .selfSourceEdit _ => none

structure CapabilityLease where
  leaseId : String
  grantedTo : String
  scope : LeaseScope
  grantedAtUnix : Int
  expiresUnix : Int

namespace CapabilityLease

/-- `leaseId` is the fresh UUID. -/
def new (leaseId grantedTo : String) (scope : LeaseScope) (ttlSecs nowUnix : Int) :
    CapabilityLease where
  leaseId := leaseId
  grantedTo := grantedTo
  scope := scope
  grantedAtUnix := nowUnix
  expiresUnix := min (nowUnix + max ttlSecs 0) (2 ^ 63 - 1)

def isActive (l : CapabilityLease) (nowUnix : Int) : Bool := nowUnix < l.expiresUnix

def covers (l : CapabilityLease) (subject : String) (scope : LeaseScope) (nowUnix : Int) : Bool :=
  subject != "" && l.grantedTo != "" && l.isActive nowUnix && l.grantedTo == subject &&
  l.scope == scope

theorem covers_iff {l : CapabilityLease} {subject : String} {scope : LeaseScope} {nowUnix : Int} :
    l.covers subject scope nowUnix = true ↔
      subject ≠ "" ∧ nowUnix < l.expiresUnix ∧ l.grantedTo = subject ∧ l.scope = scope := by
  simp only [covers, isActive, Bool.and_eq_true, bne_iff_ne, beq_iff_eq, decide_eq_true_eq]
  constructor
  · rintro ⟨⟨⟨⟨hsubject, -⟩, hactive⟩, hgranted⟩, hscope⟩
    exact ⟨hsubject, hactive, hgranted, hscope⟩
  · rintro ⟨hsubject, hactive, hgranted, hscope⟩
    exact ⟨⟨⟨⟨hsubject, hgranted ▸ hsubject⟩, hactive⟩, hgranted⟩, hscope⟩

example :
    let l := new "lease-1" "peer" (.mcpTool "fs:read") 100 100
    l.covers "peer" (.mcpTool "fs:read") 199 = true ∧
    l.covers "peer" (.mcpTool "fs:read") 200 = false ∧
      l.covers "peer" (.mcpTool "fs:write") 199 = false ∧
      l.covers "" (.mcpTool "fs:read") 199 = false := by
  decide

end CapabilityLease

structure LeaseStore where
  leases : List CapabilityLease

namespace LeaseStore

def grant (s : LeaseStore) (lease : CapabilityLease) : LeaseStore := ⟨s.leases ++ [lease]⟩

/-- Remove a lease by its id or by a prefix only one id has. -/
def revoke (s : LeaseStore) (leaseIdOrPrefix : String) : LeaseStore :=
  match s.leases.findIdx? (·.leaseId == leaseIdOrPrefix) with
  | some i => ⟨s.leases.eraseIdx i⟩
  | none =>
    let heads := s.leases.zipIdx.filter fun l =>
      leaseIdOrPrefix.toList.isPrefixOf l.1.leaseId.toList
    match heads with
    | [(_, i)] => ⟨s.leases.eraseIdx i⟩
    | _ => s

/-- Every lease active now, the newest grant first. -/
def active (s : LeaseStore) (nowUnix : Int) : List CapabilityLease :=
  (s.leases.filter (·.isActive nowUnix)).mergeSort fun a b => b.grantedAtUnix ≤ a.grantedAtUnix

def pruneExpired (s : LeaseStore) (nowUnix : Int) : LeaseStore :=
  ⟨s.leases.filter (·.isActive nowUnix)⟩

theorem mem_active_iff {s : LeaseStore} {nowUnix : Int} {l : CapabilityLease} :
    l ∈ s.active nowUnix ↔ l ∈ s.leases ∧ l.isActive nowUnix = true := by
  rw [active, List.mem_mergeSort, List.mem_filter]

end LeaseStore

end Neoth.Permissions
