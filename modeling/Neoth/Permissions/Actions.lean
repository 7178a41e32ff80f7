import Neoth.Lib.Binary32
import Neoth.Lib.Encoding

/-!
# What the daemon may do, and what each built-in level says of it

`Action` is what the daemon is about to do, with its payload; the four built-in
autonomy levels are the tables `evaluateStrict`, `evaluateStandard`,
`evaluateElevated` and `evaluateFull`.  A table answers `none` where the source
panics: it cuts a peer's key at byte 16, and the cut may fall inside a character.
-/

open Lib

namespace Neoth.Permissions

/-- The text of an `f32`, by `Display` and with two decimals. -/
class FloatText where
  display : UInt32 → String
  fixed2 : UInt32 → String

inductive Action where
  | read
  | writeNeothHome
  | writeOutsideHome
  | execScripts
  | execArbitrary
  | paidProviderCall (provider model authorizationId requestBindingSha256 : String)
    (eurEstimate : UInt32)
  | unboundedPaidProviderCall (provider model authorizationId requestBindingSha256 : String)
  | externalTtsSynthesis (provider destination : String) (sendsReferenceAudio : Bool)
      (requestBindingSha256 : String)
  | externalHttpRequest (method destination surface requestId requestBindingSha256 : String)
  | channelSend
  | dangerousTarget (target : String)
  | mcpToolInvocation (serverId tool : String)
  | patchApplyToRepo (repoRoot : String) (taskId : UInt64)
  | clusterPeerPairing (pubKeyHex discoveredVia : String)
  | selfBinaryReplace (source target repo : String)
  | proactiveChannelSend (channel : String)
  | osFileRead (path : String)
  | osDirectoryList (path : String)
  | osFileWrite (path : String)
  | osAppLaunch (program : String)
  | osClipboardRead
  | osClipboardWrite
  | clusterTaskAccept
  | externalTaskWrite (provider action : String)
  | selfSkillToggle (skillId : String) (enable : Bool)
  | selfCronRegister (jobId : String)
  | selfSourceEdit (targetPaths : List String)
  | obsidianPreloadWrite

inductive ActionKind where
  | read
  | writeNeothHome
  | writeOutsideHome
  | execScripts
  | execArbitrary
  | paidProviderCall
  | unboundedPaidProviderCall
  | externalTtsSynthesis
  | externalHttpRequest
  | channelSend
  | dangerousTarget
  | mcpToolInvocation
  | patchApplyToRepo
  | clusterPeerPairing
  | selfBinaryReplace
  | proactiveChannelSend
  | osFileRead
  | osDirectoryList
  | osFileWrite
  | osAppLaunch
  | osClipboardRead
  | osClipboardWrite
  | clusterTaskAccept
  | externalTaskWrite
  | selfSkillToggle
  | selfCronRegister
  | selfSourceEdit
  | obsidianPreloadWrite

def ActionKind.asStr : ActionKind → String
  | .read => "read"
  | .writeNeothHome => "write_neoth_home"
  | .writeOutsideHome => "write_outside_home"
  | .execScripts => "exec_scripts"
  | .execArbitrary => "exec_arbitrary"
  | .paidProviderCall => "paid_provider_call"
  | .unboundedPaidProviderCall => "unbounded_paid_provider_call"
  | .externalTtsSynthesis => "external_tts_synthesis"
  | .externalHttpRequest => "external_http_request"
  | .channelSend => "channel_send"
  | .dangerousTarget => "dangerous_target"
  | .mcpToolInvocation => "mcp_tool_invocation"
  | .patchApplyToRepo => "patch_apply_to_repo"
  | .clusterPeerPairing => "cluster_peer_pairing"
  | .selfBinaryReplace => "self_binary_replace"
  | .proactiveChannelSend => "proactive_channel_send"
  | .osFileRead => "os_file_read"
  | .osDirectoryList => "os_directory_list"
  | .osFileWrite => "os_file_write"
  | .osAppLaunch => "os_app_launch"
  | .osClipboardRead => "os_clipboard_read"
  | .osClipboardWrite => "os_clipboard_write"
  | .clusterTaskAccept => "cluster_task_accept"
  | .externalTaskWrite => "external_task_write"
  | .selfSkillToggle => "self_skill_toggle"
  | .selfCronRegister => "self_cron_register"
  | .selfSourceEdit => "self_source_edit"
  | .obsidianPreloadWrite => "obsidian_preload_write"

def Action.kind : Action → ActionKind
  | .read => .read
  | .writeNeothHome => .writeNeothHome
  | .writeOutsideHome => .writeOutsideHome
  | .execScripts => .execScripts
  | .execArbitrary => .execArbitrary
  | .paidProviderCall .. => .paidProviderCall
  | .unboundedPaidProviderCall .. => .unboundedPaidProviderCall
  | .externalTtsSynthesis .. => .externalTtsSynthesis
  | .externalHttpRequest .. => .externalHttpRequest
  | .channelSend => .channelSend
  | .dangerousTarget _ => .dangerousTarget
  | .mcpToolInvocation .. => .mcpToolInvocation
  | .patchApplyToRepo .. => .patchApplyToRepo
  | .clusterPeerPairing .. => .clusterPeerPairing
  | .selfBinaryReplace .. => .selfBinaryReplace
  | .proactiveChannelSend _ => .proactiveChannelSend
  | .osFileRead _ => .osFileRead
  | .osDirectoryList _ => .osDirectoryList
  | .osFileWrite _ => .osFileWrite
  | .osAppLaunch _ => .osAppLaunch
  | .osClipboardRead => .osClipboardRead
  | .osClipboardWrite => .osClipboardWrite
  | .clusterTaskAccept => .clusterTaskAccept
  | .externalTaskWrite .. => .externalTaskWrite
  | .selfSkillToggle .. => .selfSkillToggle
  | .selfCronRegister _ => .selfCronRegister
  | .selfSourceEdit _ => .selfSourceEdit
  | .obsidianPreloadWrite => .obsidianPreloadWrite

inductive Decision where
  | allow
  | confirm (reason : String)
  | deny (reason : String)

namespace Decision

def isAllow : Decision → Bool
  | .allow => true
  | _ => false

def isDeny : Decision → Bool
  | .deny _ => true
  | _ => false

/-- The chain Allow < Confirm < Deny: a decision is more permissive the lower it stands. -/
def rank : Decision → Nat
  | .allow => 0
  | .confirm _ => 1
  | .deny _ => 2

@[simp] theorem rank_allow : rank .allow = 0 := rfl

@[simp] theorem rank_confirm (reason : String) : rank (.confirm reason) = 1 := rfl

@[simp] theorem rank_deny (reason : String) : rank (.deny reason) = 2 := rfl

end Decision

/-! ## The texts the tables share -/

def paidCallIdentity (provider model authorizationId requestBindingSha256 : String) : String :=
  s!"{provider}/{model} (authorization_id={authorizationId}, request_binding_sha256={requestBindingSha256})"

def checkPaidCall [FloatText] (eurEstimate threshold : UInt32)
    (levelName provider model authorizationId requestBindingSha256 : String) : Decision :=
  let identity := paidCallIdentity provider model authorizationId requestBindingSha256
  if !Binary32.isFinite eurEstimate then
    .confirm (s!"{levelName}: paid provider {identity} with non-finite EUR estimate " ++
      s!"({FloatText.display eurEstimate}) — cost predictor likely broken; refusing to silently allow")
  else if Binary32.lt eurEstimate 0 then
    .confirm (s!"{levelName}: paid provider {identity} with negative EUR estimate " ++
      s!"({FloatText.display eurEstimate}) — cost predictor likely broken; refusing to silently allow")
  else if Binary32.lt threshold eurEstimate then
    .confirm (s!"{levelName}: paid provider {identity} €{FloatText.fixed2 eurEstimate} > " ++
      s!"€{FloatText.fixed2 threshold} limit")
  else .allow

/-- `&pub_key_hex[..16.min(pub_key_hex.len())]`. -/
def peerLabel (pubKeyHex : String) : Option String :=
  let cut : String.Pos.Raw := ⟨min 16 pubKeyHex.utf8ByteSize⟩
  if cut.isValid pubKeyHex then some (String.Pos.Raw.extract pubKeyHex 0 cut) else none

def leavesTheDevice (sendsReferenceAudio : Bool) : String :=
  if sendsReferenceAudio then " (spoken text and reference audio leave the device)"
  else " (spoken text leaves the device)"

def toggleWord (enable : Bool) : String := if enable then "enable" else "disable"

/-! ## The four levels -/

def evaluateStrict : Action → Option Decision
  | .read => some .allow
  | .writeNeothHome => some (.confirm "strict: confirm WriteNeothHome")
  | .writeOutsideHome => some (.confirm "strict: confirm WriteOutsideHome")
  | .execScripts => some (.confirm "strict: confirm ExecScripts")
  | .execArbitrary => some (.confirm "strict: confirm ExecArbitrary")
  | .channelSend => some (.confirm "strict: confirm ChannelSend")
  | .paidProviderCall provider model authorizationId requestBindingSha256 _ =>
    let identity := paidCallIdentity provider model authorizationId requestBindingSha256
    some (.confirm s!"strict: paid provider call {identity} requires confirm")
  | .unboundedPaidProviderCall provider model authorizationId requestBindingSha256 =>
    let identity := paidCallIdentity provider model authorizationId requestBindingSha256
    some (.confirm (s!"strict: paid provider invocation {identity} has no proven finite " ++
      "whole-invocation cost bound and requires explicit confirm"))
  | .externalTtsSynthesis provider destination sendsReferenceAudio _ =>
    some (.confirm (s!"strict: external TTS via {provider} to {destination} requires confirm" ++
      leavesTheDevice sendsReferenceAudio))
  | .externalHttpRequest method destination surface _ _ =>
    some (.confirm s!"strict: external HTTP {method} to {destination} ({surface}) requires confirm")
  | .mcpToolInvocation serverId tool =>
    some (.confirm s!"strict: MCP tool `{serverId}::{tool}` requires confirm")
  | .dangerousTarget t => some (.deny s!"strict: dangerous target '{t}'")
  | .patchApplyToRepo _ taskId =>
    some (.deny s!"strict: agent MUST NOT mutate operator checkouts — task {taskId} apply denied")
  | .clusterPeerPairing pubKeyHex _ => do
    let peer ← peerLabel pubKeyHex
    some (.deny s!"strict: cluster makes no autonomous topology changes — peer {peer} denied")
  | .selfBinaryReplace source target _ =>
    some (.deny (s!"strict: daemon self-replace ({source} -> {target}) denied — " ++
      "agent never replaces its own binary"))
  | .proactiveChannelSend channel =>
    some (.deny (s!"strict: daemon never sends unsolicited messages — " ++
      s!"proactive send to '{channel}' denied"))
  | .osFileRead path => some (.confirm s!"strict: OS file read of {path} requires confirm")
  | .osDirectoryList path =>
    some (.confirm s!"strict: OS directory listing of {path} requires confirm")
  | .clusterTaskAccept => some (.deny "strict: no unattended cluster-delegated task execution")
  | .osFileWrite path =>
    some (.deny s!"strict: OS file write of {path} denied (writes mutate the operator FS)")
  | .osAppLaunch program =>
    some (.deny s!"strict: launching {program} denied (arbitrary program execution)")
  | .osClipboardRead =>
    some (.deny "strict: OS clipboard read denied (unscoped ambient secret store)")
  | .osClipboardWrite =>
    some (.deny "strict: OS clipboard write denied (pastejacking injection vector)")
  | .externalTaskWrite provider action =>
    some (.confirm s!"strict: external task {action} on {provider} requires confirm")
  | .selfSkillToggle skillId enable =>
    some (.deny (s!"strict: self-toggle skill '{skillId}' {toggleWord enable} denied — " ++
      "self-activation requires Elevated+"))
  | .selfCronRegister jobId =>
    some (.deny (s!"strict: self-register cron '{jobId}' denied — " ++
      "self-activation requires Elevated+"))
  | .selfSourceEdit targetPaths =>
    some (.deny (s!"strict: self-source edit of {targetPaths.length} path(s) denied — " ++
      "requires Elevated or Full autonomy"))
  | .obsidianPreloadWrite =>
    some (.confirm ("strict: Obsidian vault preload write requires confirm " ++
      "(daemon has no TTY at Strict — fail-closed)"))

def evaluateStandard [FloatText] : Action → Option Decision
  | .read => some .allow
  | .channelSend => some .allow
  | .writeNeothHome => some .allow
  | .writeOutsideHome => some (.confirm "standard: write outside ~/.neoth/ requires confirm")
  | .execScripts => some (.confirm "standard: shell exec requires confirm")
  | .execArbitrary => some (.confirm "standard: shell exec requires confirm")
  | .paidProviderCall provider model authorizationId requestBindingSha256 eurEstimate =>
    -- 0x3F000000 is 0.50
    some (checkPaidCall eurEstimate 0x3F000000 "standard" provider model authorizationId
      requestBindingSha256)
  | .unboundedPaidProviderCall provider model authorizationId requestBindingSha256 =>
    let identity := paidCallIdentity provider model authorizationId requestBindingSha256
    some (.confirm (s!"standard: paid provider invocation {identity} has no proven finite " ++
      "whole-invocation cost bound and requires explicit confirm"))
  | .externalTtsSynthesis provider destination sendsReferenceAudio _ =>
    some (.confirm (s!"standard: external TTS via {provider} to {destination} requires confirm" ++
      leavesTheDevice sendsReferenceAudio))
  | .externalHttpRequest method destination surface _ _ =>
    some
      (.confirm s!"standard: external HTTP {method} to {destination} ({surface}) requires confirm")
  | .mcpToolInvocation serverId tool =>
    some
      (.confirm
        s!"standard: MCP tool `{serverId}::{tool}` requires confirm — external server effects")
  | .dangerousTarget t => some (.deny s!"standard: dangerous target '{t}'")
  | .patchApplyToRepo repoRoot taskId =>
    some (.confirm s!"standard: task {taskId} patch apply to {repoRoot} requires confirm")
  | .clusterPeerPairing pubKeyHex discoveredVia => do
    let peer ← peerLabel pubKeyHex
    some (.confirm s!"standard: peer {peer} (via {discoveredVia}) requires confirm before pairing")
  | .selfBinaryReplace source target repo =>
    some
      (.confirm s!"standard: daemon self-replace {source} -> {target} from {repo} requires confirm")
  | .proactiveChannelSend channel =>
    some (.confirm (s!"standard: unsolicited proactive send to '{channel}' requires confirm " ++
      "(no TTY in daemon ⇒ effectively suppressed until Elevated)"))
  | .osFileRead _ => some .allow
  | .osDirectoryList _ => some .allow
  | .clusterTaskAccept =>
    some (.confirm ("standard: accept cluster-delegated task requires confirm " ++
      "(a ClusterTaskAccept lease for the peer upgrades this to allow)"))
  | .osFileWrite path => some (.confirm s!"standard: OS file write of {path} requires confirm")
  | .osAppLaunch program =>
    some (.confirm s!"standard: launching {program} requires confirm (program execution)")
  | .osClipboardRead =>
    some
      (.confirm ("standard: OS clipboard read requires confirm (unscoped secret-capture risk; " ++
      "no TTY ⇒ suppressed until Full)"))
  | .osClipboardWrite =>
    some (.deny ("standard: OS clipboard write denied (passive pastejacking injection " ++
      "vector — stricter than program launch)"))
  | .externalTaskWrite provider action =>
    some (.confirm s!"standard: external task {action} on {provider} requires confirm")
  | .selfSkillToggle skillId enable =>
    some (.deny (s!"standard: self-toggle skill '{skillId}' {toggleWord enable} denied — " ++
      "self-activation requires Elevated+"))
  | .selfCronRegister jobId =>
    some (.deny (s!"standard: self-register cron '{jobId}' denied — " ++
      "self-activation requires Elevated+"))
  | .selfSourceEdit targetPaths =>
    some (.deny (s!"standard: self-source edit of {targetPaths.length} path(s) denied — " ++
      "requires Elevated or Full autonomy"))
  | .obsidianPreloadWrite => some .allow

def evaluateElevated [FloatText] : Action → Option Decision
  | .read => some .allow
  | .channelSend => some .allow
  | .writeNeothHome => some .allow
  | .writeOutsideHome => some .allow
  | .execScripts => some .allow
  | .execArbitrary =>
    some (.confirm "elevated: shell exec outside ~/.neoth/scripts/ requires confirm")
  | .paidProviderCall provider model authorizationId requestBindingSha256 eurEstimate =>
    -- 0x40A00000 is 5.0
    some (checkPaidCall eurEstimate 0x40A00000 "elevated" provider model authorizationId
      requestBindingSha256)
  | .unboundedPaidProviderCall provider model authorizationId requestBindingSha256 =>
    let identity := paidCallIdentity provider model authorizationId requestBindingSha256
    some (.confirm (s!"elevated: paid provider invocation {identity} has no proven finite " ++
      "whole-invocation cost bound and requires explicit confirm"))
  | .externalTtsSynthesis .. => some .allow
  | .externalHttpRequest .. => some .allow
  | .mcpToolInvocation .. => some .allow
  | .dangerousTarget t => some (.confirm s!"elevated: dangerous target '{t}' requires confirm")
  | .patchApplyToRepo repoRoot taskId =>
    some
      (.confirm s!"elevated: task {taskId} patch apply to {repoRoot} requires confirm (Chorus Q1a)")
  | .clusterPeerPairing pubKeyHex discoveredVia => do
    let peer ← peerLabel pubKeyHex
    some
      (.confirm s!"elevated: peer {peer} (via {discoveredVia}) requires confirm — topology change")
  | .selfBinaryReplace source target repo =>
    some
      (.confirm s!"elevated: daemon self-replace {source} -> {target} from {repo} requires confirm")
  | .proactiveChannelSend _ => some .allow
  | .osFileRead _ => some .allow
  | .osDirectoryList _ => some .allow
  | .clusterTaskAccept => some .allow
  | .osFileWrite _ => some .allow
  | .osAppLaunch program =>
    some (.confirm s!"elevated: launching {program} requires confirm (program execution)")
  | .osClipboardRead =>
    some (.confirm ("elevated: OS clipboard read requires confirm (unscoped secret-capture; " ++
      "no TTY ⇒ suppressed until Full)"))
  | .osClipboardWrite =>
    some (.confirm ("elevated: OS clipboard write requires confirm (pastejacking injection; " ++
      "no TTY ⇒ suppressed until Full)"))
  | .externalTaskWrite .. => some .allow
  | .selfSkillToggle skillId enable =>
    some
      (.confirm
        (s!"elevated: self-toggle skill '{skillId}' {toggleWord enable} requires confirm — " ++
      "Full + sovereign mode required for auto-allow"))
  | .selfCronRegister jobId =>
    some (.confirm (s!"elevated: self-register cron '{jobId}' requires confirm — " ++
      "cron registration always requires explicit confirm"))
  | .selfSourceEdit targetPaths =>
    some
      (.confirm
        (s!"elevated: self-source edit of {targetPaths.length} path(s) requires confirm — " ++
      "this modifies NEOTH's own source code (requires explicit operator ack)"))
  | .obsidianPreloadWrite => some .allow

def evaluateFull : Action → Option Decision
  | .dangerousTarget t => some (.confirm s!"full: dangerous target '{t}' requires confirm")
  | .patchApplyToRepo repoRoot taskId =>
    some (.confirm (s!"full: task {taskId} patch apply to {repoRoot} requires confirm " ++
      "(Chorus Q1a v0.2-conservative)"))
  | .clusterPeerPairing .. => some .allow
  | .selfBinaryReplace source target repo =>
    some
      (.confirm
        (s!"full: daemon self-replace {source} -> {target} from {repo} requires confirm — " ++
      "highest blast radius (RCE surface), never auto-allowed"))
  | .osClipboardRead => some .allow
  | .osClipboardWrite => some .allow
  | .read => some .allow
  | .writeNeothHome => some .allow
  | .writeOutsideHome => some .allow
  | .execScripts => some .allow
  | .execArbitrary => some .allow
  | .channelSend => some .allow
  | .paidProviderCall .. => some .allow
  | .unboundedPaidProviderCall .. => some .allow
  | .externalTtsSynthesis .. => some .allow
  | .externalHttpRequest .. => some .allow
  | .mcpToolInvocation .. => some .allow
  | .osFileRead _ => some .allow
  | .osDirectoryList _ => some .allow
  | .osFileWrite _ => some .allow
  | .osAppLaunch _ => some .allow
  | .clusterTaskAccept => some .allow
  | .proactiveChannelSend _ => some .allow
  | .externalTaskWrite .. => some .allow
  | .obsidianPreloadWrite => some .allow
  | .selfSkillToggle .. => some .allow
  | .selfCronRegister jobId =>
    some (.confirm (s!"full: self-register cron '{jobId}' requires confirm — " ++
      "cron registration is never auto-allowed (use --confirm-cron)"))
  | .selfSourceEdit targetPaths =>
    some
      (.confirm (s!"full: self-source edit of {targetPaths.length} path(s) requires confirm — " ++
      "modifies NEOTH's own source code; never auto-allowed at any level " ++
      "(same policy as SelfBinaryReplace)"))

end Neoth.Permissions
