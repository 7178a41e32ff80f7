import Neoth.Mcp.ToolCalls
import Neoth.Permissions.Leases

/-!
# Leases on the tools of MCP servers

`mcp/config.rs` and `permissions/mod.rs`: a tool is named by the id of its server and its own name,
both of them up to 256 bytes of any text, and a lease on it by the two joined with a colon.

* `validateServerIds`: the ids that a configuration may hold;
* `join_eq_iff`: which names are joined to the same scope;
* **`lease_exact_iff`**: a lease on one tool covers only that tool, unless a colon can be shifted.
-/

open Lib.Encoding Lib.Text Neoth.Permissions

namespace Neoth.Mcp

/-! ## Server ids -/

def validateIdsFrom (seen : List String) : List String → Except String Unit
  | [] => .ok ()
  | id :: ids =>
    if id = "" ∨ maxMcpIdentifierBytes < byteLen id then
      .error s!"MCP server ID must contain 1..={maxMcpIdentifierBytes} UTF-8 bytes"
    else if id ∈ seen then .error s!"duplicate MCP server ID `{id}`"
    else validateIdsFrom (id :: seen) ids

/-- `McpServers::validate_server_ids`, of the ids in their order. -/
def validateServerIds (ids : List String) : Except String Unit := validateIdsFrom [] ids

/-! ## Scopes -/

structure McpTool where
  server : String
  tool : String
  deriving DecidableEq

def McpTool.action (p : McpTool) : Action := .mcpToolInvocation p.server p.tool

/-- A lease granted for one tool covers the other only if they are the same. -/
def LeaseExact (p q : McpTool) : Prop :=
  ∀ (lease : CapabilityLease) (subject : String) (scope : LeaseScope) (nowUnix : Int),
    leaseScopeFor p.action = some lease.scope → leaseScopeFor q.action = some scope →
    lease.covers subject scope nowUnix = true → p = q

/-- A part of the tool's name up to a colon may as well belong to the server. -/
def ShiftsColon (p q : McpTool) : Prop :=
  ∃ part, q.server = p.server ++ ":" ++ part ∧ p.tool = part ++ ":" ++ q.tool

def joined (p : McpTool) : String := s!"{p.server}:{p.tool}"

theorem toList_joined (p : McpTool) :
    (joined p).toList = p.server.toList ++ ':' :: p.tool.toList := by
  simp [joined, toString]

theorem shiftsColon_iff {p q : McpTool} :
    ShiftsColon p q ↔ ∃ part : List Char, q.server.toList = p.server.toList ++ ':' :: part ∧
      p.tool.toList = part ++ ':' :: q.tool.toList := by
  constructor
  · rintro ⟨part, hserver, htool⟩
    exact ⟨part.toList, by simp [hserver], by simp [htool]⟩
  · rintro ⟨part, hserver, htool⟩
    exact ⟨String.ofList part, String.toList_inj.mp (by simp [hserver]),
      String.toList_inj.mp (by simp [htool])⟩

theorem eq_or_shifts {p q : McpTool} {mid : List Char}
    (hserver : q.server.toList = p.server.toList ++ mid)
    (htool : ':' :: p.tool.toList = mid ++ ':' :: q.tool.toList) : p = q ∨ ShiftsColon p q := by
  cases mid with
  | nil =>
    obtain ⟨server, tool⟩ := p
    obtain ⟨server', tool'⟩ := q
    rw [List.append_nil] at hserver
    simp only [List.nil_append, List.cons.injEq, true_and] at htool
    rw [McpTool.mk.injEq]
    exact .inl ⟨(String.toList_inj.mp hserver).symm, String.toList_inj.mp htool⟩
  | cons c part =>
    obtain ⟨rfl, hpart⟩ := List.cons.inj htool
    exact .inr (shiftsColon_iff.mpr ⟨part, hserver, hpart⟩)

/-- The scopes are the same if the names are, or if they differ in where the colon is taken. -/
theorem join_eq_iff {p q : McpTool} : joined p = joined q ↔
    p = q ∨ ShiftsColon p q ∨ ShiftsColon q p := by
  rw [← String.toList_inj, toList_joined, toList_joined]
  constructor
  · intro h
    rcases List.append_eq_append_iff.mp h with ⟨mid, hserver, htool⟩ | ⟨mid, hserver, htool⟩
    · exact (eq_or_shifts hserver htool).imp_right .inl
    · exact (eq_or_shifts hserver htool).imp Eq.symm .inr
  · rintro (rfl | hshift | hshift)
    · rfl
    · obtain ⟨part, hserver, htool⟩ := shiftsColon_iff.mp hshift
      simp [hserver, htool]
    · obtain ⟨part, hserver, htool⟩ := shiftsColon_iff.mp hshift
      simp [hserver, htool]

theorem ShiftsColon.ne {p q : McpTool} (h : ShiftsColon p q) : p ≠ q := by
  rintro rfl
  obtain ⟨part, hserver, -⟩ := shiftsColon_iff.mp h
  have hlen := congrArg List.length hserver
  simp at hlen

/-- A lease on the joined names covers whatever is joined to the same. -/
theorem leaseExact_iff_joined {p q : McpTool} : LeaseExact p q ↔ (joined p = joined q → p = q) := by
  constructor
  · intro h heq
    refine h (.new "lease" "peer" (.mcpTool (joined p)) 1 0) "peer" (.mcpTool (joined q)) 0
      rfl rfl ?_
    rw [CapabilityLease.covers_iff, heq]
    exact ⟨by decide, show (0 : Int) < 1 by decide, rfl, rfl⟩
  · intro h lease subject scope nowUnix hp hq hcovers
    obtain ⟨-, -, -, hscope⟩ := CapabilityLease.covers_iff.mp hcovers
    have hsame : some (LeaseScope.mcpTool (joined p)) = some (.mcpTool (joined q)) :=
      hp.trans ((congrArg some hscope).trans hq.symm)
    exact h (LeaseScope.mcpTool.inj (Option.some.inj hsame))

/-- **A lease on a tool covers no other tool if and only if no colon can be shifted between the
names.** -/
theorem lease_exact_iff (p q : McpTool) :
    LeaseExact p q ↔ ¬ ShiftsColon p q ∧ ¬ ShiftsColon q p := by
  rw [leaseExact_iff_joined, join_eq_iff]
  constructor
  · intro h
    exact ⟨fun hshift => hshift.ne (h (.inr (.inl hshift))),
      fun hshift => hshift.ne (h (.inr (.inr hshift))).symm⟩
  · rintro ⟨hpq, hqp⟩ (heq | hshift | hshift)
    · exact heq
    · exact absurd hshift hpq
    · exact absurd hshift hqp

/-! ## Configurations -/

/-- A pair that a configuration and the parser let through. -/
structure Admitted (ids : List String) (p : McpTool) : Prop where
  registered : p.server ∈ ids
  named : IsIdentifier p.tool

/-- Both servers are registered, and the tools are named as tools may be. -/
theorem shifted_lease_covers :
    ¬ ∀ (ids : List String) (p q : McpTool), validateServerIds ids = .ok () → Admitted ids p →
    Admitted ids q →
      LeaseExact p q := by
  intro h
  have hexact := h ["a", "a:b"] ⟨"a", "b:c"⟩ ⟨"a:b", "c"⟩ (by decide) ⟨by decide, by
    unfold IsIdentifier; decide⟩ ⟨by decide, by unfold IsIdentifier; decide⟩
  exact absurd (leaseExact_iff_joined.mp hexact (by decide)) (by decide)

end Neoth.Mcp
