import Neoth.BudgetRaft.Carrier

/-!
# Responses and the requests they answer

What a slot, a response that took one and a channel have in common is the call behind them.

* `Sound`: slots belong to calls that wait, and a call has one slot or one response;
* `sound_after`: that holds in every state of a run;
* **`responses_are_matched`**: a response reaches the request that it matches, once, and no other
  changes anything.
-/

open Lib.Machine
open Std (ExtTreeMap LawfulEqOrd ReflCmp)

namespace Neoth.BudgetRaft

/-! ## Slots, calls and responses -/

/-- The slot is what the call entered. -/
structure CarrierCall.Owns (call : CarrierCall) (entry : PendingReply) : Prop where
  transport : entry.transportIdentity = call.route.transportIdentity.val
  stableNode : entry.stableNodeId = call.route.stableNodeId
  generation : entry.generation = call.session.generation
  kind : entry.expectedKind = call.expectedKind

/-- The response is the one that the call waits for. -/
structure CarrierCall.Expects (call : CarrierCall) (session : BudgetSession)
    (envelope : BudgetRaftEnvelope) : Prop where
  requestId : envelope.requestId = call.requestId
  transport : session.grant.transportIdentity.val = call.route.transportIdentity.val
  stableNode : session.stableNodeId = call.route.stableNodeId
  generation : session.generation = call.session.generation
  kind : envelope.kind = call.expectedKind

/-- Slots and responses on the one side, the calls behind them on the other. -/
structure Sound (pending : ExtTreeMap UInt64 PendingReply) (calls : List CarrierCall)
    (arrivals : List Arrival) : Prop where
  bounded : pending.size ≤ maxPending
  slots : ∀ (id : UInt64) entry, pending[id]? = some entry →
    ∃ call, calls[entry.reply]? = some call ∧ call.requestId = id ∧ call.phase.registered = true ∧
    call.Owns entry
  untaken : ∀ (id : UInt64) entry, pending[id]? = some entry →
    ∀ (k : Nat) arrival, arrivals[k]? = some arrival → ∀ e, arrival.entry = some e →
    e.reply ≠ entry.reply
  taken : ∀ (k : Nat) arrival, arrivals[k]? = some arrival → ∀ e, arrival.entry = some e →
    ∃ call, calls[e.reply]? = some call ∧ call.phase.begun = true ∧ call.Owns e ∧
      call.Expects arrival.session arrival.envelope
  once : ∀ (j k : Nat) a b, arrivals[j]? = some a → arrivals[k]? = some b → ∀ e e',
    a.entry = some e →
    b.entry = some e' → e.reply = e'.reply → j = k
  replies : ∀ (i : Nat) call, calls[i]? = some call → ∀ k envelope,
    call.reply = some (k, envelope) →
    ∃ arrival e, arrivals[k]? = some arrival ∧ arrival.phase = .sent e ∧ e.reply = i ∧
    arrival.envelope = envelope
  results : ∀ (i : Nat) call, calls[i]? = some call → ∀ envelope,
    call.phase.result = some (.ok envelope) →
    call.phase.receiving = false ∧ ∃ k, call.reply = some (k, envelope)

theorem sound_fresh : Sound ∅ [] [] where
  bounded := by
    rw [ExtTreeMap.size_empty]
    exact Nat.zero_le _
  slots := by simp
  untaken := by simp
  taken := by simp
  once := by simp
  replies := by simp
  results := by simp

/-- A response takes a slot when it is there for its identifier and has its tuple. -/
theorem acceptResponse_cases (pending : ExtTreeMap UInt64 PendingReply) (session : BudgetSession)
    (envelope : BudgetRaftEnvelope) :
    (∃ entry : PendingReply, pending[envelope.requestId]? = some entry ∧
      entry.admits session envelope = true ∧
        acceptResponse pending session envelope = (pending.erase envelope.requestId, some entry)) ∨
      ((∀ entry : PendingReply, pending[envelope.requestId]? = some entry →
        entry.admits session envelope = false) ∧
        acceptResponse pending session envelope = (pending, none)) := by
  unfold acceptResponse
  cases hget : pending[envelope.requestId]? with
  | none => exact .inr ⟨fun entry h => absurd h (by simp), rfl⟩
  | some entry =>
    dsimp only
    cases hadmits : entry.admits session envelope with
    | false =>
      refine .inr ⟨fun other h => ?_, rfl⟩
      cases h
      exact hadmits
    | true => exact .inl ⟨entry, rfl, hadmits, rfl⟩

variable {call : CarrierCall} {entry : PendingReply} {session : BudgetSession}
  {envelope : BudgetRaftEnvelope}

theorem CarrierCall.Owns.expects (h : call.Owns entry) (hid : call.requestId = envelope.requestId)
    (hadmits : entry.admits session envelope = true) : call.Expects session envelope := by
  unfold PendingReply.admits at hadmits
  simp only [Bool.and_eq_true, decide_eq_true_eq] at hadmits
  obtain ⟨⟨⟨htransport, hstable⟩, hgeneration⟩, hkind⟩ := hadmits
  exact ⟨hid.symm, htransport.symm.trans h.transport, hstable.symm.trans h.stableNode,
    hgeneration.symm.trans h.generation, hkind.symm.trans h.kind⟩

theorem CarrierCall.Owns.admits (h : call.Owns entry) (hexpects : call.Expects session envelope) :
    entry.admits session envelope = true := by
  unfold PendingReply.admits
  simp only [Bool.and_eq_true, decide_eq_true_eq]
  exact ⟨⟨⟨h.transport.trans hexpects.transport.symm, h.stableNode.trans hexpects.stableNode.symm⟩,
    h.generation.trans hexpects.generation.symm⟩, h.kind.trans hexpects.kind.symm⟩

/-! ## What keeps the invariant -/

variable {pending pending' : ExtTreeMap UInt64 PendingReply} {calls : List CarrierCall}
  {arrivals : List Arrival}

theorem getElem?_erase_eq_some {id other : UInt64} (h : (pending.erase id)[other]? = some entry) :
    pending[other]? = some entry := by
  rw [ExtTreeMap.getElem?_erase] at h
  split at h
  · exact absurd h (by simp)
  · exact h

theorem Sound.shrink (h : Sound pending calls arrivals) (hsize : pending'.size ≤ pending.size)
    (hsub : ∀ (id : UInt64) entry, pending'[id]? = some entry → pending[id]? = some entry) :
    Sound pending' calls arrivals where
  bounded := hsize.trans h.bounded
  slots := fun id entry hget => h.slots id entry (hsub id entry hget)
  untaken := fun id entry hget => h.untaken id entry (hsub id entry hget)
  taken := h.taken
  once := h.once
  replies := h.replies
  results := h.results

theorem Sound.erase (h : Sound pending calls arrivals) (id : UInt64) :
    Sound (pending.erase id) calls arrivals :=
  h.shrink ExtTreeMap.size_erase_le fun _ _ => getElem?_erase_eq_some

variable {i : Nat}

/-- A call that moves on, and leaves no slot behind when its guard has run. -/
theorem Sound.move (h : Sound pending calls arrivals) {call call' : CarrierCall}
    (hget : calls[i]? = some call)
    (hroute : call'.route = call.route) (hsession : call'.session = call.session)
    (hkind : call'.expectedKind = call.expectedKind)
    (hid : call.phase.begun = true → call'.requestId = call.requestId ∧ call'.phase.begun = true)
    (hregistered : call.phase.registered = true → call'.phase.registered = true ∨
      ∀ (id : UInt64) entry, pending[id]? = some entry → entry.reply ≠ i)
    (hreply : call'.reply = call.reply)
    (hresult : ∀ envelope, call'.phase.result = some (.ok envelope) →
      call'.phase.receiving = false ∧ ∃ k, call'.reply = some (k, envelope)) :
    Sound pending (calls.set i call') arrivals := by
  obtain ⟨hlt, -⟩ := List.getElem?_eq_some_iff.mp hget
  have hself : (calls.set i call')[i]? = some call' := List.getElem?_set_self hlt
  have hother : ∀ j, i ≠ j → (calls.set i call')[j]? = calls[j]? :=
    fun j hne => List.getElem?_set_ne hne
  have howns : ∀ entry, call.Owns entry → call'.Owns entry := fun entry howns =>
    ⟨hroute ▸ howns.transport, hroute ▸ howns.stableNode, hsession ▸ howns.generation,
      hkind ▸ howns.kind⟩
  have hbegun : ∀ phase : CallPhase, phase.registered = true → phase.begun = true := by
    intro phase hphase
    cases phase <;> first | rfl | exact hphase
  refine ⟨h.bounded, ?_, h.untaken, ?_, h.once, ?_, ?_⟩
  · intro id entry hslot
    obtain ⟨owner, howner, hownerId, hphase, hown⟩ := h.slots id entry hslot
    by_cases hi : i = entry.reply
    · subst hi
      obtain rfl := Option.some.inj (hget.symm.trans howner)
      rcases hregistered hphase with hnew | hgone
      · exact ⟨call', hself, (hid (hbegun _ hphase)).1.trans hownerId, hnew, howns _ hown⟩
      · exact absurd rfl (hgone id entry hslot)
    · exact ⟨owner, (hother _ hi).trans howner, hownerId, hphase, hown⟩
  · intro k arrival harrival e he
    obtain ⟨owner, howner, hphase, hown, hexpects⟩ := h.taken k arrival harrival e he
    by_cases hi : i = e.reply
    · subst hi
      obtain rfl := Option.some.inj (hget.symm.trans howner)
      obtain ⟨hsame, hphase'⟩ := hid hphase
      exact ⟨call', hself, hphase', howns _ hown, hexpects.requestId.trans hsame.symm,
        hroute ▸ hexpects.transport, hroute ▸ hexpects.stableNode, hsession ▸ hexpects.generation,
        hkind ▸ hexpects.kind⟩
    · exact ⟨owner, (hother _ hi).trans howner, hphase, hown, hexpects⟩
  · intro j other hj k envelope hrep
    by_cases hi : i = j
    · subst hi
      obtain rfl := Option.some.inj (hself.symm.trans hj)
      exact h.replies i call hget k envelope (hreply.symm.trans hrep)
    · exact h.replies j other ((hother j hi).symm.trans hj) k envelope hrep
  · intro j other hj envelope hres
    by_cases hi : i = j
    · subst hi
      obtain rfl := Option.some.inj (hself.symm.trans hj)
      exact hresult envelope hres
    · exact h.results j other ((hother j hi).symm.trans hj) envelope hres

/-- A call enters its slot, over the one of a call that had its identifier before. -/
theorem Sound.enter (h : Sound pending calls arrivals) {entered : UInt64}
    (hget : calls[i]? = some call)
    (hid : call.requestId = entered) (hphase : call.phase.registered = true)
    (howns : call.Owns entry) (hreply : entry.reply = i) (hroom : pending.size < maxPending)
    (hfree : ∀ (k : Nat) arrival, arrivals[k]? = some arrival → ∀ e, arrival.entry = some e →
      e.reply ≠ i) :
    Sound (pending.insert entered entry) calls arrivals := by
  refine ⟨ExtTreeMap.size_insert_le.trans hroom, ?_, ?_, h.taken, h.once, h.replies, h.results⟩
  · intro id slot hslot
    rw [ExtTreeMap.getElem?_insert] at hslot
    split at hslot
    · rename_i heq
      obtain rfl := Option.some.inj hslot
      exact ⟨call, hreply ▸ hget, hid.trans (LawfulEqOrd.eq_of_compare heq), hphase, howns⟩
    · exact h.slots id slot hslot
  · intro id slot hslot
    rw [ExtTreeMap.getElem?_insert] at hslot
    split at hslot
    · obtain rfl := Option.some.inj hslot
      rw [hreply]
      exact hfree
    · exact h.untaken id slot hslot

theorem Sound.addCall (h : Sound pending calls arrivals) (hphase : call.phase.result = none)
    (hreply : call.reply = none) : Sound pending (calls ++ [call]) arrivals := by
  have hold : ∀ {i : Nat} {other : CarrierCall}, calls[i]? = some other →
      (calls ++ [call])[i]? = some other := by
    intro i other hget
    exact (List.getElem?_append_left (List.getElem?_eq_some_iff.mp hget).1).trans hget
  have hnew : ∀ {i : Nat} {other : CarrierCall}, (calls ++ [call])[i]? = some other →
      calls[i]? = some other ∨ other = call := by
    intro i other hget
    rcases Nat.lt_or_ge i calls.length with hlt | hge
    · exact .inl ((List.getElem?_append_left hlt).symm.trans hget)
    · rw [List.getElem?_append_right hge] at hget
      exact .inr (List.mem_singleton.mp (List.mem_of_getElem? hget))
  refine ⟨h.bounded, ?_, h.untaken, ?_, h.once, ?_, ?_⟩
  · intro id entry hslot
    obtain ⟨owner, howner, hrest⟩ := h.slots id entry hslot
    exact ⟨owner, hold howner, hrest⟩
  · intro k arrival harrival e he
    obtain ⟨owner, howner, hrest⟩ := h.taken k arrival harrival e he
    exact ⟨owner, hold howner, hrest⟩
  · intro i other hget k envelope hrep
    rcases hnew hget with hget | rfl
    · exact h.replies i other hget k envelope hrep
    · exact absurd (hreply.symm.trans hrep) (by simp)
  · intro i other hget envelope hres
    rcases hnew hget with hget | rfl
    · exact h.results i other hget envelope hres
    · exact absurd (hphase.symm.trans hres) (by simp)

/-- The responses change, and those that have a slot are the ones that had it. -/
theorem Sound.rearrange (h : Sound pending calls arrivals) {arrivals' : List Arrival}
    (hkept : ∀ (k : Nat) arrival, arrivals[k]? = some arrival → ∀ e, arrival.phase = .sent e →
      arrivals'[k]? = some arrival)
    (hsame : ∀ (k : Nat) arrival', arrivals'[k]? = some arrival' → ∀ e, arrival'.entry = some e →
      ∃ arrival, arrivals[k]? = some arrival ∧ arrival.entry = some e ∧
      arrival.session = arrival'.session ∧
        arrival.envelope = arrival'.envelope) :
    Sound pending calls arrivals' := by
  refine ⟨h.bounded, h.slots, ?_, ?_, ?_, ?_, h.results⟩
  · intro id entry hslot k arrival' hget e he
    obtain ⟨arrival, hold, hentry, -, -⟩ := hsame k arrival' hget e he
    exact h.untaken id entry hslot k arrival hold e hentry
  · intro k arrival' hget e he
    obtain ⟨arrival, hold, hentry, hsession, henvelope⟩ := hsame k arrival' hget e he
    obtain ⟨call, hcall, hphase, howns, hexpects⟩ := h.taken k arrival hold e hentry
    exact ⟨call, hcall, hphase, howns, hsession ▸ henvelope ▸ hexpects⟩
  · intro j k a b ha hb e e' he he' hreply
    obtain ⟨a', ha', hea, -, -⟩ := hsame j a ha e he
    obtain ⟨b', hb', heb, -, -⟩ := hsame k b hb e' he'
    exact h.once j k a' b' ha' hb' e e' hea heb hreply
  · intro i call hcall k envelope hrep
    obtain ⟨arrival, e, hget, hphase, hreply, henvelope⟩ := h.replies i call hcall k envelope hrep
    exact ⟨arrival, e, hkept k arrival hget e hphase, hphase, hreply, henvelope⟩

variable {k : Nat}

theorem getElem?_set_eq_some {A : Type} {l : List A} {k j : Nat} {a b : A}
    (h : (l.set k a)[j]? = some b) : (j = k ∧ b = a) ∨ (j ≠ k ∧ l[j]? = some b) := by
  rw [List.getElem?_set] at h
  split at h
  · rename_i heq
    split at h
    · exact .inl ⟨heq.symm, (Option.some.inj h).symm⟩
    · exact absurd h (by simp)
  · rename_i hne
    exact .inr ⟨fun heq => hne heq.symm, h⟩

/-- A response takes its slot out of the map. -/
theorem Sound.take (h : Sound pending calls arrivals)
    (hget : arrivals[k]? = some ⟨session, envelope, .checked⟩)
    (hslot : pending[envelope.requestId]? = some entry)
    (hadmits : entry.admits session envelope = true) :
    Sound (pending.erase envelope.requestId) calls
      (arrivals.set k ⟨session, envelope, .taken entry⟩) := by
  obtain ⟨owner, howner, hid, hphase, howns⟩ := h.slots _ _ hslot
  have hbegun : owner.phase.begun = true := by
    revert hphase
    cases owner.phase <;> first | exact fun _ => rfl | exact fun h => h
  refine ⟨ExtTreeMap.size_erase_le.trans h.bounded,
    fun id e he => h.slots id e (getElem?_erase_eq_some he), ?_, ?_, ?_, ?_, h.results⟩
  · intro id e he j arrival hj e' he'
    rcases getElem?_set_eq_some hj with ⟨rfl, rfl⟩ | ⟨-, hj⟩
    · -- two slots of one call have one identifier, and that one is erased
      obtain rfl := Option.some.inj he'
      intro hreply
      obtain ⟨other, hother, hotherId, -⟩ := h.slots id e (getElem?_erase_eq_some he)
      rw [← hreply, howner] at hother
      obtain rfl := Option.some.inj hother
      rw [← hotherId, hid, ExtTreeMap.getElem?_erase, if_pos ReflCmp.compare_self] at he
      exact absurd he (by simp)
    · exact h.untaken id e (getElem?_erase_eq_some he) j arrival hj e' he'
  · intro j arrival hj e he
    rcases getElem?_set_eq_some hj with ⟨rfl, rfl⟩ | ⟨-, hj⟩
    · obtain rfl := Option.some.inj he
      exact ⟨owner, howner, hbegun, howns, howns.expects hid hadmits⟩
    · exact h.taken j arrival hj e he
  · intro i j a b ha hb e e' he he' hreply
    rcases getElem?_set_eq_some ha with ⟨rfl, rfl⟩ | ⟨-, holdA⟩ <;>
      rcases getElem?_set_eq_some hb with ⟨rfl, rfl⟩ | ⟨-, holdB⟩
    · rfl
    · obtain rfl := Option.some.inj he
      exact absurd hreply.symm (h.untaken _ _ hslot j b holdB e' he')
    · obtain rfl := Option.some.inj he'
      exact absurd hreply (h.untaken _ _ hslot i a holdA e he)
    · exact h.once i j a b holdA holdB e e' he he' hreply
  · intro i call hcall j envelope' hrep
    obtain ⟨arrival, e, hj, hsent, hreply, henvelope⟩ := h.replies i call hcall j envelope' hrep
    have hne : k ≠ j := by
      rintro rfl
      obtain rfl := Option.some.inj (hget.symm.trans hj)
      exact absurd hsent (by simp)
    exact ⟨arrival, e, (List.getElem?_set_ne hne).trans hj, hsent, hreply, henvelope⟩

/-- A channel gets its response. -/
theorem Sound.deliver (h : Sound pending calls arrivals) {arrival : Arrival}
    (hget : arrivals[k]? = some arrival) (hsent : arrival.phase = .sent entry)
    (hcall : calls[entry.reply]? = some call) (hopen : call.phase.receiving = true) :
    Sound pending (calls.set entry.reply { call with reply := some (k, arrival.envelope) })
      arrivals := by
  obtain ⟨hlt, -⟩ := List.getElem?_eq_some_iff.mp hcall
  have hfound : ∀ {j : Nat} {other : CarrierCall}, calls[j]? = some other →
      ∃ found, (calls.set entry.reply { call with reply := some (k, arrival.envelope) })[j]? =
        some found ∧
        found.route = other.route ∧ found.session = other.session ∧
        found.requestId = other.requestId ∧
        found.phase = other.phase ∧ found.expectedKind = other.expectedKind := by
    intro j other hj
    by_cases hi : entry.reply = j
    · subst hi
      obtain rfl := Option.some.inj (hcall.symm.trans hj)
      exact ⟨_, List.getElem?_set_self hlt, rfl, rfl, rfl, rfl, rfl⟩
    · exact ⟨other, (List.getElem?_set_ne hi).trans hj, rfl, rfl, rfl, rfl, rfl⟩
  refine ⟨h.bounded, ?_, h.untaken, ?_, h.once, ?_, ?_⟩
  · intro id e he
    obtain ⟨owner, howner, hid, hphase, howns⟩ := h.slots id e he
    obtain ⟨found, hfind, hroute, hsession, hrequest, hphases, hkind⟩ := hfound howner
    exact ⟨found, hfind, hrequest.trans hid, hphases ▸ hphase, hroute ▸ howns.transport,
      hroute ▸ howns.stableNode, hsession ▸ howns.generation, hkind ▸ howns.kind⟩
  · intro j other hj e he
    obtain ⟨owner, howner, hphase, howns, hexpects⟩ := h.taken j other hj e he
    obtain ⟨found, hfind, hroute, hsession, hrequest, hphases, hkind⟩ := hfound howner
    exact ⟨found, hfind, hphases ▸ hphase, ⟨hroute ▸ howns.transport, hroute ▸ howns.stableNode,
      hsession ▸ howns.generation, hkind ▸ howns.kind⟩, hrequest ▸ hexpects.requestId,
      hroute ▸ hexpects.transport, hroute ▸ hexpects.stableNode, hsession ▸ hexpects.generation,
      hkind ▸ hexpects.kind⟩
  · intro i other hi j envelope hrep
    rcases getElem?_set_eq_some hi with ⟨rfl, rfl⟩ | ⟨-, hi⟩
    · obtain ⟨rfl, rfl⟩ := Prod.mk.inj (Option.some.inj hrep)
      exact ⟨arrival, entry, hget, hsent, rfl, rfl⟩
    · exact h.replies i other hi j envelope hrep
  · intro i other hi envelope hres
    rcases getElem?_set_eq_some hi with ⟨rfl, rfl⟩ | ⟨-, hi⟩
    · exact absurd (hopen.symm.trans (h.results _ call hcall envelope hres).1) (by simp)
    · exact h.results i other hi envelope hres

/-- A call that has not entered has no slot and no response. -/
theorem Sound.free (h : Sound pending calls arrivals) (hget : calls[i]? = some call)
    (hphase : call.phase.begun = false) (k : Nat) (arrival : Arrival)
    (hk : arrivals[k]? = some arrival)
    (e : PendingReply) (he : arrival.entry = some e) : e.reply ≠ i := by
  rintro rfl
  obtain ⟨owner, howner, hbegun, -⟩ := h.taken k arrival hk e he
  obtain rfl := Option.some.inj (hget.symm.trans howner)
  exact absurd (hbegun.symm.trans hphase) (by simp)

/-- A call goes on to a phase in which it is still registered. -/
theorem Sound.advance (h : Sound pending calls arrivals) (hget : calls[i]? = some call)
    {phase : CallPhase} (hphase : phase.registered = true)
    (hresult : ∀ envelope, phase.result = some (.ok envelope) →
      phase.receiving = false ∧ ∃ k, call.reply = some (k, envelope)) :
    Sound pending (calls.set i { call with phase }) arrivals := by
  refine h.move hget rfl rfl rfl (fun _ => ⟨rfl, ?_⟩) (fun _ => .inl hphase) rfl hresult
  revert hphase
  cases phase <;> first | exact fun _ => rfl | exact fun h => h

/-! ## Runs -/

namespace CarrierSystem

def Matched (s : CarrierSystem) : Prop := Sound s.carrier.pending s.calls s.arrivals

variable {s : CarrierSystem}

theorem matched_request (h : s.Matched) (route : BudgetPeerRoute)
    (kind expectedKind : BudgetRaftMessageKind)
    (payload : List UInt8) (registry : Option PeerStreamRegistry) (valid : Bool) :
    (s.request route kind expectedKind payload registry valid).1.Matched := by
  unfold request
  split
  · exact h
  · split
    · exact h
    · split
      · exact h
      · split
        · exact h
        · exact h.addCall rfl rfl

theorem matched_draw (h : s.Matched) (hget : s.calls[i]? = some call)
    (hphase : call.phase = .drawing) : (s.draw i call).Matched := by
  unfold draw
  dsimp only
  split
  · refine Sound.move h hget rfl rfl rfl (fun hbegun => ?_) (fun hregistered => ?_)
      rfl fun _ hresult => ?_
    · exact absurd (hphase ▸ hbegun) (by decide)
    · exact absurd (hphase ▸ hregistered) (by decide)
    · exact absurd hresult (by simp [CallPhase.result])
  · exact h

theorem matched_enter (h : s.Matched) (hget : s.calls[i]? = some call)
    (hphase : call.phase = .entering) : (s.enter i call).1.Matched := by
  have hbegun : call.phase.begun = false := by rw [hphase]; rfl
  have hmove : ∀ phase : CallPhase,
      phase.result = some (.unavailable "budget carrier pending reply limit reached") ∨
      phase.result = none →
      Sound s.carrier.pending (s.calls.set i { call with phase }) s.arrivals := by
    intro phase hphase'
    refine Sound.move h hget rfl rfl rfl (fun hb => absurd (hb.symm.trans hbegun) (by simp))
      (fun hr => ?_) rfl fun envelope hresult => ?_
    · rw [hphase] at hr
      exact absurd hr (by decide)
    · rcases hphase' with hp | hp
      · exact absurd (hp.symm.trans hresult) (by simp)
      · exact absurd (hp.symm.trans hresult) (by simp)
  unfold enter
  split
  · exact hmove _ (.inl rfl)
  · rename_i hroom
    have hlt := (List.getElem?_eq_some_iff.mp hget).1
    have hself : ∀ entered : CarrierCall, (s.calls.set i entered)[i]? = some entered :=
      fun _ => List.getElem?_set_self hlt
    have hsending := hself { call with phase := .sending }
    exact Sound.enter (hmove .sending (.inr rfl)) hsending rfl rfl ⟨rfl, rfl, rfl, rfl⟩
      rfl (not_le.mp hroom) (h.free hget hbegun)

theorem pollReceiver_ok (h : s.pollReceiver i call = some (.ok envelope)) :
    ∃ k, call.reply = some (k, envelope) := by
  unfold pollReceiver at h
  split at h
  · rename_i k other hreply
    cases h
    exact ⟨k, hreply⟩
  · split at h
    · cases h
    · cases h

variable {result : CallResult}

theorem matched_close (h : s.Matched) (hget : s.calls[i]? = some call)
    (hresult : ∀ envelope, result = .ok envelope → ∃ k, call.reply = some (k, envelope)) :
    (s.setPhase i call (.closing result false)).Matched :=
  Sound.advance h hget rfl fun envelope hok => ⟨rfl, hresult envelope (Option.some.inj hok)⟩

theorem matched_fail (h : s.Matched) (hget : s.calls[i]? = some call) (message : String)
    (receiving : Bool) : (s.setPhase i call (.closing (.unavailable message) receiving)).Matched :=
  Sound.advance h hget rfl fun _ hok => absurd (Option.some.inj hok) (by simp)

theorem matched_cleanup (h : s.Matched) (hget : s.calls[i]? = some call) {receiving : Bool}
    (hphase : call.phase = .closing result receiving) : (s.cleanup i call result).1.Matched := by
  have hempty : ∀ (id : UInt64) entry, (s.carrier.pending.erase call.requestId)[id]? = some entry →
      entry.reply ≠ i := by
    rintro id entry hslot rfl
    obtain ⟨owner, howner, hid, -⟩ := h.slots id entry (getElem?_erase_eq_some hslot)
    obtain rfl := Option.some.inj (hget.symm.trans howner)
    rw [hid, ExtTreeMap.getElem?_erase, if_pos ReflCmp.compare_self] at hslot
    exact absurd hslot (by simp)
  refine Sound.move (Sound.erase h call.requestId) hget rfl rfl rfl (fun _ => ⟨rfl, rfl⟩)
    (fun _ => .inr hempty) rfl fun envelope hok => ⟨rfl, ?_⟩
  have hresult : call.phase.result = some (.ok envelope) := by
    rw [hphase]
    exact hok
  exact (h.results i call hget envelope hresult).2

theorem matched_callStep (h : s.Matched) (hget : s.calls[i]? = some call) (event : CallEvent) :
    (s.callStep i call event).1.Matched := by
  unfold callStep
  split
  · exact matched_draw h hget ‹_›
  · exact matched_enter h hget ‹_›
  · unfold send
    split
    · exact matched_fail h hget _ _
    · exact Sound.advance h hget rfl fun _ hok => absurd hok (by simp [CallPhase.result])
  · unfold subscribe
    split
    · exact matched_fail h hget _ _
    · exact Sound.advance h hget rfl fun _ hok => absurd hok (by simp [CallPhase.result])
  · unfold poll
    split
    · rename_i result hpoll
      exact matched_close h hget fun envelope hok => pollReceiver_ok (hok ▸ hpoll)
    · exact h
  · refine matched_close h hget fun envelope hok => ?_
    cases hpoll : s.pollReceiver i call with
    | none =>
      rw [hpoll] at hok
      exact absurd hok (by simp)
    | some result =>
      rw [hpoll] at hok
      exact pollReceiver_ok (hpoll.trans (congrArg some hok))
  · exact matched_fail h hget _ _
  · split
    · exact matched_fail h hget _ _
    · exact h
  · exact matched_close h hget fun _ hok => absurd hok (by simp)
  · exact matched_cleanup h hget ‹_›
  · exact h

theorem matched_acceptEnvelope (h : s.Matched) (session : BudgetSession)
    (envelope : BudgetRaftEnvelope)
    (valid : Bool) : (s.acceptEnvelope session envelope valid).Matched := by
  unfold acceptEnvelope
  split
  · exact h
  · split
    · refine Sound.rearrange h (fun k arrival hget _ _ => ?_) fun k arrival' hget e he => ?_
      · exact (List.getElem?_append_left (List.getElem?_eq_some_iff.mp hget).1).trans hget
      · rcases Nat.lt_or_ge k s.arrivals.length with hlt | hge
        · exact ⟨arrival', (List.getElem?_append_left hlt).symm.trans hget, he, rfl, rfl⟩
        · rw [List.getElem?_append_right hge] at hget
          obtain rfl := List.mem_singleton.mp (List.mem_of_getElem? hget)
          exact absurd he (by simp [Arrival.entry])
    · split
      · exact h
      · exact h

/-- A response goes from one phase to the next with the slot that it has, or without one. -/
theorem matched_setArrival (h : s.Matched) {arrival : Arrival}
    (hget : s.arrivals[k]? = some arrival)
    {phase : ArrivalPhase} (hunsent : ∀ e, arrival.phase ≠ .sent e)
    (hentry : ∀ e, ({ arrival with phase } : Arrival).entry = some e → arrival.entry = some e) :
    (s.setArrival k arrival phase).Matched := by
  refine Sound.rearrange h (fun j other hj e hsent => ?_) fun j other hj e he => ?_
  · have hne : k ≠ j := by
      rintro rfl
      obtain rfl := Option.some.inj (hget.symm.trans hj)
      exact hunsent e hsent
    exact (List.getElem?_set_ne hne).trans hj
  · rcases getElem?_set_eq_some hj with ⟨rfl, rfl⟩ | ⟨-, hj⟩
    · exact ⟨arrival, hget, hentry e he, rfl, rfl⟩
    · exact ⟨other, hj, he, rfl, rfl⟩

theorem matched_respondStep (h : s.Matched) (k : Nat) : (s.respondStep k).Matched := by
  unfold respondStep
  split
  · rename_i session envelope hget
    unfold respond
    rcases acceptResponse_cases s.carrier.pending session envelope with
      ⟨entry, hslot, hadmits, haccept⟩ | ⟨-, haccept⟩
    · rw [haccept]
      exact Sound.take h hget hslot hadmits
    · rw [haccept]
      exact matched_setArrival h hget (fun e => by simp) fun e he =>
        absurd he (by simp [Arrival.entry])
  · exact h

theorem matched_forwardStep (h : s.Matched) (k : Nat) : (s.forwardStep k).Matched := by
  unfold forwardStep
  split
  · rename_i session envelope entry hget
    have hsent : (s.setArrival k ⟨session, envelope, .taken entry⟩ (.sent entry)).Matched :=
      matched_setArrival h hget (fun e => by simp) fun e he => he
    have hself := List.getElem?_set_self (a := Arrival.mk session envelope (.sent entry))
      (List.getElem?_eq_some_iff.mp hget).1
    unfold forward
    dsimp only
    split
    · rename_i call hcall
      split
      · rename_i hopen
        exact Sound.deliver hsent hself rfl hcall hopen
      · exact hsent
    · exact hsent
  · exact h

theorem matched_step (event : CarrierEvent) (h : s.Matched) : (s.step event).1.Matched := by
  cases event with
  | request route kind expectedKind payload registry valid =>
    exact matched_request h route kind expectedKind payload registry valid
  | call i event =>
    unfold step
    dsimp only
    split
    · exact matched_callStep h ‹_› event
    · exact h
  | receive session envelope valid => exact matched_acceptEnvelope h session envelope valid
  | respond k => exact matched_respondStep h k
  | forward k => exact matched_forwardStep h k
  | served => exact h
  | stop => exact h
  | clear =>
    unfold step
    dsimp only
    split
    · have hsize : (∅ : ExtTreeMap UInt64 PendingReply).size ≤ s.carrier.pending.size :=
        ExtTreeMap.size_empty.trans_le (Nat.zero_le _)
      have hnone : ∀ (id : UInt64) entry, (∅ : ExtTreeMap UInt64 PendingReply)[id]? = some entry →
          s.carrier.pending[id]? = some entry := fun id entry hslot => absurd hslot (by simp)
      exact Sound.shrink h hsize hnone
    · exact h

theorem matched_after (config : BudgetClusterConfig) (localSender : StableNodeId)
    (events : List CarrierEvent) : (after config localSender events).Matched :=
  run_invariant (P := Matched) (fun _ event => matched_step event) (fresh config localSender)
    sound_fresh events

/-- The calls of which one is set to another, of which a response is asked. -/
theorem ok_of_set {i j : Nat} {call call' c c' : CarrierCall}
    (hget : calls[i]? = some call)
    (hold : calls[j]? = some c) (hnew : (calls.set i call')[j]? = some c')
    (hok : c'.phase.result = some (.ok envelope))
    (hstep : call'.phase.result = some (.ok envelope) →
      call.phase.result = some (.ok envelope) ∨ call.phase = .waiting) :
    c.phase.result = some (.ok envelope) ∨ c.phase = .waiting := by
  rcases getElem?_set_eq_some hnew with ⟨rfl, rfl⟩ | ⟨-, hsame⟩
  · obtain rfl := Option.some.inj (hget.symm.trans hold)
    exact hstep hok
  · obtain rfl := Option.some.inj (hsame.symm.trans hold)
    exact .inl hok

theorem waiting_of_callStep (event : CallEvent) {i j : Nat} {call c c' : CarrierCall}
    (hget : s.calls[i]? = some call) (hold : s.calls[j]? = some c)
    (hnew : (s.callStep i call event).1.calls[j]? = some c')
    (hok : c'.phase.result = some (.ok envelope)) :
    c.phase.result = some (.ok envelope) ∨ c.phase = .waiting := by
  have hsame : s.calls[j]? = some c' → c.phase.result = some (.ok envelope) ∨ c.phase = .waiting :=
    fun h =>
    .inl (Option.some.inj (h.symm.trans hold) ▸ hok)
  have hnone : ∀ call' : CarrierCall, call'.phase.result = none →
      (s.calls.set i call')[j]? = some c' →
      c.phase.result = some (.ok envelope) ∨ c.phase = .waiting := fun call' hresult h =>
    ok_of_set hget hold h hok fun hok' => absurd (hresult.symm.trans hok') (by simp)
  have hfail : ∀ (call' : CarrierCall) (message : String),
      call'.phase.result = some (.unavailable message) →
      (s.calls.set i call')[j]? = some c' →
      c.phase.result = some (.ok envelope) ∨ c.phase = .waiting :=
    fun call' message hresult h =>
      ok_of_set hget hold h hok fun hok' => absurd (hresult.symm.trans hok') (by simp)
  have hwait : ∀ call' : CarrierCall, call.phase = .waiting → (s.calls.set i call')[j]? = some c' →
      c.phase.result = some (.ok envelope) ∨ c.phase = .waiting := fun call' hphase h =>
    ok_of_set hget hold h hok fun _ => .inr hphase
  unfold callStep at hnew
  split at hnew
  · unfold draw at hnew
    dsimp only at hnew
    split at hnew
    · exact hnone _ rfl hnew
    · exact hsame hnew
  · unfold enter at hnew
    split at hnew
    · exact hfail _ _ rfl hnew
    · exact hnone _ rfl hnew
  · unfold send at hnew
    split at hnew
    · exact hfail _ _ rfl hnew
    · exact hnone _ rfl hnew
  · unfold subscribe at hnew
    split at hnew
    · exact hfail _ _ rfl hnew
    · exact hnone _ rfl hnew
  · unfold poll at hnew
    split at hnew
    · exact hwait _ ‹_› hnew
    · exact hsame hnew
  · exact hwait _ ‹_› hnew
  · exact hwait _ ‹_› hnew
  · split at hnew
    · exact hwait _ ‹_› hnew
    · exact hsame hnew
  · exact hwait _ ‹_› hnew
  · rename_i result receiving hphase
    refine ok_of_set hget hold hnew hok fun hok' => .inl ?_
    rw [hphase]
    exact hok'
  · exact hsame hnew

/-- A call comes by a response only while it waits for one. -/
theorem waiting_of_ok (event : CarrierEvent) {call call' : CarrierCall}
    (hold : s.calls[i]? = some call)
    (hnew : (s.step event).1.calls[i]? = some call')
    (hok : call'.phase.result = some (.ok envelope)) :
    call.phase.result = some (.ok envelope) ∨ call.phase = .waiting := by
  have hsame : s.calls[i]? = some call' → call.phase.result = some (.ok envelope) ∨
      call.phase = .waiting := fun h =>
    .inl (Option.some.inj (h.symm.trans hold) ▸ hok)
  have hlt := (List.getElem?_eq_some_iff.mp hold).1
  cases event with
  | request route kind expectedKind payload registry valid =>
    unfold step request at hnew
    dsimp only at hnew
    split at hnew
    · exact hsame hnew
    · split at hnew
      · exact hsame hnew
      · split at hnew
        · exact hsame hnew
        · split at hnew
          · exact hsame hnew
          · exact hsame ((List.getElem?_append_left hlt).symm.trans hnew)
  | call j event =>
    unfold step at hnew
    dsimp only at hnew
    split at hnew
    · exact waiting_of_callStep event ‹_› hold hnew hok
    · exact hsame hnew
  | receive session envelope valid =>
    unfold step acceptEnvelope at hnew
    dsimp only at hnew
    refine hsame ?_
    split at hnew
    · exact hnew
    · split at hnew
      · exact hnew
      · split at hnew
        · exact hnew
        · exact hnew
  | respond k =>
    unfold step respondStep respond at hnew
    dsimp only at hnew
    refine hsame ?_
    split at hnew
    · split at hnew
      · exact hnew
      · exact hnew
    · exact hnew
  | forward k =>
    unfold step forwardStep forward at hnew
    dsimp only at hnew
    split at hnew
    · split at hnew
      · rename_i call hcall
        have hget : s.calls[_]? = some call := hcall
        split at hnew
        · exact ok_of_set hget hold hnew hok fun hok' => .inl hok'
        · exact hsame hnew
      · exact hsame hnew
    · exact hsame hnew
  | served => exact hsame hnew
  | stop => exact hsame hnew
  | clear =>
    unfold step at hnew
    dsimp only at hnew
    refine hsame ?_
    split at hnew
    · exact hnew
    · exact hnew

/-- A response under the lock takes the slot of the call that expects it, or leaves everything but
itself. -/
theorem respond_cases (h : s.Matched) (hget : s.arrivals[k]? = some ⟨session, envelope, .checked⟩) :
    (∃ entry call, s.carrier.pending[envelope.requestId]? = some entry ∧
      s.calls[entry.reply]? = some call ∧
        call.phase.registered = true ∧ call.Expects session envelope ∧
        (s.step (.respond k)).1 =
          { s.setPending (s.carrier.pending.erase envelope.requestId) with
            arrivals := s.arrivals.set k ⟨session, envelope, .taken entry⟩ }) ∨
      ((∀ entry call, s.carrier.pending[envelope.requestId]? = some entry →
        s.calls[entry.reply]? = some call →
          ¬ call.Expects session envelope) ∧
        (s.step (.respond k)).1 =
          { s with arrivals := s.arrivals.set k ⟨session, envelope, .refused⟩ }) := by
  have hstep : (s.step (.respond k)).1 = s.respond k ⟨session, envelope, .checked⟩ := by
    unfold step respondStep
    dsimp only
    rw [hget]
  rw [hstep]
  unfold respond
  rcases acceptResponse_cases s.carrier.pending session envelope with
    ⟨entry, hslot, hadmits, haccept⟩ | ⟨hrefused, haccept⟩
  · obtain ⟨call, hcall, hid, hphase, howns⟩ := h.slots _ entry hslot
    refine .inl ⟨entry, call, hslot, hcall, hphase, howns.expects hid hadmits, ?_⟩
    rw [haccept]
    rfl
  · refine .inr ⟨fun entry call hslot hcall hexpects => ?_, ?_⟩
    · obtain ⟨owner, howner, -, -, howns⟩ := h.slots _ entry hslot
      obtain rfl := Option.some.inj (hcall.symm.trans howner)
      exact absurd ((howns.admits hexpects).symm.trans (hrefused entry hslot)) (by simp)
    · rw [haccept]
      rfl

/-- **A response reaches the one request that expects it while it waits, and any other changes
nothing.** -/
theorem responses_are_matched (config : BudgetClusterConfig) (localSender : StableNodeId)
    (events : List CarrierEvent) :
    let s := after config localSender events
    s.carrier.pending.size ≤ maxPending ∧
    (∀ (k : Nat) session envelope, s.arrivals[k]? = some ⟨session, envelope, .checked⟩ →
      (∃ entry call, s.carrier.pending[envelope.requestId]? = some entry ∧
        s.calls[entry.reply]? = some call ∧
        call.phase.registered = true ∧ call.Expects session envelope ∧
        (s.step (.respond k)).1 =
          { s.setPending (s.carrier.pending.erase envelope.requestId) with
            arrivals := s.arrivals.set k ⟨session, envelope, .taken entry⟩ }) ∨
      ((∀ entry call, s.carrier.pending[envelope.requestId]? = some entry →
        s.calls[entry.reply]? = some call →
          ¬ call.Expects session envelope) ∧
        (s.step (.respond k)).1 =
          { s with arrivals := s.arrivals.set k ⟨session, envelope, .refused⟩ })) ∧
    (∀ (k : Nat) arrival entry, s.arrivals[k]? = some arrival → arrival.entry = some entry →
      ∃ call, s.calls[entry.reply]? = some call ∧ call.Expects arrival.session arrival.envelope) ∧
    (∀ (j k : Nat) a b e e', s.arrivals[j]? = some a → s.arrivals[k]? = some b → a.entry = some e →
      b.entry = some e' → e.reply = e'.reply → j = k) ∧
    (∀ (i : Nat) call envelope, s.calls[i]? = some call → call.phase.result = some (.ok envelope) →
      ∃ (k : Nat) (arrival : Arrival) (entry : PendingReply), s.arrivals[k]? = some arrival ∧
        arrival.phase = .sent entry ∧ entry.reply = i ∧ arrival.envelope = envelope) ∧
    ∀ event (i : Nat) call call' envelope, s.calls[i]? = some call →
    (s.step event).1.calls[i]? = some call' →
      call'.phase.result = some (.ok envelope) →
        call.phase.result = some (.ok envelope) ∨ call.phase = .waiting := by
  intro s
  have h : s.Matched := matched_after config localSender events
  refine ⟨h.bounded, fun k session envelope => respond_cases h,
    fun k arrival entry hget hentry => ?_, fun j k a b e e' ha hb => h.once j k a b ha hb e e',
    fun i call envelope hget hresult => ?_, fun event i call call' envelope => waiting_of_ok event⟩
  · obtain ⟨call, hcall, -, -, hexpects⟩ := h.taken k arrival hget entry hentry
    exact ⟨call, hcall, hexpects⟩
  · obtain ⟨-, k, hreply⟩ := h.results i call hget envelope hresult
    obtain ⟨arrival, entry, hrest⟩ := h.replies i call hget k envelope hreply
    exact ⟨k, arrival, entry, hrest⟩

end CarrierSystem

end Neoth.BudgetRaft
