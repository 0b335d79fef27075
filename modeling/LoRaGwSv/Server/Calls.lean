import LoRaGwSv.Server.Frames
import LoRaGwSv.Server.InputMsgHandler
import LoRaGwSv.Server.Loads

/-!
# Server/Calls — the states of the server

What changes the state of the server are the calls of its phases (`FrameOp`) and the uplinks it
handles.  A message that is handled out of bounds ends a run.  In
every state a run reaches NODES and the schedule agree and the groups are in order and counted
(`Reachable.inv`); a message changes nothing of a group but how often its entries are still to be
distributed (`SchList.outline`).
-/

namespace LoRaGwSv

/-- One call. -/
inductive Call
  | frame (op : FrameOp)
  | uplink (msg : MsgInfo)
deriving DecidableEq, Repr

/-- What a call does; a message that is handled out of bounds ends the run. -/
def Call.step (p : MacParams) (s : InputState) : Call → Option InputState
  | .frame op => (op.step p s.mac).map fun mac => { s with mac := mac }
  | .uplink msg => inputMsgHandler s msg

/-- The server before its first call. -/
def serverStart (p : MacParams) : InputState := ⟨twohopLoRaMacInit p, wsAppInit⟩

/-- The calls so far lead here. -/
def Reachable (p : MacParams) (s : InputState) : Prop :=
  ∃ calls, Runs.run (Call.step p) (serverStart p) calls = some s

/-- A group but for how often its entries are to be distributed. -/
def SchList.outline (list : SchList) : SchList :=
  { list with nodes := list.nodes.map fun n => { n with nboSchDist := 0 }, nboDistReq := 0 }

/-- The groups but for that. -/
def outlines (S : List SchList) : List SchList := S.map SchList.outline

variable {p : MacParams} {s t : Mac} {list : SchList} {S : List SchList} {lst : MngtNodeList}

/-! ## Messages keep the outline

A message counts down how often entries are still to be distributed.  It moves no entry and changes
no demand, so all that is known of order and counts stays true. -/

/-- Setting how often an entry is to be distributed keeps the outline. -/
@[simp] theorem outline_smNodeSetNboSchDist (list : SchList) (addr : UInt16) (k : UInt8) :
    (smNodeSetNboSchDist list addr k).outline = list.outline := by
  have hnodes : (Keyed.update SchNode.addr addr (fun n => { n with nboSchDist := k.toUInt16 })
        list.nodes).map (fun n => { n with nboSchDist := 0 })
      = list.nodes.map fun n => { n with nboSchDist := 0 } := Keyed.map_update fun _ _ => rfl
  rw [smNodeSetNboSchDist]
  split
  · rfl
  · exact congrArg (fun nodes => SchList.mk nodes _ _ _ _ 0) hnodes

/-- A group with the same outline may be written. -/
theorem outlines_set {i : ℕ} {list' : SchList} (hi : S[i]? = some list)
    (h : list'.outline = list.outline) : outlines (S.set i list') = outlines S :=
  Keyed.map_set_of_eq hi h

/-- The loop of a scheduling message sets that number, entry by entry. -/
theorem outline_smLoop (NODES : MngtNodeList) : ∀ (nboNodes : ℕ) (nodes : List SchNode)
    (w : Payload) (list : SchList) (addInfo : UInt8) {r : Payload × SchList × UInt8},
    smLoop NODES nboNodes nodes w list addInfo = some r → r.2.1.outline = list.outline := by
  intro nboNodes
  induction nboNodes with
  | zero =>
    intro nodes w list addInfo r h
    rw [smLoop] at h
    rw [← Option.some.inj h]
  | succ nboNodes ih =>
    intro nodes w list addInfo r h
    cases nodes with
    | nil => exact absurd h (by simp [smLoop])
    | cons schNode rest =>
      rw [smLoop] at h
      exact (ih _ _ _ _ h).trans (outline_smNodeSetNboSchDist _ _ _)

/-- **A scheduling message** changes no outline, and nothing but the groups. -/
theorem outlines_prepareSm {w : Payload} {seq : UInt16} {addInfo : UInt8}
    {r : MsgInfo × UInt8 × Mac} (h : prepareSm s w seq addInfo = some r) :
    outlines r.2.2.SCHEDULES = outlines s.SCHEDULES ∧ r.2.2.NODES = s.NODES := by
  rw [prepareSm] at h
  dsimp only at h
  split at h
  case h_1 => rw [← Option.some.inj h]; exact ⟨rfl, rfl⟩
  case h_2 list hlist =>
    split at h
    case h_1 => rw [← Option.some.inj h]; exact ⟨rfl, rfl⟩
    case h_2 =>
      obtain ⟨q, hq, rfl⟩ := Option.map_eq_some_iff.mp h
      exact ⟨outlines_set hlist (outline_smLoop _ _ _ _ _ _ hq), rfl⟩

theorem outline_usiLoop (NODES : MngtNodeList) (grpIndex : ℕ) : ∀ (nodes : List SchNode)
    (nboRelays : UInt8) (w : Payload) (list : SchList) {r : UInt8 × Payload × SchList},
    usiLoop NODES grpIndex nodes nboRelays w list = some r → r.2.2.outline = list.outline := by
  intro nodes
  induction nodes with
  | nil =>
    intro nboRelays w list r h
    rw [← Option.some.inj h]
  | cons schNode rest ih =>
    intro nboRelays w list r h
    rw [usiLoop] at h
    split at h
    · rw [← Option.some.inj h]
    · split at h
      · obtain ⟨w', -, hrest⟩ := Option.bind_eq_some_iff.mp h
        exact (ih _ _ _ hrest).trans (outline_smNodeSetNboSchDist _ _ _)
      · exact ih _ _ _ h

theorem outlines_usiGroups (NODES : MngtNodeList) : ∀ (S : List SchList) (grpIndex : ℕ)
    (nboRelays : UInt8) (w : Payload) {r : Payload × List SchList},
    usiGroups NODES grpIndex S nboRelays w = some r → outlines r.2 = outlines S := by
  intro S
  induction S with
  | nil =>
    intro grpIndex nboRelays w r h
    rw [← Option.some.inj h]
  | cons list lists ih =>
    intro grpIndex nboRelays w r h
    rw [usiGroups] at h
    obtain ⟨x, hx, hrest⟩ := Option.bind_eq_some_iff.mp h
    obtain ⟨q, hq, rfl⟩ := Option.map_eq_some_iff.mp hrest
    exact congrArg₂ List.cons (outline_usiLoop _ _ _ _ _ _ hx) (ih _ _ _ hq)

/-- **A command message** changes no outline, and nothing but the groups. -/
theorem outlines_prepareCm {w : Payload} {seq : UInt16} {r : MsgInfo × Mac}
    (h : prepareCm s w seq = some r) :
    outlines r.2.SCHEDULES = outlines s.SCHEDULES ∧ r.2.NODES = s.NODES := by
  rw [prepareCm] at h
  dsimp only at h
  split at h
  · obtain ⟨q, hq, rfl⟩ := Option.map_eq_some_iff.mp h
    exact ⟨outlines_usiGroups _ _ _ _ _ hq, rfl⟩
  · rw [← Option.some.inj h]
    exact ⟨rfl, rfl⟩

/-- The slots of SCH1 change no outline, and nothing but the groups. -/
theorem outlines_sch1Loop : ∀ (n sch1Cnt : ℕ) (s : Mac) (dlMsg : MsgInfo) (sch2Sslot : UInt8)
    {r : List MsgInfo × UInt8 × Mac}, sch1Loop p n sch1Cnt s dlMsg sch2Sslot = some r →
    outlines r.2.2.SCHEDULES = outlines s.SCHEDULES ∧ r.2.2.NODES = s.NODES := by
  intro n
  induction n with
  | zero =>
    intro sch1Cnt s dlMsg sch2Sslot r h
    rw [← Option.some.inj h]
    exact ⟨rfl, rfl⟩
  | succ n ih =>
    intro sch1Cnt s dlMsg sch2Sslot r h
    rw [sch1Loop] at h
    obtain ⟨x, hx, hrest⟩ := Option.bind_eq_some_iff.mp h
    obtain ⟨q, hq, rfl⟩ := Option.map_eq_some_iff.mp hrest
    obtain ⟨hout, hnodes⟩ := outlines_prepareSm hx
    obtain ⟨hout', hnodes'⟩ := ih _ _ _ _ hq
    exact ⟨hout'.trans hout, hnodes'.trans hnodes⟩

/-! ## Each call keeps the groups in order and counted -/

/-- Order and counts are told by the outline. -/
theorem held_outline : list.outline.Held ↔ list.Held := by
  have hslots : list.outline.slots = list.slots := by
    rw [SchList.slots, SchList.slots, SchList.outline, List.map_map]
    rfl
  have hascending : list.outline.nodes.Pairwise (fun a b => a.startLSI.toNat ≤ b.startLSI.toNat) ↔
      list.nodes.Pairwise fun a b => a.startLSI.toNat ≤ b.startLSI.toNat := by
    rw [SchList.outline, List.pairwise_map]
  constructor
  · intro h
    exact ⟨hascending.mp h.ascending, h.nboAsgSlots_eq.trans (congrArg _ hslots)⟩
  · intro h
    exact ⟨hascending.mpr h.ascending, h.nboAsgSlots_eq.trans (congrArg _ hslots).symm⟩

/-- So what keeps the outlines keeps the groups in order and counted. -/
theorem held_of_outlines {S' : List SchList} (h : outlines S' = outlines S)
    (hS : ∀ list ∈ S, list.Held) : ∀ list ∈ S', list.Held := by
  intro list hlist
  have hmem : list.outline ∈ outlines S := h ▸ List.mem_map_of_mem hlist
  obtain ⟨list', hlist', heq⟩ := List.mem_map.mp hmem
  rw [← held_outline, ← heq, held_outline]
  exact hS list' hlist'

/-- The slots of its address are all a registration touches of the groups. -/
theorem schedules_addNodeToNodeList {lst : NodeListRef} {n : MngtNode} {r : Bool × Mac}
    (h : addNodeToNodeList s lst n = some r) : r.2.SCHEDULES = s.SCHEDULES ∨
      r.2.SCHEDULES = (removeNodeFromSchedule s n.addr).SCHEDULES := by
  rw [addNodeToNodeList.eq_def] at h
  split at h
  case h_1 =>
    rw [← Option.some.inj h]
    exact Or.inl rfl
  case h_2 =>
    split at h
    case h_1 =>
      obtain ⟨NODES, -, rfl⟩ := Option.map_eq_some_iff.mp h
      exact Or.inl rfl
    case h_2 =>
      rw [← Option.some.inj h]
      exact Or.inr rfl

theorem held_addNodeToNodeList {lst : NodeListRef} {n : MngtNode} {r : Bool × Mac}
    (h : addNodeToNodeList s lst n = some r) (hs : ∀ list ∈ s.SCHEDULES, list.Held) :
    ∀ list ∈ r.2.SCHEDULES, list.Held := by
  rcases schedules_addNodeToNodeList h with heq | heq
  · rwa [heq]
  · rw [heq]
    exact List.forall_mem_map.mpr fun list hlist => (hs list hlist).smRemoveOneNode n.addr

theorem held_takeWaiting (h : takeWaiting s = some t) (hs : ∀ list ∈ s.SCHEDULES, list.Held) :
    ∀ list ∈ t.SCHEDULES, list.Held := by
  rw [takeWaiting] at h
  split at h
  case h_1 =>
    obtain ⟨r, hr, rfl⟩ := Option.map_eq_some_iff.mp h
    exact held_addNodeToNodeList hr hs
  case h_2 => rwa [← Option.some.inj h]

theorem held_rnlLoop (i : ℕ) : ∀ {s : Mac} {w : Payload} {r : Mac × Payload},
    rnlLoop i s w = some r → (∀ list ∈ s.SCHEDULES, list.Held) →
      ∀ list ∈ r.1.SCHEDULES, list.Held := by
  induction i with
  | zero =>
    intro s w r h hs
    rwa [← Option.some.inj h]
  | succ i ih =>
    intro s w r h hs
    obtain ⟨w', hw'⟩ := rnlLoop_succ i s w
    rw [hw'] at h
    obtain ⟨t, ht, hrest⟩ := Option.bind_eq_some_iff.mp h
    exact ih hrest (held_takeWaiting ht hs)

/-- NODES and the schedule agree, and the groups are in order and counted. -/
structure Mac.Inv (p : MacParams) (s : Mac) : Prop where
  inOrder : s.InOrder p
  held : ∀ list ∈ s.SCHEDULES, list.Held

/-- **Each call of a phase keeps the groups in order and counted.** -/
theorem Mac.Inv.frame (h : s.Inv p) {op : FrameOp} (hstep : op.step p s = some t) : t.Inv p := by
  obtain ⟨u, hu, hin⟩ := h.inOrder.step op
  obtain rfl : u = t := Option.some.inj (hu.symm.trans hstep)
  refine ⟨hin, ?_⟩
  clear hin hu
  cases op with
  | mac op =>
    cases op with
    | register r =>
      obtain ⟨q, hq, rfl⟩ := Option.map_eq_some_iff.mp hstep
      exact held_addNodeToNodeList hq h.held
    | schedule phase => exact held_schedule h.inOrder.consistent h.held hstep
    | reset =>
      rw [← Option.some.inj hstep]
      exact List.forall_mem_map.mpr fun list _ => held_smClearSchedule list
  | request r =>
    rw [FrameOp.step] at hstep
    obtain ⟨q, hq, rfl⟩ := Option.map_eq_some_iff.mp hstep
    exact held_addNodeToNodeList hq h.held
  | dataInfo | checkDataMissed =>
    rw [← Option.some.inj hstep]
    exact h.held
  | takeWaiting => exact held_takeWaiting hstep h.held
  | registrationList dlMsg rnlIntCount netReadyFlag =>
    obtain ⟨q, hq, rfl⟩ := Option.map_eq_some_iff.mp hstep
    obtain ⟨x, hx, rfl⟩ := Option.map_eq_some_iff.mp hq
    obtain ⟨y, hy, rfl⟩ := Option.map_eq_some_iff.mp hx
    exact held_rnlLoop _ hy h.held
  | scheduleDistribution dlMsg =>
    obtain ⟨q, hq, rfl⟩ := Option.map_eq_some_iff.mp hstep
    obtain ⟨s₁, hs₁, hloop⟩ := Option.bind_eq_some_iff.mp hq
    refine held_of_outlines (outlines_sch1Loop _ _ _ _ _ hloop).1 ?_
    refine held_schedule h.inOrder.consistent.resetSchedule ?_ hs₁
    exact List.forall_mem_map.mpr fun list _ => held_smClearSchedule list
  | command dlMsg framePeriodCnt =>
    obtain ⟨q, hq, rfl⟩ := Option.map_eq_some_iff.mp hstep
    obtain ⟨x, hx, rfl⟩ := Option.map_eq_some_iff.mp hq
    exact held_of_outlines (outlines_prepareCm hx).1 h.held

/-! ## Uplinks

A request puts nodes into RNL, and data changes statistics. -/

/-- Nodes that a message asks for are as `createNewNode` makes them. -/
theorem Mac.Inv.requested (h : s.Inv p) (rs : List Registration) :
    Mac.Inv p { s with RNL := requestedRnl s.RNL rs } := by
  have hwaiting : (requestedRnl s.RNL rs).Waiting := by
    have hwait := h.inOrder.waiting
    generalize s.RNL = RNL at hwait ⊢
    induction rs generalizing RNL with
    | nil => exact hwait
    | cons r rs ih => exact ih _ (hwait.pushNode r.fresh_node)
  have hcons := h.inOrder.consistent
  exact ⟨⟨⟨hcons.sound, hcons.framed, hcons.lists, hcons.once, hcons.onehop⟩, hwaiting⟩, h.held⟩

/-- **A message that is handled keeps NODES and the schedule in order.** -/
theorem Mac.Inv.uplink {s t : InputState} (h : s.mac.Inv p) {msg : MsgInfo}
    (hstep : inputMsgHandler s msg = some t) : t.mac.Inv p := by
  rw [inputMsgHandler] at hstep
  split at hstep
  case isTrue =>
    rw [handleRequest_eq] at hstep
    obtain rfl := Option.some.inj hstep
    split
    · exact h
    · exact h.requested _
  case isFalse =>
    split at hstep
    case isTrue =>
      obtain ⟨ws_data_buf, -, rfl⟩ := Option.map_eq_some_iff.mp hstep
      exact ⟨h.inOrder.dataInfo _ _ _, h.held⟩
    case isFalse => rwa [← Option.some.inj hstep]

/-! ## Reachable states -/

theorem inv_serverStart (p : MacParams) : (serverStart p).mac.Inv p :=
  ⟨inOrder_twohopLoRaMacInit p, fun list hlist => by
    rw [List.eq_of_mem_replicate hlist]
    exact held_smInitSchedule _⟩

/-- **In every reachable state NODES and the schedule agree, and the groups are in order and
counted.** -/
theorem Reachable.inv {s : InputState} (h : Reachable p s) : s.mac.Inv p := by
  obtain ⟨calls, hrun⟩ := h
  refine Runs.inv_of_run (I := fun s : InputState => s.mac.Inv p) (fun s call t hs hstep => ?_)
    (inv_serverStart p) hrun
  cases call with
  | frame op =>
    obtain ⟨mac, hmac, rfl⟩ := Option.map_eq_some_iff.mp hstep
    exact hs.frame hmac
  | uplink msg => exact hs.uplink hstep

end LoRaGwSv
