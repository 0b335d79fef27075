import LoRaGwSv.Machinery.Runs
import LoRaGwSv.Server.Rnl
import LoRaGwSv.Server.Sm
import LoRaGwSv.Server.Usi

/-!
# Server/Frames — runs of the MAC with the messages it sends

A run of the MAC mixes registrations, calls of `schedule` and resets (`MacOp`) with the requests
that fill RNL, the loops that empty it, the data that is counted in NODES, and the three phases that
build messages.  All of them keep the MAC in order (`inOrder_frames`), so no run follows a null
pointer.
-/

namespace LoRaGwSv

/-- What the MAC does, one call at a time.  `dlMsg` is what the message buffer happens to hold. -/
inductive FrameOp
  | mac (op : MacOp)
  | request (r : Registration)
  | dataInfo (addr seq : UInt16) (isDataRelay : Bool)
  | checkDataMissed
  | takeWaiting
  | registrationList (dlMsg : MsgInfo) (rnlIntCount : UInt16) (netReadyFlag : UInt8)
  | scheduleDistribution (dlMsg : MsgInfo)
  | command (dlMsg : MsgInfo) (framePeriodCnt : UInt16)
deriving DecidableEq, Repr

/-- What a call does to the MAC; a message that it builds is sent by others. -/
def FrameOp.step (p : MacParams) (s : Mac) : FrameOp → Option Mac
  | .mac op => op.step s
  | .request r => (addNodeToNodeList s .RNL r.node).map Prod.snd
  | .dataInfo addr seq isDataRelay =>
    some { s with NODES := dmNodeUpdateDataInfo s.NODES addr seq isDataRelay }
  | .checkDataMissed => some { s with NODES := dmCheckDataMissed s.NODES }
  | .takeWaiting => LoRaGwSv.takeWaiting s
  | .registrationList dlMsg rnlIntCount netReadyFlag =>
    (prepareDownlinkMsgPayload p s dlMsg .dlRnl rnlIntCount netReadyFlag).map fun r => r.2.2
  | .scheduleDistribution dlMsg => (scheduleDistributionPhase p s dlMsg).map fun r => r.2.2
  | .command dlMsg framePeriodCnt =>
    (prepareDownlinkMsgPayload p s dlMsg .dlCm framePeriodCnt 0).map fun r => r.2.2

/-- NODES and the schedule agree, and what waits in RNL can be registered. -/
structure Mac.InOrder (p : MacParams) (s : Mac) : Prop where
  consistent : s.Consistent p
  waiting : s.RNL.Waiting

variable {p : MacParams} {s s' : Mac} {lst : MngtNodeList}

/-! ## Data that is counted

Data and its check change statistics, and no profile. -/

theorem profile_updateDataInfo (n : MngtNode) (seq : UInt16) (isDataRelay : Bool) :
    (n.updateDataInfo seq isDataRelay).profile = n.profile := by
  have htake : (n.takeSeqNo seq).profile = n.profile := by
    rw [MngtNode.takeSeqNo]
    split_ifs <;> rfl
  rw [MngtNode.updateDataInfo, MngtNode.countLink.eq_def]
  split <;> exact htake

theorem profile_checkDataMissed (n : MngtNode) : n.checkDataMissed.profile = n.profile := by
  rw [MngtNode.checkDataMissed]
  split <;> rfl

/-- What changes no profile in NODES keeps the MAC in order. -/
theorem Mac.InOrder.of_profiles (h : s.InOrder p) (hlst : lst.nodes.map MngtNode.profile
      = s.NODES.nodes.map MngtNode.profile) : Mac.InOrder p { s with NODES := lst } := by
  have hreg : lst.registry = s.NODES.registry := by
    funext a
    rw [MngtNodeList.registry, hlst, MngtNodeList.registry]
  have hcons := h.consistent
  exact ⟨⟨⟨distinct_of_profiles hlst hcons.sound.distinct, hreg ▸ hcons.sound.registry⟩,
    hcons.framed, hcons.lists, hcons.once, hreg ▸ hcons.onehop⟩, h.waiting⟩

theorem Mac.InOrder.dataInfo (h : s.InOrder p) (addr seq : UInt16) (isDataRelay : Bool) :
    Mac.InOrder p { s with NODES := dmNodeUpdateDataInfo s.NODES addr seq isDataRelay } :=
  h.of_profiles (profiles_writeRef fun n => profile_updateDataInfo n seq isDataRelay)

theorem Mac.InOrder.checkDataMissed (h : s.InOrder p) :
    Mac.InOrder p { s with NODES := dmCheckDataMissed s.NODES } := by
  refine h.of_profiles ?_
  rw [dmCheckDataMissed, List.map_map]
  exact List.map_congr_left fun n _ => profile_checkDataMissed n

/-! ## Emptying RNL

A node that waits is popped, and registered like any other. -/

/-- **Registering what waits** keeps the MAC in order and books nothing. -/
theorem Mac.InOrder.takeWaiting (h : s.InOrder p) :
    ∃ s', takeWaiting s = some s' ∧ s'.InOrder p ∧
      ∀ b ∈ bookings s'.SCHEDULES, b ∈ bookings s.SCHEDULES := by
  rw [LoRaGwSv.takeWaiting]
  have hpop := h.waiting.popHeadNode
  split
  case h_1 n RNL heq =>
    rw [heq] at hpop
    have hn : n.Fresh := by
      rw [popHeadNode] at heq
      split at heq
      case h_1 => exact absurd (Prod.mk.inj heq).1 (by simp)
      case h_2 m rest hnodes =>
        obtain rfl := Option.some.inj (Prod.mk.inj heq).1
        exact h.waiting.fresh m (by rw [hnodes]; exact List.mem_cons_self)
    have hcons : Mac.Consistent p { s with RNL := RNL } :=
      ⟨h.consistent.sound, h.consistent.framed, h.consistent.lists, h.consistent.once,
        h.consistent.onehop⟩
    obtain ⟨s', hs', hcons', hrnl, hbooked⟩ := hcons.registerNode hn
    exact ⟨s', hs', ⟨hcons', hrnl ▸ hpop⟩, hbooked⟩
  case h_2 => exact ⟨s, rfl, h, fun _ hb => hb⟩

/-- A turn of the loop of the registration list registers what waits. -/
theorem rnlLoop_succ (i : ℕ) (s : Mac) (w : Payload) :
    ∃ w', rnlLoop (i + 1) s w = (takeWaiting s).bind fun s => rnlLoop i s w' := by
  rw [rnlLoop, takeWaiting]
  obtain ⟨tempNode, RNL⟩ := popHeadNode s.RNL
  cases tempNode with
  | none => exact ⟨w.put (addrFormat 0 0), rfl⟩
  | some n =>
    refine ⟨w.put (addrFormat n.addr n.genInfo.cls.toUInt16), ?_⟩
    exact (Option.bind_map (g := fun s => rnlLoop i s _) ..).symm

/-- By induction over the rounds: the loop of a registration list keeps the MAC in order, and books
nothing. -/
theorem Mac.InOrder.rnlLoop (h : s.InOrder p) (i : ℕ) (w : Payload) :
    ∃ s' w', rnlLoop i s w = some (s', w') ∧ s'.InOrder p ∧
      ∀ b ∈ bookings s'.SCHEDULES, b ∈ bookings s.SCHEDULES := by
  induction i generalizing s w with
  | zero => exact ⟨s, w, rfl, h, fun _ hb => hb⟩
  | succ i ih =>
    obtain ⟨w₁, hw₁⟩ := rnlLoop_succ i s w
    obtain ⟨s₁, hs₁, h₁, hbooked₁⟩ := h.takeWaiting
    obtain ⟨s', w', hloop, h', hbooked⟩ := ih h₁ w₁
    refine ⟨s', w', ?_, h', fun b hb => hbooked₁ b (hbooked b hb)⟩
    rw [hw₁, hs₁, Option.bind_some, hloop]

/-! ## One call -/

/-- A command message is defined, and carries the entries that it selects. -/
theorem step_command (h : s.Consistent p) (dlMsg : MsgInfo) (framePeriodCnt : UInt16) :
    FrameOp.step p s (.command dlMsg framePeriodCnt)
      = some { s with SCHEDULES := carriedGroups s.usiCount s.SCHEDULES } := by
  obtain ⟨w, hw, -⟩ := cm_spec h dlMsg framePeriodCnt 0
  rw [FrameOp.step, hw, Option.map_some]

/-- A registration list keeps the MAC in order. -/
theorem Mac.InOrder.registrationList (h : s.InOrder p) (dlMsg : MsgInfo) (rnlIntCount : UInt16)
    (netReadyFlag : UInt8) :
    ∃ s', FrameOp.step p s (.registrationList dlMsg rnlIntCount netReadyFlag) = some s' ∧
      s'.InOrder p ∧ ∀ b ∈ bookings s'.SCHEDULES, b ∈ bookings s.SCHEDULES := by
  rw [FrameOp.step, prepareDownlinkMsgPayload]
  simp only [prepareRnl]
  obtain ⟨s', w', hloop, h', hbooked⟩ := h.rnlLoop (nboAddedNodes s.RNL) _
  rw [hloop]
  exact ⟨s', rfl, h', hbooked⟩

theorem Mac.InOrder.mac (h : s.InOrder p) (op : MacOp) :
    ∃ s', op.step s = some s' ∧ s'.InOrder p := by
  cases op with
  | register r =>
    obtain ⟨s', hs', hcons, hrnl, -⟩ := h.consistent.registerNode r.fresh_node
    exact ⟨s', hs', hcons, hrnl ▸ h.waiting⟩
  | schedule phase =>
    obtain ⟨s', hs', hcons, hsince⟩ := schedule_spec h.consistent phase
    exact ⟨s', hs', hcons, hsince.rnl ▸ h.waiting⟩
  | reset => exact ⟨_, rfl, h.consistent.resetSchedule, h.waiting⟩

/-- **Each call keeps the MAC in order**, and follows no null pointer. -/
theorem Mac.InOrder.step (h : s.InOrder p) (op : FrameOp) :
    ∃ s', op.step p s = some s' ∧ s'.InOrder p := by
  cases op with
  | mac op => exact h.mac op
  | request r =>
    exact ⟨{ s with RNL := (pushNode s.RNL r.node).2 }, rfl,
      ⟨h.consistent.sound, h.consistent.framed, h.consistent.lists, h.consistent.once,
        h.consistent.onehop⟩, h.waiting.pushNode r.fresh_node⟩
  | dataInfo addr seq isDataRelay => exact ⟨_, rfl, h.dataInfo addr seq isDataRelay⟩
  | checkDataMissed => exact ⟨_, rfl, h.checkDataMissed⟩
  | takeWaiting =>
    obtain ⟨s', hs', h', -⟩ := h.takeWaiting
    exact ⟨s', hs', h'⟩
  | registrationList dlMsg rnlIntCount netReadyFlag =>
    obtain ⟨s', hs', h', -⟩ := h.registrationList dlMsg rnlIntCount netReadyFlag
    exact ⟨s', hs', h'⟩
  | scheduleDistribution dlMsg =>
    obtain ⟨-, sent, sch2Sslot, s₂, -, -, hphase, hcons, hrnl, -⟩ :=
      scheduleDistributionPhase_spec h.consistent.sound h.consistent.framed dlMsg
    exact ⟨s₂, by rw [FrameOp.step, hphase, Option.map_some], hcons, hrnl ▸ h.waiting⟩
  | command dlMsg framePeriodCnt =>
    exact ⟨_, step_command h.consistent dlMsg framePeriodCnt, h.consistent.carriedGroups _,
      h.waiting⟩

/-! ## Runs -/

theorem inOrder_twohopLoRaMacInit (p : MacParams) : (twohopLoRaMacInit p).InOrder p :=
  ⟨consistent_twohopLoRaMacInit p, waiting_initNodeList false⟩

/-- **Every run keeps the MAC in order.** -/
theorem inOrder_frames (p : MacParams) (ops : List FrameOp) :
    Runs.Always (FrameOp.step p) (Mac.InOrder p) (twohopLoRaMacInit p) ops :=
  Runs.always_of_inv (fun _ op h (_ : True) => h.step op) (inOrder_twohopLoRaMacInit p) ops
    fun _ _ => trivial

theorem inOrder_of_run {ops : List FrameOp}
    (hrun : Runs.run (FrameOp.step p) (twohopLoRaMacInit p) ops = some s) : s.InOrder p := by
  obtain ⟨t, ht, h⟩ := (inOrder_frames p ops).last
  exact Option.some.inj (ht.symm.trans hrun) ▸ h

end LoRaGwSv
