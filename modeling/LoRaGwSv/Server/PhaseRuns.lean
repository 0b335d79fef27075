import LoRaGwSv.Server.Phases

/-!
# Server/PhaseRuns — the phases over runs (`rtlora_mac.c`)

What is known of a state depends on where the phase thread stands (`Server.AtPoint`): a phase that
counts has announced the periods it has counted, up to the one at work (`Server.Counting`), and SCH1
has sent the first batches of the schedule and has the rest of them to send
(`Server.Distributing`).  A turn keeps this and is never stuck (`Server.Inv.turn`), and the other
threads cannot break it.
-/

namespace LoRaGwSv

open Wire

variable {p : MacParams} {s t : Server} {l : PhaseLocals} {phase : OperationPhase}

/-- A phase has counted its periods and announced them, the `pending` ones aside. -/
structure Server.Counting (p : MacParams) (s : Server) (phase : OperationPhase) (l : PhaseLocals)
    (pending : List Period) : Prop where
  phase_eq : s.current.phase = phase
  counts : ∃ m n, l.Counts s.phaseTransRequest s.current.periods m n
  announced : ∃ told, s.current.periods = told ++ pending ∧
    List.Forall₂ (MsgInfo.Announces p phase) s.current.sent told

/-- SCH1 has sent the batches `xs` of the schedule made in `made`, and `Q` is left of its groups. -/
structure Server.Distributing (p : MacParams) (s : Server) (sch1Cnt : ℕ) (sch2Sslot : UInt8)
    (made : Mac) (Q : List (List SchNode)) (xs : List (ℕ × List SchNode)) : Prop where
  phase_eq : s.current.phase = .scheduleDist
  periods_eq : s.current.periods = []
  made_eq : s.current.made = some made
  inv : made.Inv p
  profiles : s.input.mac.NODES.nodes.map MngtNode.profile = made.NODES.nodes.map MngtNode.profile
  ready : List.Forall₂ Ready s.input.mac.SCHEDULES Q
  train : SmTrain p made.NODES 1 s.current.sent xs sch2Sslot
  batches : smBatches made.SCHEDULES = xs ++
    Batches.serveAll twohopMaxNboNodesInSm.toNat (twohopNboSlotsInSch1 + 1 - sch1Cnt) Q

/-- The period a frame has counted and not announced yet. -/
def FrameStage.pending (stage : FrameStage) (x : Period) : List Period :=
  match stage with
  | .decide | .appParseData => []
  | .checkDataMissed | .takeWaiting | .schedule | .command => [x]

/-- What is known where the phase thread stands. -/
def Server.AtPoint (p : MacParams) (s : Server) : Prop :=
  match s.point with
  | .initNetwork l => s.Counting p .networkInit l []
  | .makeSchedule _ => s.current = .start .scheduleDist
  | .sch1 sch1Cnt sch2Sslot _ => ∃ made Q xs, s.Distributing p sch1Cnt sch2Sslot made Q xs
  | .dataColl stage l => ∃ phaseTransRequest,
      s.Counting p .dataColl l (stage.pending ⟨l.count, phaseTransRequest⟩)

/-- The state of the MAC is in order, every phase that is done is complete, and the running one
stands where its locals say. -/
structure Server.Inv (p : MacParams) (s : Server) : Prop where
  mac : s.input.mac.Inv p
  done : ∀ r ∈ s.done, r.Complete p
  atPoint : s.AtPoint p

/-! ## The phases that count

The initialisation and the data collection count their periods, and announce the count in a message
of each.  The data collection counts first and announces later, so one period may be pending in
between. -/

/-- A phase begins to count with nothing sent. -/
theorem Server.counting_start (hcurrent : s.current = .start phase) (stack : MsgInfo) :
    s.Counting p phase (.init stack) [] where
  phase_eq := by
    rw [hcurrent]
    rfl
  counts := ⟨0, 0, by
    rw [hcurrent]
    exact PhaseLocals.counts_init stack _⟩
  announced := ⟨[], by
    rw [hcurrent]
    exact ⟨rfl, .nil⟩⟩

/-- **A phase that has counted down to the end** is complete. -/
theorem Server.Counting.complete (h : s.Counting p phase l []) (hphase : phase ≠ .scheduleDist)
    (hleft : l.phaseTransCount = 0) : s.current.Complete p ∧ s.phaseTransRequest = true := by
  obtain ⟨m, n, hcounts⟩ := h.counts
  obtain ⟨told, htold, hsent⟩ := h.announced
  obtain ⟨hrequest, hperiods⟩ := hcounts.over hleft
  rw [List.append_nil] at htold
  refine ⟨?_, hrequest⟩
  rw [PhaseRecord.Complete, h.phase_eq]
  cases phase with
  | scheduleDist => exact absurd rfl hphase
  | networkInit => exact ⟨m, hperiods, htold ▸ hsent⟩
  | dataColl => exact ⟨m, hperiods, htold ▸ hsent⟩

/-- Only a message that has bytes is sent. -/
theorem PhaseRecord.send_of_size {r : PhaseRecord} {dlMsg : MsgInfo} (h : dlMsg.size ≠ 0) :
    r.send dlMsg = { r with sent := r.sent ++ [dlMsg] } := if_pos h

/-- A message that announces the pending period. -/
theorem Server.Counting.send {x : Period} (h : s.Counting p phase l [x]) {dlMsg : MsgInfo}
    (hsize : dlMsg.size ≠ 0) (hmsg : dlMsg.Announces p phase x)
    (hcurrent : t.current = s.current.send dlMsg)
    (hrequest : t.phaseTransRequest = s.phaseTransRequest) :
    t.Counting p phase { l with dlMsg := dlMsg } [] := by
  obtain ⟨m, n, hcounts⟩ := h.counts
  obtain ⟨told, htold, hsent⟩ := h.announced
  rw [PhaseRecord.send_of_size hsize] at hcurrent
  refine ⟨by rw [hcurrent]; exact h.phase_eq, ⟨m, n, ?_⟩, told ++ [x], ?_⟩
  · rw [hrequest, hcurrent]
    exact ⟨hcounts.periods_eq, hcounts.left, hcounts.asked, hcounts.count_eq⟩
  · rw [hcurrent, List.append_nil]
    exact ⟨htold, List.rel_append hsent (.cons hmsg .nil)⟩

/-- A period counted and not announced yet. -/
theorem Server.Counting.period (h : s.Counting p phase l []) (hleft : l.phaseTransCount ≠ 0)
    (hcurrent : t.current
      = s.current.period ⟨(l.next s.phaseTransRequest).count, s.phaseTransRequest⟩)
    (hrequest : t.phaseTransRequest = s.phaseTransRequest) :
    t.Counting p phase (l.next s.phaseTransRequest)
      [⟨(l.next s.phaseTransRequest).count, s.phaseTransRequest⟩] := by
  obtain ⟨m, n, hcounts⟩ := h.counts
  obtain ⟨told, htold, hsent⟩ := h.announced
  rw [List.append_nil] at htold
  refine ⟨by rw [hcurrent]; exact h.phase_eq, ?_, told, ?_⟩
  · rw [hrequest, hcurrent]
    exact hcounts.next hleft
  · rw [hcurrent]
    exact ⟨congrArg (· ++ [_]) htold, hsent⟩

/-- What a phase has counted is not touched by what else happens; the request may come. -/
theorem Server.Counting.of_current {pending : List Period} (h : s.Counting p phase l pending)
    (hcurrent : t.current = s.current)
    (hrequest : t.phaseTransRequest = s.phaseTransRequest ∨ t.phaseTransRequest = true) :
    t.Counting p phase l pending := by
  obtain ⟨m, n, hcounts⟩ := h.counts
  refine ⟨by rw [hcurrent]; exact h.phase_eq, ⟨m, n, ?_⟩, by rw [hcurrent]; exact h.announced⟩
  rw [hcurrent]
  obtain heq | heq := hrequest
  · rwa [heq]
  · rw [heq]
    exact hcounts.request

/-! ## The messages

A message is sent only if it has bytes, which each of these has, as it starts with a header. -/

/-- A message that anything has been written to has bytes. -/
theorem size_ne_zero_of_holds {w : Payload} {bs : List UInt8} (hw : w.Holds bs) (hbs : bs ≠ []) :
    (finishMsg w).size ≠ 0 := by
  intro h0
  have hsize := size_finishMsg hw
  rw [h0] at hsize
  exact hbs (List.length_eq_zero_iff.mp hsize.symm)

/-- Every message has its header, and so is not empty. -/
theorem header_ne_nil (p : MacParams) (type : TwohopMsgType) (bs : List UInt8) :
    header p type ++ bs ≠ [] := by
  intro hnil
  have hlen := congrArg List.length hnil
  rw [List.length_append, length_header] at hlen
  simp at hlen

/-- **The registration node list** that the phase sends. -/
theorem Mac.Inv.rnl {mac : Mac} (h : mac.Inv p) (dlMsg : MsgInfo) (seq : UInt16) (addInfo : UInt8) :
    ∃ msg mac', prepareDownlinkMsgPayload p mac dlMsg .dlRnl seq addInfo
        = some (msg, addInfo, mac') ∧ mac'.Inv p ∧ msg.size ≠ 0 ∧
      msg.bytes = rnlBytes p seq (decide (addInfo ≠ 0)) mac.listed := by
  have hwaiting := h.inOrder.waiting
  have hfresh : ∀ n ∈ mac.listed, n.Fresh := fun n hn =>
    hwaiting.fresh n (List.mem_of_mem_take hn)
  have hlen : mac.listed.length ≤ 20 := List.length_take_le _ _
  have hsplit : mac.RNL.nodes = mac.listed ++ mac.RNL.nodes.drop twohopMaxNboNodesInRnl.toNat :=
    (List.take_append_drop _ _).symm
  have hw := ((holds_header dlMsg p .dlRnl).put le_rfl (le16 seq) (by simp)).put le_rfl
    [UInt8.ofNat (pack [((decide (addInfo ≠ 0)).toNat, 1), (mac.listed.length, 7)])] (by simp)
  obtain ⟨mac', w', hloop, -, -, hw'⟩ :=
    rnlLoop_spec h.inOrder.consistent.sound hsplit hfresh hw (by simp; omega)
  have hmsg : prepareDownlinkMsgPayload p mac dlMsg .dlRnl seq addInfo
      = some (finishMsg w', addInfo, mac') := by
    rw [prepareDownlinkMsgPayload]
    simp only [prepareRnl, hwaiting.nboAddedNodes_eq, hloop, Option.map_some]
  have hstep : FrameOp.step p mac (.registrationList dlMsg seq addInfo) = some mac' := by
    rw [FrameOp.step, hmsg, Option.map_some]
  refine ⟨finishMsg w', mac', hmsg, h.frame hstep, ?_, bytes_finishMsg hw'⟩
  refine size_ne_zero_of_holds hw' ?_
  rw [List.append_assoc, List.append_assoc]
  exact header_ne_nil _ _ _

/-- **The command message** that the phase sends. -/
theorem Mac.Inv.cm {mac : Mac} (h : mac.Inv p) (dlMsg : MsgInfo) (seq : UInt16) :
    ∃ msg mac', prepareDownlinkMsgPayload p mac dlMsg .dlCm seq 0 = some (msg, 0, mac') ∧
      mac'.Inv p ∧ msg.size ≠ 0 ∧ msg.bytes = cmBytes p mac seq := by
  obtain ⟨w, hmsg, hw⟩ := cm_spec h.inOrder.consistent dlMsg seq 0
  have hstep : FrameOp.step p mac (.command dlMsg seq)
      = some { mac with SCHEDULES := carriedGroups mac.usiCount mac.SCHEDULES } := by
    rw [FrameOp.step, hmsg, Option.map_some]
  refine ⟨finishMsg w, _, hmsg, h.frame hstep, ?_, bytes_finishMsg hw⟩
  refine size_ne_zero_of_holds hw ?_
  rw [cmBytes, List.append_assoc, List.append_assoc, List.append_assoc]
  exact header_ne_nil _ _ _

/-- A flag that has gone through a byte is the flag. -/
theorem Bool.decide_toUInt8_ne_zero (b : Bool) : decide (b.toUInt8 ≠ 0) = b := by
  cases b <;> rfl

/-! ## A turn of each phase

A turn is one round of the loop of a phase: it sends a message, sleeps, or leaves the phase.  For
each phase one lemma says that the turn is defined and leaves the state in order. -/

/-- A phase that is complete may be left, for any point where the next one can stand. -/
theorem Server.Inv.enter (h : s.Inv p) (hcomplete : s.current.Complete p) {point : PhasePoint}
    {phaseTransRequest : Bool}
    (hpoint : (s.enter phase point phaseTransRequest).AtPoint p) :
    (s.enter phase point phaseTransRequest).Inv p := by
  refine ⟨h.mac, ?_, hpoint⟩
  intro r hr
  obtain hr | hr := List.mem_append.mp hr
  · exact h.done r hr
  · rwa [List.mem_singleton.mp hr]

/-- A turn of the initialisation is defined and keeps the state in order. -/
theorem Server.Inv.initNetworkTurn (h : s.Inv p) (hpoint : s.point = .initNetwork l)
    (stack : MsgInfo) : ∃ t, s.initNetworkTurn p stack l = some t ∧ t.Inv p := by
  have hat := h.atPoint
  rw [Server.AtPoint, hpoint] at hat
  rw [Server.initNetworkTurn]
  split_ifs with hleft
  · exact ⟨_, rfl, h.enter (hat.complete (by decide) hleft).1 rfl⟩
  · obtain ⟨dlMsg, mac, hmsg, hmac, hsize, hbytes⟩ := h.mac.rnl (l.next s.phaseTransRequest).dlMsg
      (l.next s.phaseTransRequest).count s.phaseTransRequest.toUInt8
    rw [Bool.decide_toUInt8_ne_zero] at hbytes
    have hperiod := hat.period (t := { s with
      current := s.current.period ⟨(l.next s.phaseTransRequest).count, s.phaseTransRequest⟩ })
      hleft rfl rfl
    refine ⟨_, congrArg (Option.map _) hmsg, hmac, h.done, ?_⟩
    exact hperiod.send hsize ⟨s.input.mac.listed, fun n hn =>
      h.mac.inOrder.waiting.fresh n (List.mem_of_mem_take hn), List.length_take_le _ _, hbytes⟩
      rfl rfl

/-- A schedule made after a reset: every entry is to be distributed once. -/
theorem Server.Inv.makeScheduleTurn (h : s.Inv p) {dlMsg : MsgInfo}
    (hpoint : s.point = .makeSchedule dlMsg) :
    ∃ t, s.makeScheduleTurn dlMsg = some t ∧ t.Inv p := by
  have hat := h.atPoint
  rw [Server.AtPoint, hpoint] at hat
  obtain ⟨mac, hmac, hcons, hsince⟩ :=
    schedule_spec h.mac.inOrder.consistent.resetSchedule .scheduleDist
  have hreset : (resetSchedule s.input.mac).Inv p :=
    h.mac.frame (show FrameOp.step p _ (.mac .reset) = _ from rfl)
  have hinv : mac.Inv p :=
    hreset.frame (show FrameOp.step p _ (.mac (.schedule .scheduleDist)) = _ from hmac)
  have hsent : s.current.sent = [] := congrArg PhaseRecord.sent hat
  refine ⟨_, congrArg (Option.map _) hmac, hinv, h.done, mac, mac.SCHEDULES.map SchList.nodes, [],
    ?_⟩
  refine ⟨congrArg PhaseRecord.phase hat, congrArg PhaseRecord.periods hat, rfl, hinv, rfl,
    forall₂_ready hcons.lists (nboSchDist_of_reset hsince), ?_, rfl⟩
  exact hsent.symm ▸ SmTrain.nil 1

/-- One more batch of the schedule is sent. -/
theorem Server.Distributing.send {sch1Cnt : ℕ} {sch2Sslot : UInt8} {made : Mac}
    {Q Q' : List (List SchNode)} {xs : List (ℕ × List SchNode)} {i : ℕ} {batch : List SchNode}
    (h : s.Distributing p sch1Cnt sch2Sslot made Q xs) (hslot : sch1Cnt ≤ twohopNboSlotsInSch1)
    (hserve : Batches.serve twohopMaxNboNodesInSm.toNat Q = some (i, batch, Q')) {w : Payload}
    (hw : w.Holds (smBytes p s.input.mac.NODES (UInt16.ofNat sch1Cnt) sch2Sslot i batch))
    (hcurrent : t.current = s.current.send (finishMsg w))
    (hnodes : t.input.mac.NODES = s.input.mac.NODES)
    (hready : List.Forall₂ Ready t.input.mac.SCHEDULES Q') :
    t.Distributing p (sch1Cnt + 1)
      (sch2Sslot + UInt8.ofNat (nboRelaysIn s.input.mac.NODES batch)) made Q'
      (xs ++ [(i, batch)]) := by
  have hslots : twohopNboSlotsInSch1 + 1 - sch1Cnt
      = twohopNboSlotsInSch1 + 1 - (sch1Cnt + 1) + 1 := by omega
  have hbatches := h.batches
  rw [hslots, Batches.serveAll_of_some hserve] at hbatches
  have hbytes : (finishMsg w).bytes
      = smBytes p made.NODES (UInt16.ofNat sch1Cnt) sch2Sslot i batch := by
    rw [bytes_finishMsg hw, smBytes_congr h.profiles]
  rw [PhaseRecord.send_of_size (size_ne_zero hw)] at hcurrent
  refine ⟨by rw [hcurrent]; exact h.phase_eq, by rw [hcurrent]; exact h.periods_eq,
    by rw [hcurrent]; exact h.made_eq, h.inv, by rw [hnodes]; exact h.profiles, hready, ?_, ?_⟩
  · rw [hcurrent, nboRelaysIn_congr h.profiles]
    exact h.train.concat _ hbytes
  · rw [hbatches, List.append_assoc]
    rfl

/-- When nothing is left, a slot of SCH1 passes. -/
theorem Server.Distributing.pass {sch1Cnt : ℕ} {sch2Sslot : UInt8} {made : Mac}
    {Q : List (List SchNode)} {xs : List (ℕ × List SchNode)}
    (h : s.Distributing p sch1Cnt sch2Sslot made Q xs)
    (hserve : Batches.serve twohopMaxNboNodesInSm.toNat Q = none)
    (hcurrent : t.current = s.current) (hmac : t.input.mac = s.input.mac) :
    t.Distributing p (sch1Cnt + 1) sch2Sslot made Q xs := by
  have hbatches := h.batches
  rw [Batches.serveAll_of_none hserve] at hbatches
  refine ⟨by rw [hcurrent]; exact h.phase_eq, by rw [hcurrent]; exact h.periods_eq,
    by rw [hcurrent]; exact h.made_eq, h.inv, by rw [hmac]; exact h.profiles,
    by rw [hmac]; exact h.ready, by rw [hcurrent]; exact h.train, ?_⟩
  rw [Batches.serveAll_of_none hserve, hbatches]

/-- After the last slot the schedule is sent. -/
theorem Server.Distributing.complete {sch1Cnt : ℕ} {sch2Sslot : UInt8} {made : Mac}
    {Q : List (List SchNode)} {xs : List (ℕ × List SchNode)}
    (h : s.Distributing p sch1Cnt sch2Sslot made Q xs) (hslot : ¬ sch1Cnt ≤ twohopNboSlotsInSch1) :
    s.current.Complete p := by
  have hslots : twohopNboSlotsInSch1 + 1 - sch1Cnt = 0 := by omega
  have hbatches := h.batches
  rw [hslots, Batches.serveAll, List.append_nil] at hbatches
  rw [PhaseRecord.Complete, h.phase_eq]
  exact ⟨h.periods_eq, made, sch2Sslot, h.made_eq, h.inv, hbatches ▸ h.train⟩

/-- **A slot of SCH1** sends the next batch, if one is left. -/
theorem Server.Inv.sch1Turn (h : s.Inv p) {sch1Cnt : ℕ} {sch2Sslot : UInt8} {dlMsg : MsgInfo}
    (hpoint : s.point = .sch1 sch1Cnt sch2Sslot dlMsg) (stack : MsgInfo) :
    ∃ t, s.sch1Turn p stack sch1Cnt sch2Sslot dlMsg = some t ∧ t.Inv p := by
  have hat := h.atPoint
  rw [Server.AtPoint, hpoint] at hat
  obtain ⟨made, Q, xs, hat⟩ := hat
  rw [Server.sch1Turn]
  split_ifs with hslot
  · cases hserve : Batches.serve twohopMaxNboNodesInSm.toNat Q with
    | none =>
      have hmsg := sm_empty (p := p) hat.ready hserve dlMsg (UInt16.ofNat sch1Cnt) sch2Sslot
      exact ⟨_, congrArg (Option.map _) hmsg, h.mac, h.done, made, Q, xs,
        hat.pass hserve rfl rfl⟩
    | some x =>
      obtain ⟨i, batch, Q'⟩ := x
      obtain ⟨w, mac, hmsg, hw, hcons, hnodes, hrnl, hready⟩ :=
        sm_served h.mac.inOrder.consistent hat.ready hserve dlMsg (UInt16.ofNat sch1Cnt) sch2Sslot
      have hout := (outlines_prepareSm (show prepareSm s.input.mac _ _ _ = _ from hmsg)).1
      have hmac : mac.Inv p := ⟨⟨hcons, hrnl ▸ h.mac.inOrder.waiting⟩,
        held_of_outlines hout h.mac.held⟩
      exact ⟨_, congrArg (Option.map _) hmsg, hmac, h.done, made, Q', xs ++ [(i, batch)],
        hat.send hslot hserve hw rfl hnodes hready⟩
  · exact ⟨_, rfl, h.enter (hat.complete hslot) ⟨false, Server.counting_start rfl stack⟩⟩

/-- **A frame** counts its period first and announces it in its command message. -/
theorem Server.Inv.dataCollTurn (h : s.Inv p) {stage : FrameStage}
    (hpoint : s.point = .dataColl stage l) (stack : MsgInfo) :
    ∃ t, s.dataCollTurn p stack l stage = some t ∧ t.Inv p := by
  have hat := h.atPoint
  rw [Server.AtPoint, hpoint] at hat
  obtain ⟨found, hat⟩ := hat
  cases stage with
  | decide =>
    rw [Server.dataCollTurn]
    split_ifs with hleft
    · exact ⟨_, rfl, h.enter (hat.complete (by decide) hleft).1 rfl⟩
    · exact ⟨_, rfl, h.mac, h.done, s.phaseTransRequest, hat.period hleft rfl rfl⟩
  | checkDataMissed =>
    have hinv : Mac.Inv p _ := h.mac.frame (show FrameOp.step p _ .checkDataMissed = _ from rfl)
    exact ⟨_, rfl, hinv, h.done, found, hat.of_current rfl (Or.inl rfl)⟩
  | takeWaiting =>
    rw [Server.dataCollTurn]
    split
    · obtain ⟨mac, hmac, -⟩ := h.mac.inOrder.takeWaiting
      have hinv : mac.Inv p := h.mac.frame (show FrameOp.step p _ .takeWaiting = _ from hmac)
      refine ⟨_, congrArg (Option.map _) hmac, hinv, h.done, ?_⟩
      rw [Server.AtPoint, Server.withMac, hpoint]
      exact ⟨found, hat.of_current rfl (Or.inl rfl)⟩
    · exact ⟨_, rfl, h.mac, h.done, found, hat.of_current rfl (Or.inl rfl)⟩
  | schedule =>
    obtain ⟨mac, hmac, -⟩ := schedule_spec h.mac.inOrder.consistent .dataColl
    have hinv : mac.Inv p :=
      h.mac.frame (show FrameOp.step p _ (.mac (.schedule .dataColl)) = _ from hmac)
    exact ⟨_, congrArg (Option.map _) hmac, hinv, h.done, found, hat.of_current rfl (Or.inl rfl)⟩
  | command =>
    obtain ⟨dlMsg, mac, hmsg, hmac, hsize, hbytes⟩ := h.mac.cm l.dlMsg l.count
    exact ⟨_, congrArg (Option.map _) hmsg, hmac, h.done, found,
      hat.send hsize ⟨s.input.mac, h.mac, hbytes⟩ rfl rfl⟩
  | appParseData =>
    exact ⟨_, rfl, h.mac, h.done, found, hat.of_current rfl (Or.inl rfl)⟩

/-- **The phase thread always has a next turn**, and it keeps the invariant. -/
theorem Server.Inv.turn (h : s.Inv p) (stack : MsgInfo) :
    ∃ t, s.turn p stack = some t ∧ t.Inv p := by
  rw [Server.turn]
  split
  case h_1 l hpoint => exact h.initNetworkTurn hpoint stack
  case h_2 dlMsg hpoint => exact h.makeScheduleTurn hpoint
  case h_3 sch1Cnt sch2Sslot dlMsg hpoint => exact h.sch1Turn hpoint stack
  case h_4 stage l hpoint => exact h.dataCollTurn hpoint stack

/-! ## The other threads

Requests and uplinks come between two turns.  They touch the flag of the request and RNL, and
neither what the phase has counted nor what it has sent. -/

/-- A request to leave the phase is noted; it is served when a turn looks at it. -/
theorem Server.Inv.phaseTrans (h : s.Inv p) :
    Server.Inv p { s with phaseTransRequest := true } := by
  refine ⟨h.mac, h.done, ?_⟩
  have hat := h.atPoint
  rw [Server.AtPoint] at hat ⊢
  dsimp only
  split
  case h_1 l hpoint =>
    rw [hpoint] at hat
    exact hat.of_current rfl (Or.inr rfl)
  case h_2 dlMsg hpoint => rwa [hpoint] at hat
  case h_3 sch1Cnt sch2Sslot dlMsg hpoint =>
    rw [hpoint] at hat
    obtain ⟨made, Q, xs, hat⟩ := hat
    exact ⟨made, Q, xs, ⟨hat.phase_eq, hat.periods_eq, hat.made_eq, hat.inv, hat.profiles,
      hat.ready, hat.train, hat.batches⟩⟩
  case h_4 stage l hpoint =>
    rw [hpoint] at hat
    obtain ⟨found, hat⟩ := hat
    exact ⟨found, hat.of_current rfl (Or.inr rfl)⟩

/-- The handler of the uplinks touches neither the phase nor its locals. -/
theorem Server.Inv.uplink (h : s.Inv p) {msg : MsgInfo} {input : InputState}
    (hstep : inputMsgHandler s.input msg = some input) :
    Server.Inv p { s with input := input } := by
  obtain ⟨hschedules, hprofiles⟩ := uplink_keeps hstep
  refine ⟨h.mac.uplink hstep, h.done, ?_⟩
  have hat := h.atPoint
  rw [Server.AtPoint] at hat ⊢
  dsimp only
  split
  case h_1 l hpoint =>
    rw [hpoint] at hat
    exact hat.of_current rfl (Or.inl rfl)
  case h_2 dlMsg hpoint => rwa [hpoint] at hat
  case h_3 sch1Cnt sch2Sslot dlMsg hpoint =>
    rw [hpoint] at hat
    obtain ⟨made, Q, xs, hat⟩ := hat
    exact ⟨made, Q, xs, ⟨hat.phase_eq, hat.periods_eq, hat.made_eq, hat.inv,
      hprofiles.trans hat.profiles, hschedules ▸ hat.ready, hat.train, hat.batches⟩⟩
  case h_4 stage l hpoint =>
    rw [hpoint] at hat
    obtain ⟨found, hat⟩ := hat
    exact ⟨found, hat.of_current rfl (Or.inl rfl)⟩

/-- **Each step keeps the state in order**, be it a turn of the phase, a request or an uplink. -/
theorem Server.Inv.step (h : s.Inv p) {e : ServerEvent} (hstep : e.step p s = some t) :
    t.Inv p := by
  cases e with
  | turn stack =>
    obtain ⟨u, hu, hinv⟩ := h.turn stack
    rwa [← Option.some.inj (hu.symm.trans hstep)]
  | phaseTrans =>
    rw [← Option.some.inj hstep]
    exact h.phaseTrans
  | uplink msg =>
    obtain ⟨input, hinput, rfl⟩ := Option.map_eq_some_iff.mp hstep
    exact h.uplink hinput

/-- The server starts in order, in whichever phase. -/
theorem Server.inv_init (p : MacParams) (stack : MsgInfo) (start : StartPhase) :
    (Server.init p stack start).Inv p := by
  cases start with
  | dataColl => exact ⟨inv_serverStart p, fun _ hr => absurd hr List.not_mem_nil, false,
      Server.counting_start rfl stack⟩
  | networkInit => exact ⟨inv_serverStart p, fun _ hr => absurd hr List.not_mem_nil,
      Server.counting_start rfl stack⟩

variable {stack : MsgInfo} {start : StartPhase} {events : List ServerEvent}

/-- **Every state that a run reaches is in order.** -/
theorem Server.Inv.of_run (hrun : Runs.run (ServerEvent.step p) (Server.init p stack start) events
      = some s) : s.Inv p :=
  Runs.inv_of_run (fun _ _ _ hs hstep => hs.step hstep) (Server.inv_init p stack start) hrun

/-! ## What a turn does

Seen from the record, a turn either extends the running phase or ends it and enters the next one;
there is no third way. -/

/-- What a turn that stays in its phase makes of the record of it: a period more, the schedule, or a
message that it has sent. -/
inductive Server.Extends (p : MacParams) (s : Server) : PhaseRecord → Prop
  | same : s.Extends p s.current
  | counted (x : Period) : s.Extends p (s.current.period x)
  | made {mac : Mac} (hmac : schedule .scheduleDist (resetSchedule s.input.mac) = some mac) :
      s.Extends p { s.current with made := some mac }
  | sent {r : PhaseRecord} {type : TwohopMsgType} {dlMsg msg : MsgInfo} {seq : UInt16}
      {addInfo addInfo' : UInt8} {mac : Mac}
      (hr : r = s.current ∨ ∃ x, r = s.current.period x)
      (htype : type = .dlRnl ∨ type = .dlSm ∨ type = .dlCm)
      (hmsg : prepareDownlinkMsgPayload p s.input.mac dlMsg type seq addInfo
        = some (msg, addInfo', mac)) : s.Extends p (r.send msg)

/-- What a turn that ends its phase makes of the server. -/
inductive Server.Ends (stack : MsgInfo) (s : Server) : Server → Prop
  | initNetwork {l : PhaseLocals} (hpoint : s.point = .initNetwork l)
      (hleft : l.phaseTransCount = 0) :
      s.Ends stack (s.enter .scheduleDist (.makeSchedule stack) false)
  | sch1 {sch1Cnt : ℕ} {sch2Sslot : UInt8} {dlMsg : MsgInfo}
      (hpoint : s.point = .sch1 sch1Cnt sch2Sslot dlMsg)
      (hslot : ¬ sch1Cnt ≤ twohopNboSlotsInSch1) :
      s.Ends stack (s.enter .dataColl (.dataColl .decide (.init stack)) s.phaseTransRequest)
  | dataColl {l : PhaseLocals} (hpoint : s.point = .dataColl .decide l)
      (hleft : l.phaseTransCount = 0) :
      s.Ends stack (s.enter .scheduleDist (.makeSchedule stack) false)

/-- **What a turn does**: it stays in its phase and leaves the request alone, or it ends it. -/
theorem Server.turn_cases (hturn : s.turn p stack = some t) :
    (t.done = s.done ∧ t.phaseTransRequest = s.phaseTransRequest ∧ s.Extends p t.current) ∨
      s.Ends stack t := by
  rw [Server.turn] at hturn
  split at hturn
  case h_1 l hpoint =>
    rw [Server.initNetworkTurn] at hturn
    split_ifs at hturn with hleft
    · exact Or.inr (Option.some.inj hturn ▸ .initNetwork hpoint hleft)
    · obtain ⟨x, hx, rfl⟩ := Option.map_eq_some_iff.mp hturn
      exact Or.inl ⟨rfl, rfl, .sent (Or.inr ⟨_, rfl⟩) (Or.inl rfl) hx⟩
  case h_2 dlMsg hpoint =>
    obtain ⟨mac, hmac, rfl⟩ := Option.map_eq_some_iff.mp hturn
    exact Or.inl ⟨rfl, rfl, .made hmac⟩
  case h_3 sch1Cnt sch2Sslot dlMsg hpoint =>
    rw [Server.sch1Turn] at hturn
    split_ifs at hturn with hslot
    · obtain ⟨x, hx, rfl⟩ := Option.map_eq_some_iff.mp hturn
      exact Or.inl ⟨rfl, rfl, .sent (Or.inl rfl) (Or.inr (Or.inl rfl)) hx⟩
    · exact Or.inr (Option.some.inj hturn ▸ .sch1 hpoint hslot)
  case h_4 stage l hpoint =>
    cases stage with
    | decide =>
      rw [Server.dataCollTurn] at hturn
      split_ifs at hturn with hleft
      · exact Or.inr (Option.some.inj hturn ▸ .dataColl hpoint hleft)
      · rw [← Option.some.inj hturn]
        exact Or.inl ⟨rfl, rfl, .counted _⟩
    | checkDataMissed =>
      rw [← Option.some.inj hturn]
      exact Or.inl ⟨rfl, rfl, .same⟩
    | takeWaiting =>
      rw [Server.dataCollTurn] at hturn
      split at hturn
      · obtain ⟨mac, -, rfl⟩ := Option.map_eq_some_iff.mp hturn
        exact Or.inl ⟨rfl, rfl, .same⟩
      · rw [← Option.some.inj hturn]
        exact Or.inl ⟨rfl, rfl, .same⟩
    | schedule =>
      obtain ⟨mac, -, rfl⟩ := Option.map_eq_some_iff.mp hturn
      exact Or.inl ⟨rfl, rfl, .same⟩
    | command =>
      obtain ⟨x, hx, rfl⟩ := Option.map_eq_some_iff.mp hturn
      exact Or.inl ⟨rfl, rfl, .sent (Or.inl rfl) (Or.inr (Or.inr rfl)) hx⟩
    | appParseData =>
      rw [← Option.some.inj hturn]
      exact Or.inl ⟨rfl, rfl, .same⟩

/-- Sending a message does not change which phase it is. -/
theorem PhaseRecord.phase_send (r : PhaseRecord) (dlMsg : MsgInfo) :
    (r.send dlMsg).phase = r.phase := by
  rw [PhaseRecord.send]
  split_ifs <;> rfl

/-- A turn that extends the record stays in its phase. -/
theorem Server.Extends.phase_eq {r : PhaseRecord} (h : s.Extends p r) :
    r.phase = s.current.phase := by
  cases h with
  | same => rfl
  | counted x => rfl
  | made hmac => rfl
  | sent hr htype hmsg =>
    rw [PhaseRecord.phase_send]
    obtain rfl | ⟨x, rfl⟩ := hr <;> rfl

/-- **What ends a phase that counts is a request**, which the end takes away. -/
theorem Server.Inv.ends_cases (h : s.Inv p) (hends : s.Ends stack t) :
    (s.current.phase = .scheduleDist ∧
        ∃ point, t = s.enter .dataColl point s.phaseTransRequest) ∨
      (s.current.phase ≠ .scheduleDist ∧ s.phaseTransRequest = true ∧
        ∃ point, t = s.enter .scheduleDist point false) := by
  have hat := h.atPoint
  rw [Server.AtPoint] at hat
  cases hends with
  | initNetwork hpoint hleft =>
    rw [hpoint] at hat
    exact Or.inr ⟨by rw [hat.phase_eq]; decide, (hat.complete (by decide) hleft).2, _, rfl⟩
  | sch1 hpoint hslot =>
    rw [hpoint] at hat
    obtain ⟨made, Q, xs, hat⟩ := hat
    exact Or.inl ⟨hat.phase_eq, _, rfl⟩
  | dataColl hpoint hleft =>
    rw [hpoint] at hat
    obtain ⟨found, hat⟩ := hat
    exact Or.inr ⟨by rw [hat.phase_eq]; decide, (hat.complete (by decide) hleft).2, _, rfl⟩

/-- A turn that ends a phase enters the next one. -/
theorem Server.Ends.exists_enter (h : s.Ends stack t) :
    ∃ phase point phaseTransRequest, t = s.enter phase point phaseTransRequest := by
  cases h with
  | initNetwork hpoint hleft => exact ⟨_, _, _, rfl⟩
  | sch1 hpoint hslot => exact ⟨_, _, _, rfl⟩
  | dataColl hpoint hleft => exact ⟨_, _, _, rfl⟩

/-! ## The records of a run

The record of a phase only grows until the phase is over, so what holds of it at the start and is
kept by each addition holds of all records. -/

/-- What the phases so far have recorded, the one at work last. -/
def Server.records (s : Server) : List PhaseRecord := s.done ++ [s.current]

/-- The running phase has its record, too. -/
theorem Server.current_mem_records (s : Server) : s.current ∈ s.records :=
  List.mem_append_right _ (List.mem_singleton_self _)

/-- **What holds of a record that starts, and is kept by what a turn adds to it, holds of every
record of a run.** -/
theorem Server.records_of_run {P : PhaseRecord → Prop} (hstart : ∀ phase, P (.start phase))
    (hextends : ∀ s : Server, s.Inv p → P s.current → ∀ r, s.Extends p r → P r)
    (hrun : Runs.run (ServerEvent.step p) (Server.init p stack start) events = some s) :
    ∀ r ∈ s.records, P r := by
  have hinit : ∀ r ∈ (Server.init p stack start).records, P r := by
    intro r hr
    cases start with
    | dataColl =>
      rw [List.mem_singleton.mp hr]
      exact hstart _
    | networkInit =>
      rw [List.mem_singleton.mp hr]
      exact hstart _
  refine (Runs.inv_of_run (I := fun s : Server => s.Inv p ∧ ∀ r ∈ s.records, P r)
    (fun s e t hs hstep => ⟨hs.1.step hstep, ?_⟩) ⟨Server.inv_init p stack start, hinit⟩ hrun).2
  cases e with
  | turn stack =>
    obtain ⟨hdone, -, hextended⟩ | hends := Server.turn_cases hstep
    · have hcurrent := hextends s hs.1 (hs.2 _ s.current_mem_records) _ hextended
      intro r hr
      rw [records, hdone] at hr
      rcases List.mem_append.mp hr with hr | hr
      · exact hs.2 r (List.mem_append_left _ hr)
      · rwa [List.mem_singleton.mp hr]
    · obtain ⟨phase, point, phaseTransRequest, rfl⟩ := hends.exists_enter
      intro r hr
      rcases List.mem_append.mp hr with hr | hr
      · exact hs.2 r hr
      · rw [List.mem_singleton.mp hr]
        exact hstart phase
  | phaseTrans =>
    rw [← Option.some.inj hstep]
    exact hs.2
  | uplink msg =>
    obtain ⟨input, -, rfl⟩ := Option.map_eq_some_iff.mp hstep
    exact hs.2

/-! ## The phases of a run

From the invariant: each phase that is over is complete, and the next one is the one that the
protocol has. -/

/-- The phases so far, the one at work last. -/
def Server.phases (s : Server) : List OperationPhase :=
  s.done.map PhaseRecord.phase ++ [s.current.phase]

/-- Entering a phase adds it to those that have been run through. -/
theorem Server.phases_enter (s : Server) (phase : OperationPhase) (point : PhasePoint)
    (phaseTransRequest : Bool) :
    (s.enter phase point phaseTransRequest).phases = s.phases ++ [phase] := by
  rw [Server.phases, Server.enter, List.map_append]
  rfl

/-- One step keeps the phases in the order of the protocol. -/
theorem Server.Inv.isChain_phases (h : s.Inv p) (hchain : s.phases.IsChain OperationPhase.Precedes)
    {e : ServerEvent} (hstep : e.step p s = some t) : t.phases.IsChain OperationPhase.Precedes := by
  have henter : ∀ phase point phaseTransRequest, s.current.phase.Precedes phase →
      (s.enter phase point phaseTransRequest).phases.IsChain OperationPhase.Precedes := by
    intro phase point phaseTransRequest hprecedes
    rw [Server.phases_enter, Server.phases]
    refine List.isChain_append.mpr ⟨hchain, List.isChain_singleton _, fun x hx y hy => ?_⟩
    rw [List.getLast?_concat] at hx
    rw [← Option.some.inj hx, ← Option.some.inj hy]
    exact hprecedes
  cases e with
  | turn stack =>
    obtain ⟨hdone, -, hextended⟩ | hends := Server.turn_cases hstep
    · rwa [Server.phases, hdone, hextended.phase_eq]
    · obtain ⟨hphase, point, rfl⟩ | ⟨hphase, -, point, rfl⟩ := h.ends_cases hends
      · exact henter _ _ _ (by rw [hphase]; rfl)
      · exact henter _ _ _ (by rw [OperationPhase.Precedes, if_neg hphase])
  | phaseTrans => rwa [← Option.some.inj hstep]
  | uplink msg =>
    obtain ⟨input, -, rfl⟩ := Option.map_eq_some_iff.mp hstep
    exact hchain

/-- The phases that count and are over, and the request that is waiting. -/
def Server.ended (s : Server) : ℕ :=
  (s.done.countP fun r => r.phase ≠ .scheduleDist) + s.phaseTransRequest.toNat

/-- A phase transition is asked for, and not for the second time. -/
def Server.Asks (s : Server) (e : ServerEvent) : Prop :=
  e = .phaseTrans ∧ s.phaseTransRequest = false

instance (s : Server) (e : ServerEvent) : Decidable (s.Asks e) :=
  inferInstanceAs (Decidable (_ ∧ _))

/-- Only a request adds to what has ended or will, and that only if none is waiting. -/
theorem Server.Inv.ended_eq (h : s.Inv p) {e : ServerEvent} (hstep : e.step p s = some t) :
    t.ended = s.ended + if s.Asks e then 1 else 0 := by
  have henter : ∀ phase point phaseTransRequest,
      (s.enter phase point phaseTransRequest).ended
        = (s.done.countP fun r => r.phase ≠ .scheduleDist)
          + (if s.current.phase ≠ .scheduleDist then 1 else 0) + phaseTransRequest.toNat := by
    intro phase point phaseTransRequest
    rw [Server.ended, Server.enter, List.countP_append, List.countP_singleton]
    simp
  cases e with
  | turn stack =>
    rw [if_neg (by simp [Server.Asks]), Nat.add_zero]
    obtain ⟨hdone, hrequest, -⟩ | hends := Server.turn_cases hstep
    · rw [Server.ended, hdone, hrequest, Server.ended]
    · obtain ⟨hphase, point, rfl⟩ | ⟨hphase, hrequest, point, rfl⟩ := h.ends_cases hends
      · rw [henter, if_neg (not_not_intro hphase), Nat.add_zero, Server.ended]
      · -- the request is what the phase ends for
        rw [henter, if_pos hphase, Server.ended, hrequest]
        rfl
  | phaseTrans =>
    rw [← Option.some.inj hstep, Server.ended, Server.ended, Nat.add_assoc]
    cases hrequest : s.phaseTransRequest with
    | false =>
      rw [if_pos ⟨rfl, hrequest⟩]
      rfl
    | true =>
      rw [if_neg (by simp [Server.Asks, hrequest])]
      rfl
  | uplink msg =>
    obtain ⟨input, -, rfl⟩ := Option.map_eq_some_iff.mp hstep
    rw [if_neg (by simp [Server.Asks]), Nat.add_zero]
    rfl

/-- **Every phase that is over has done what it has to**, and the phases came in their order: of a
phase that counts, each period was announced in a message, and the number of one that found the
request tells how many periods were left, itself included. -/
theorem phases_complete (p : MacParams) (stack : MsgInfo) (start : StartPhase)
    (events : List ServerEvent) {s : Server}
    (hrun : Runs.run (ServerEvent.step p) (Server.init p stack start) events = some s) :
    s.phases.IsChain OperationPhase.Precedes ∧ (∀ r ∈ s.done, r.Complete p) ∧
      ∀ r ∈ s.done, ∀ i count, r.periods[i]? = some ⟨count, true⟩ →
        i + count.toNat = r.periods.length := by
  have hinv := Server.Inv.of_run hrun
  have hchain := Runs.inv_of_run
    (I := fun s : Server => s.Inv p ∧ s.phases.IsChain OperationPhase.Precedes)
    (fun s e t hs hstep => ⟨hs.1.step hstep, hs.1.isChain_phases hs.2 hstep⟩)
    ⟨Server.inv_init p stack start, by cases start <;> exact List.isChain_singleton _⟩ hrun
  refine ⟨hchain.2, hinv.done, fun r hr i count hi => ?_⟩
  have hcomplete := hinv.done r hr
  rw [PhaseRecord.Complete] at hcomplete
  split at hcomplete
  case h_1 =>
    rw [hcomplete.1] at hi
    exact absurd hi (by simp)
  case h_2 =>
    obtain ⟨m, hperiods, -⟩ := hcomplete
    exact countDown_tells hperiods hi

/-- A data collection that is asked to end at once: six frames, and the turn that ends it. -/
theorem exists_run_ended : ∃ s, Runs.run (ServerEvent.step macDefaults)
    (Server.init macDefaults emptyMsg .dataColl)
    (.phaseTrans :: List.replicate 37 (.turn emptyMsg)) = some s ∧ s.done.length = 1 := by
  refine ((Option.any_eq_true (fun s : Server => decide (s.done.length = 1)) _).mp ?_).imp
    fun s hs => ⟨hs.1, of_decide_eq_true hs.2⟩
  decide +kernel

theorem phases_complete_ended : ∃ s : Server, s.done.length = 1 ∧
    s.phases.IsChain OperationPhase.Precedes ∧ (∀ r ∈ s.done, r.Complete macDefaults) ∧
      ∀ r ∈ s.done, ∀ i count, r.periods[i]? = some ⟨count, true⟩ →
        i + count.toNat = r.periods.length := by
  obtain ⟨s, hrun, hdone⟩ := exists_run_ended
  exact ⟨s, hdone, phases_complete macDefaults emptyMsg .dataColl _ hrun⟩

/-- **Each request that is not a repetition ends one phase that counts**, or is still waiting to;
one that is repeated ends none. -/
theorem phases_asked (p : MacParams) (stack : MsgInfo) (start : StartPhase)
    (events : List ServerEvent) {s : Server}
    (hrun : Runs.run (ServerEvent.step p) (Server.init p stack start) events = some s) :
    (s.done.countP fun r => r.phase ≠ .scheduleDist) + s.phaseTransRequest.toNat
      = Runs.countSteps (ServerEvent.step p) Server.Asks (Server.init p stack start) events := by
  have heq := Runs.eq_of_run (I := Server.Inv p) (μ := Server.ended) (C := Server.Asks)
    (fun s e t hs hstep => ⟨hs.step hstep, hs.ended_eq hstep⟩) (Server.inv_init p stack start) hrun
  have hzero : (Server.init p stack start).ended = 0 := by cases start <;> rfl
  rw [hzero, Nat.zero_add] at heq
  exact heq

/-- The data collection is asked twice, and ends once. -/
theorem phases_asked_twice : ∃ s : Server, Runs.run (ServerEvent.step macDefaults)
      (Server.init macDefaults emptyMsg .dataColl)
      (.phaseTrans :: .phaseTrans :: List.replicate 37 (.turn emptyMsg)) = some s ∧
    (s.done.countP fun r => r.phase ≠ .scheduleDist) + s.phaseTransRequest.toNat = 1 := by
  obtain ⟨s, hrun⟩ : ∃ s, Runs.run (ServerEvent.step macDefaults)
      (Server.init macDefaults emptyMsg .dataColl)
      (.phaseTrans :: .phaseTrans :: List.replicate 37 (.turn emptyMsg)) = some s :=
    Option.isSome_iff_exists.mp (by decide +kernel)
  exact ⟨s, hrun, (phases_asked macDefaults emptyMsg .dataColl _ hrun).trans (by decide +kernel)⟩

/-- **The phase thread is never stuck**: it follows no null pointer, wherever uplinks and requests
come in between its turns. -/
theorem phases_proceed (p : MacParams) (stack stack' : MsgInfo) (start : StartPhase)
    (events : List ServerEvent) {s : Server}
    (hrun : Runs.run (ServerEvent.step p) (Server.init p stack start) events = some s) :
    ∃ t, s.turn p stack' = some t ∧ t.input.mac.Inv p := by
  obtain ⟨t, ht, hinv⟩ := (Server.Inv.of_run hrun).turn stack'
  exact ⟨t, ht, hinv.mac⟩

theorem phases_proceed_ended : ∃ s t : Server, s.done.length = 1 ∧
    s.turn macDefaults emptyMsg = some t ∧ t.input.mac.Inv macDefaults := by
  obtain ⟨s, hrun, hdone⟩ := exists_run_ended
  obtain ⟨t, ht⟩ := phases_proceed macDefaults emptyMsg emptyMsg .dataColl _ hrun
  exact ⟨s, t, hdone, ht⟩

/-! ## Runs to look at -/

/-- A node at `addr`, of class `cls`, registers itself. -/
def requestMsg (addr cls : UInt16) : MsgInfo where
  size := 8
  payload := copy (Vector.replicate 256 0) 0
    ([0x30, 0, 0, 0xBE, 0xAE, 0] ++ le16 (TwohopNodeAddrFormat.ofBits addr cls).value)

end LoRaGwSv
