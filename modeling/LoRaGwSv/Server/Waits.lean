import LoRaGwSv.Server.PhaseRuns
import LoRaGwSv.Server.Sorted

/-!
# Server/Waits — how long a request waits to be answered

`inputMsgHandlerThread` puts the nodes that ask to be registered at the end of RNL, and a period of
the network initialization takes up to twenty of them from its head and lists them in its message.
A node that asks again keeps its place.  So **the node at place `k` of RNL is listed in the message
of the period after the next `k / 20`**, whatever else is asked for in between (`listed_run`).
-/

namespace LoRaGwSv

open Wire

/-- Who waits in RNL, in order. -/
def Mac.waiting (s : Mac) : List UInt16 := s.RNL.nodes.map MngtNode.addr

/-- How many turns of the phase thread there are among the events. -/
def turns (events : List ServerEvent) : ℕ :=
  events.countP fun e => match e with
    | .turn _ => true
    | .phaseTrans | .uplink _ => false

variable {p : MacParams} {s t : Server} {mac mac' : Mac} {lst : MngtNodeList} {l : PhaseLocals}
  {msg dlMsg : MsgInfo} {seq : UInt16} {addInfo addInfo' : UInt8} {events : List ServerEvent}
  {k : ℕ} {a : UInt16}

/-! ## Asking -/

/-- A list that does not sort keeps everybody's place. -/
theorem addr_prefix_pushNode (hsort : lst.sort = false) (n : MngtNode) :
    lst.nodes.map MngtNode.addr <+: (pushNode lst n).2.nodes.map MngtNode.addr := by
  rw [pushNode, isNodeExisted]
  split
  case isTrue h =>
    obtain ⟨e, he⟩ := Option.isSome_iff_exists.mp h
    have hkeep : (lst.writeRef n.addr n.updateGenInfo).nodes.map MngtNode.addr
        = lst.nodes.map MngtNode.addr :=
      Keyed.map_update fun x hx => hx.symm
    rw [dmNodeUpdateGenInfo, he]
    exact hkeep.symm ▸ List.prefix_rfl
  case isFalse h =>
    dsimp only
    rw [hsort, if_neg Bool.false_ne_true, List.map_append]
    exact List.prefix_append _ _

/-- In a list that is not sorted the nodes of a request go to the end, so that those before keep
their places. -/
theorem addr_prefix_requestedRnl (hsort : lst.sort = false) (rs : List Registration) :
    (requestedRnl lst rs).sort = false ∧
      lst.nodes.map MngtNode.addr <+: (requestedRnl lst rs).nodes.map MngtNode.addr := by
  induction rs generalizing lst with
  | nil => exact ⟨hsort, List.prefix_rfl⟩
  | cons r rs ih =>
    obtain ⟨hsort', hprefix⟩ := ih ((sort_pushNode lst r.node).trans hsort)
    exact ⟨hsort', (addr_prefix_pushNode hsort r.node).trans hprefix⟩

/-- **An uplink keeps the places of those who wait.** -/
theorem waiting_uplink {s t : InputState} (hstep : inputMsgHandler s msg = some t)
    (hsort : s.mac.RNL.sort = false) :
    t.mac.RNL.sort = false ∧ s.mac.waiting <+: t.mac.waiting := by
  rw [inputMsgHandler] at hstep
  split at hstep
  case isTrue =>
    rw [handleRequest_eq] at hstep
    obtain rfl := Option.some.inj hstep
    split
    · exact ⟨hsort, List.prefix_rfl⟩
    · exact addr_prefix_requestedRnl hsort _
  case isFalse =>
    split at hstep
    case isTrue =>
      obtain ⟨ws_data_buf, -, rfl⟩ := Option.map_eq_some_iff.mp hstep
      exact ⟨hsort, List.prefix_rfl⟩
    case isFalse =>
      rw [← Option.some.inj hstep]
      exact ⟨hsort, List.prefix_rfl⟩

/-! ## Being listed

A period of the network initialization takes up to twenty nodes from the head of RNL, and each turn
of its loop writes down the node that it takes. -/

/-- A registration in NODES leaves RNL alone. -/
theorem rnl_addNodeToNodeList {n : MngtNode} {x : Bool × Mac}
    (h : addNodeToNodeList mac .NODES n = some x) : x.2.RNL = mac.RNL := by
  rw [addNodeToNodeList] at h
  split at h
  · obtain ⟨NODES, -, rfl⟩ := Option.map_eq_some_iff.mp h
    rfl
  · rw [← Option.some.inj h]
    rfl

/-- The loop takes its nodes from the head of RNL. -/
theorem rnl_rnlLoop {i : ℕ} {w : Payload} {x : Mac × Payload} (h : rnlLoop i mac w = some x) :
    x.1.RNL.nodes = mac.RNL.nodes.drop i ∧ x.1.RNL.sort = mac.RNL.sort := by
  induction i generalizing mac w with
  | zero =>
    rw [rnlLoop] at h
    rw [← Option.some.inj h]
    exact ⟨rfl, rfl⟩
  | succ i ih =>
    rw [rnlLoop] at h
    cases hnodes : mac.RNL.nodes with
    | nil =>
      rw [popHeadNode, hnodes] at h
      have hrest := ih h
      rw [hnodes, List.drop_nil] at hrest
      exact hrest
    | cons n rest =>
      rw [popHeadNode, hnodes] at h
      obtain ⟨y, hy, h⟩ := Option.bind_eq_some_iff.mp h
      have hrnl := rnl_addNodeToNodeList hy
      have hrest := ih h
      rw [hrnl] at hrest
      exact hrest

/-- A registration list takes the first of the nodes that wait, and leaves the others in their
order. -/
theorem waiting_prepare (h : mac.RNL.Waiting)
    (hmsg : prepareDownlinkMsgPayload p mac dlMsg .dlRnl seq addInfo = some (msg, addInfo', mac')) :
    mac'.RNL.sort = mac.RNL.sort ∧
      mac'.waiting = mac.waiting.drop twohopMaxNboNodesInRnl.toNat := by
  rw [prepareDownlinkMsgPayload, prepareRnl, Option.map_map] at hmsg
  obtain ⟨x, hx, heq⟩ := Option.map_eq_some_iff.mp hmsg
  obtain rfl : x.1 = mac' := congrArg (fun r => r.2.2) heq
  obtain ⟨hnodes, hsort⟩ := rnl_rnlLoop hx
  refine ⟨hsort, ?_⟩
  rw [Mac.waiting, hnodes, h.nboAddedNodes_eq, Mac.listed, List.length_take, Mac.waiting,
    ← List.map_drop]
  rcases Nat.le_total twohopMaxNboNodesInRnl.toNat mac.RNL.nodes.length with hle | hle
  · rw [Nat.min_eq_left hle]
  · rw [Nat.min_eq_right hle, List.drop_length, List.drop_eq_nil_of_le hle]

/-- **A period of the network initialization** ends the phase, or lists the head of RNL. -/
theorem Server.Inv.initNetwork_turn (h : s.Inv p) (hpoint : s.point = .initNetwork l)
    {stack : MsgInfo} (hturn : s.turn p stack = some t) :
    t.done = s.done ++ [s.current] ∨
      ∃ l' msg seq netReadyFlag, t.point = .initNetwork l' ∧ t.done = s.done ∧
        t.current.sent = s.current.sent ++ [msg] ∧
        msg.bytes = rnlBytes p seq netReadyFlag s.input.mac.listed ∧
        t.input.mac.RNL.sort = s.input.mac.RNL.sort ∧
        t.input.mac.waiting = s.input.mac.waiting.drop twohopMaxNboNodesInRnl.toNat := by
  rw [Server.turn, hpoint] at hturn
  dsimp only at hturn
  rw [Server.initNetworkTurn] at hturn
  split_ifs at hturn
  · rw [← Option.some.inj hturn]
    exact Or.inl rfl
  · dsimp only at hturn
    obtain ⟨dlMsg, mac, hmsg, -, hsize, hbytes⟩ := h.mac.rnl (l.next s.phaseTransRequest).dlMsg
      (l.next s.phaseTransRequest).count s.phaseTransRequest.toUInt8
    obtain ⟨hsort, hwaiting⟩ := waiting_prepare h.mac.inOrder.waiting hmsg
    rw [hmsg] at hturn
    rw [← Option.some.inj hturn]
    refine Or.inr ⟨_, dlMsg, _, _, rfl, rfl, ?_, hbytes, hsort, hwaiting⟩
    exact congrArg PhaseRecord.sent (PhaseRecord.send_of_size hsize)

/-! ## What a run keeps -/

/-- Where `t` may come from `s`: the phase of `s` is over, or it goes on and has sent what it had
sent. -/
def Server.Before (s t : Server) : Prop :=
  s.done.length < t.done.length ∨ t.done = s.done ∧ s.current.sent <+: t.current.sent

/-- What comes before what comes before comes before. -/
theorem Server.Before.trans {s t u : Server} (h : s.Before t) (h' : t.Before u) : s.Before u := by
  obtain hlt | ⟨hdone, hsent⟩ := h
  · obtain hlt' | ⟨hdone', -⟩ := h'
    · exact Or.inl (hlt.trans hlt')
    · exact Or.inl (hdone' ▸ hlt)
  · obtain hlt' | ⟨hdone', hsent'⟩ := h'
    · exact Or.inl (hdone ▸ hlt')
    · exact Or.inr ⟨hdone'.trans hdone, hsent.trans hsent'⟩

/-- A message is recorded behind those sent before it. -/
theorem PhaseRecord.sent_prefix_send (r : PhaseRecord) (dlMsg : MsgInfo) :
    r.sent <+: (r.send dlMsg).sent := by
  rw [PhaseRecord.send]
  split
  case isTrue => exact List.prefix_append _ _
  case isFalse => exact List.prefix_rfl

/-- A turn that goes on with the phase takes back none of its messages. -/
theorem Server.Extends.sent_prefix {r : PhaseRecord} (h : s.Extends p r) :
    s.current.sent <+: r.sent := by
  cases h with
  | same => exact List.prefix_rfl
  | counted x => exact List.prefix_rfl
  | made hmac => exact List.prefix_rfl
  | sent hr htype hmsg =>
    obtain rfl | ⟨x, rfl⟩ := hr
    · exact PhaseRecord.sent_prefix_send _ _
    · exact (PhaseRecord.sent_prefix_send (s.current.period x) _)

/-- **No step takes back what has been sent**: it sends on in the running phase, or ends it. -/
theorem Server.before_of_step {e : ServerEvent} (hstep : e.step p s = some t) : s.Before t := by
  cases e with
  | turn stack =>
    obtain ⟨hdone, -, hextends⟩ | hends := Server.turn_cases hstep
    · exact Or.inr ⟨hdone, hextends.sent_prefix⟩
    · obtain ⟨phase, point, phaseTransRequest, rfl⟩ := hends.exists_enter
      refine Or.inl ?_
      rw [Server.enter, List.length_append]
      exact Nat.lt_succ_self _
  | phaseTrans =>
    rw [← Option.some.inj hstep]
    exact Or.inr ⟨rfl, List.prefix_rfl⟩
  | uplink msg =>
    obtain ⟨input, -, rfl⟩ := Option.map_eq_some_iff.mp hstep
    exact Or.inr ⟨rfl, List.prefix_rfl⟩

theorem Server.before_of_run (hrun : Runs.run (ServerEvent.step p) s events = some t) :
    s.Before t :=
  Runs.inv_of_run (I := s.Before) (fun _ _ _ hs hstep => hs.trans (before_of_step hstep))
    (Or.inr ⟨rfl, List.prefix_rfl⟩) hrun

/-- A phase that is over stays so. -/
theorem Server.done_ne_of_over (hover : s.done = t.done ++ [t.current]) {u : Server}
    (hrun : Runs.run (ServerEvent.step p) s events = some u) : u.done ≠ t.done := by
  intro hdone
  have hlen := congrArg List.length hdone
  have hmore := congrArg List.length hover
  rw [List.length_append, List.length_singleton] at hmore
  obtain hlt | ⟨heq, -⟩ := before_of_run hrun
  · omega
  · rw [heq] at hlen
    omega

/-- A scheduling message leaves RNL alone. -/
theorem rnl_prepareSm {w : Payload} {x : MsgInfo × UInt8 × Mac}
    (h : prepareSm mac w seq addInfo = some x) : x.2.2.RNL = mac.RNL := by
  simp only [prepareSm] at h
  split at h
  · rw [← Option.some.inj h]
  · split at h
    · rw [← Option.some.inj h]
    · obtain ⟨y, -, rfl⟩ := Option.map_eq_some_iff.mp h
      rfl

theorem rnl_prepareCm {w : Payload} {x : MsgInfo × Mac} (h : prepareCm mac w seq = some x) :
    x.2.RNL = mac.RNL := by
  simp only [prepareCm] at h
  split at h
  · obtain ⟨y, -, rfl⟩ := Option.map_eq_some_iff.mp h
    rfl
  · rw [← Option.some.inj h]

/-- To make a schedule leaves RNL alone. -/
theorem rnl_schedule {phase : OperationPhase} (hcons : mac.Consistent p)
    (h : schedule phase mac = some mac') : mac'.RNL = mac.RNL := by
  obtain ⟨made, hmade, -, hsince⟩ := schedule_spec hcons phase
  rw [← Option.some.inj (hmade.symm.trans h)]
  exact hsince.rnl

/-- To register the node at the head of RNL takes it out, and leaves the others in their order. -/
theorem sort_takeWaiting {n : MngtNode} (hpop : (popHeadNode mac.RNL).1 = some n)
    (h : takeWaiting mac = some mac') : mac'.RNL.sort = mac.RNL.sort := by
  cases hnodes : mac.RNL.nodes with
  | nil =>
    rw [popHeadNode, hnodes] at hpop
    exact absurd hpop (Option.some_ne_none n).symm
  | cons m rest =>
    rw [takeWaiting, popHeadNode, hnodes] at h
    obtain ⟨y, hy, rfl⟩ := Option.map_eq_some_iff.mp h
    exact (congrArg MngtNodeList.sort (rnl_addNodeToNodeList hy) :)

/-- No stage of a data collection frame sorts RNL. -/
theorem Server.Inv.sort_dataCollTurn (h : s.Inv p) {stack : MsgInfo} {stage : FrameStage}
    (hturn : s.dataCollTurn p stack l stage = some t) :
    t.input.mac.RNL.sort = s.input.mac.RNL.sort := by
  cases stage with
  | decide =>
    rw [Server.dataCollTurn] at hturn
    split_ifs at hturn
    · rw [← Option.some.inj hturn]
      rfl
    · rw [← Option.some.inj hturn]
  | checkDataMissed =>
    rw [← Option.some.inj hturn]
    rfl
  | takeWaiting =>
    rw [Server.dataCollTurn] at hturn
    split at hturn
    case h_1 n hpop =>
      obtain ⟨mac, hmac, rfl⟩ := Option.map_eq_some_iff.mp hturn
      exact sort_takeWaiting hpop hmac
    case h_2 =>
      rw [← Option.some.inj hturn]
  | schedule =>
    obtain ⟨mac, hmac, rfl⟩ := Option.map_eq_some_iff.mp hturn
    exact congrArg MngtNodeList.sort (rnl_schedule h.mac.inOrder.consistent hmac)
  | command =>
    obtain ⟨x, hx, rfl⟩ := Option.map_eq_some_iff.mp hturn
    obtain ⟨y, hy, rfl⟩ := Option.map_eq_some_iff.mp hx
    exact congrArg MngtNodeList.sort (rnl_prepareCm hy)
  | appParseData =>
    rw [← Option.some.inj hturn]

theorem Server.Inv.sort_turn (h : s.Inv p) {stack : MsgInfo} (hturn : s.turn p stack = some t) :
    t.input.mac.RNL.sort = s.input.mac.RNL.sort := by
  rw [Server.turn] at hturn
  split at hturn
  case h_1 l hpoint =>
    rw [Server.initNetworkTurn] at hturn
    split_ifs at hturn
    · rw [← Option.some.inj hturn]
      rfl
    · obtain ⟨x, hx, rfl⟩ := Option.map_eq_some_iff.mp hturn
      exact (waiting_prepare h.mac.inOrder.waiting hx).1
  case h_2 dlMsg hpoint =>
    obtain ⟨mac, hmac, rfl⟩ := Option.map_eq_some_iff.mp hturn
    have hrnl := rnl_schedule h.mac.inOrder.consistent.resetSchedule hmac
    exact congrArg MngtNodeList.sort hrnl
  case h_3 sch1Cnt sch2Sslot dlMsg hpoint =>
    rw [Server.sch1Turn] at hturn
    split_ifs at hturn
    · obtain ⟨x, hx, rfl⟩ := Option.map_eq_some_iff.mp hturn
      exact congrArg MngtNodeList.sort (rnl_prepareSm hx)
    · rw [← Option.some.inj hturn]
      rfl
  case h_4 stage l hpoint => exact h.sort_dataCollTurn hturn

/-- **RNL keeps the order in which the nodes have asked**, in every state of a run. -/
theorem Server.sort_of_run {stack : MsgInfo} {start : StartPhase}
    (hrun : Runs.run (ServerEvent.step p) (Server.init p stack start) events = some s) :
    s.input.mac.RNL.sort = false := by
  have hinit : (Server.init p stack start).input.mac.RNL.sort = false := by
    cases start with
    | dataColl => rfl
    | networkInit => rfl
  refine (Runs.inv_of_run (I := fun s : Server => s.Inv p ∧ s.input.mac.RNL.sort = false)
    (fun s e t hs hstep => ⟨hs.1.step hstep, ?_⟩) ⟨Server.inv_init p stack start, hinit⟩ hrun).2
  cases e with
  | turn stack => exact (hs.1.sort_turn hstep).trans hs.2
  | phaseTrans =>
    rw [← Option.some.inj hstep]
    exact hs.2
  | uplink msg =>
    obtain ⟨input, hinput, rfl⟩ := Option.map_eq_some_iff.mp hstep
    exact (waiting_uplink hinput hs.2).1

/-! ## Waiting

Each registration list serves up to its number of nodes from the front, so a node moves up by that
many with each, and its turn comes after as many lists as there are full ones before it. -/

/-- An entry of a list stays where it is when the list is extended. -/
theorem getElem?_extends {α : Type*} {l l' : List α} (h : l <+: l') {i : ℕ} {x : α}
    (hx : l[i]? = some x) : l'[i]? = some x := by
  obtain ⟨hi, rfl⟩ := List.getElem?_eq_some_iff.mp hx
  exact List.prefix_iff_getElem?.mp h i hi

/-- A message that lists the head of RNL names whoever has one of the first places. -/
theorem Server.Inv.named (h : s.Inv p) (hk : s.input.mac.waiting[k]? = some a)
    (hlt : k < twohopMaxNboNodesInRnl.toNat) {netReadyFlag : Bool}
    (hbytes : msg.bytes = rnlBytes p seq netReadyFlag s.input.mac.listed) :
    ∃ rnl, parseAll parseRnl msg.bytes = some rnl ∧ a.toNat ∈ rnl.nodes.map Prod.fst := by
  have htwenty : twohopMaxNboNodesInRnl.toNat = 20 := rfl
  have hlen : s.input.mac.listed.length ≤ 20 := List.length_take_le _ _
  have hfresh : ∀ n ∈ s.input.mac.listed, n.Fresh := fun n hn =>
    h.mac.inOrder.waiting.fresh n (List.mem_of_mem_take hn)
  have hread := parseRnl_rnlBytes p seq netReadyFlag hfresh (by omega)
  refine ⟨_, (congrArg _ hbytes).trans hread, ?_⟩
  rw [Mac.waiting, List.getElem?_map, Option.map_eq_some_iff] at hk
  obtain ⟨n, hn, rfl⟩ := hk
  have hmem : n ∈ s.input.mac.listed := by
    refine List.mem_of_getElem? (i := k) ?_
    rw [Mac.listed, List.getElem?_take_of_lt hlt, hn]
  rw [List.map_map]
  exact List.mem_map.mpr ⟨n, hmem, rfl⟩

/-- **Who waits at place `k` is listed in the message after the next `k / 20`.** -/
theorem Server.Inv.listed (hs : s.Inv p) (hsort : s.input.mac.RNL.sort = false)
    (hpoint : s.point = .initNetwork l) (hk : s.input.mac.waiting[k]? = some a)
    (hrun : Runs.run (ServerEvent.step p) s events = some t) (hdone : t.done = s.done)
    (hturns : k / twohopMaxNboNodesInRnl.toNat < turns events) :
    ∃ msg rnl,
      t.current.sent[s.current.sent.length + k / twohopMaxNboNodesInRnl.toNat]? = some msg ∧
      parseAll parseRnl msg.bytes = some rnl ∧ a.toNat ∈ rnl.nodes.map Prod.fst := by
  induction events generalizing s l k with
  | nil => exact absurd hturns (Nat.not_lt_zero _)
  | cons e events ih =>
    obtain ⟨u, hstep, hrest⟩ := Option.bind_eq_some_iff.mp hrun
    cases e with
    | turn stack =>
      obtain hover | ⟨l', msg, seq, netReadyFlag, hpoint', hdone', hsent, hbytes, hsort',
        hwaiting⟩ := hs.initNetwork_turn hpoint hstep
      · exact absurd hdone (Server.done_ne_of_over hover hrest)
      · rcases Nat.lt_or_ge k twohopMaxNboNodesInRnl.toNat with hlt | hge
        · obtain ⟨rnl, hread, hnamed⟩ := hs.named hk hlt hbytes
          refine ⟨msg, rnl, ?_, hread, hnamed⟩
          obtain hlt' | ⟨-, hprefix⟩ := Server.before_of_run hrest
          · rw [hdone, hdone'] at hlt'
            exact absurd hlt' (Nat.lt_irrefl _)
          · refine getElem?_extends hprefix ?_
            rw [hsent, Nat.div_eq_of_lt hlt, Nat.add_zero, List.getElem?_concat_length]
        · have hk' : u.input.mac.waiting[k - twohopMaxNboNodesInRnl.toNat]? = some a := by
            rw [hwaiting, List.getElem?_drop, Nat.add_sub_cancel' hge, hk]
          have hcount : turns (.turn stack :: events) = turns events + 1 :=
            List.countP_cons_of_pos rfl
          have hdiv : k / twohopMaxNboNodesInRnl.toNat
              = (k - twohopMaxNboNodesInRnl.toNat) / twohopMaxNboNodesInRnl.toNat + 1 :=
            Nat.div_eq_sub_div (by decide) hge
          have hlisted := ih (hs.step hstep) (hsort'.trans hsort) hpoint' hk' hrest
            (hdone.trans hdone'.symm) (by omega)
          rw [hsent, List.length_append, List.length_singleton] at hlisted
          rwa [hdiv, Nat.add_comm _ 1, ← Nat.add_assoc]
    | phaseTrans =>
      obtain rfl := Option.some.inj hstep
      exact ih (s := { s with phaseTransRequest := true }) (hs.step hstep) hsort hpoint hk hrest
        hdone hturns
    | uplink msg =>
      obtain ⟨input, hinput, rfl⟩ := Option.map_eq_some_iff.mp hstep
      obtain ⟨hsort', hprefix⟩ := waiting_uplink hinput hsort
      exact ih (s := { s with input := input }) (hs.step hstep) hsort' hpoint
        (getElem?_extends hprefix hk) hrest hdone hturns

/-- **No request waits longer than those before it take**: in every run, as long as the network
initialization goes on, the node at place `k` of RNL is listed in the message after the next
`k / 20`, whatever comes in between. -/
theorem listed_run (p : MacParams) (stack : MsgInfo) (start : StartPhase)
    (before events : List ServerEvent) {s t : Server}
    (hrun : Runs.run (ServerEvent.step p) (Server.init p stack start) before = some s)
    {l : PhaseLocals} (hpoint : s.point = .initNetwork l) {k : ℕ} {a : UInt16}
    (hk : s.input.mac.waiting[k]? = some a)
    (hrun' : Runs.run (ServerEvent.step p) s events = some t) (hdone : t.done = s.done)
    (hturns : k / 20 < turns events) :
    ∃ msg rnl, t.current.sent[s.current.sent.length + k / 20]? = some msg ∧
      parseAll parseRnl msg.bytes = some rnl ∧ a.toNat ∈ rnl.nodes.map Prod.fst :=
  (Server.Inv.of_run hrun).listed (Server.sort_of_run hrun) hpoint hk hrun' hdone hturns

/-- The phase thread stands in the network initialization. -/
def PhasePoint.isInitNetwork : PhasePoint → Bool
  | .initNetwork _ => true
  | .makeSchedule _ | .sch1 _ _ _ | .dataColl _ _ => false

theorem PhasePoint.exists_initNetwork {point : PhasePoint} (h : point.isInitNetwork = true) :
    ∃ l, point = .initNetwork l := by
  cases point with
  | initNetwork l => exact ⟨l, rfl⟩
  | makeSchedule dlMsg => exact absurd h Bool.false_ne_true
  | sch1 sch1Cnt sch2Sslot dlMsg => exact absurd h Bool.false_ne_true
  | dataColl stage l => exact absurd h Bool.false_ne_true

/-- Twenty-one nodes ask, one after the other. -/
def twentyOneRequests : List ServerEvent :=
  (List.range 21).map fun i => .uplink (requestMsg (UInt16.ofNat (i + 1)) 2)

/-- The last of them is listed in the second message. -/
theorem listed_run_twentyOne : ∃ (t : Server) (msg : MsgInfo) (rnl : RnlMsg),
    t.current.sent[1]? = some msg ∧ parseAll parseRnl msg.bytes = some rnl ∧
      21 ∈ rnl.nodes.map Prod.fst := by
  obtain ⟨s, hrun, hs⟩ := (Option.any_eq_true (fun s : Server =>
      decide (s.point.isInitNetwork = true ∧ s.current.sent.length = 0 ∧
        s.input.mac.waiting[20]? = some 21) &&
      (Runs.run (ServerEvent.step macDefaults) s
        [.turn emptyMsg, .uplink (requestMsg 100 2), .turn emptyMsg]).any
          fun t : Server => decide (t.done = s.done))
    (Runs.run (ServerEvent.step macDefaults) (Server.init macDefaults emptyMsg .networkInit)
      twentyOneRequests)).mp (by decide +kernel)
  rw [Bool.and_eq_true_iff] at hs
  obtain ⟨hpoint, hsent, hk⟩ := of_decide_eq_true hs.1
  obtain ⟨l, hpoint⟩ := PhasePoint.exists_initNetwork hpoint
  obtain ⟨t, hrun', hdone⟩ := (Option.any_eq_true _ _).mp hs.2
  obtain ⟨msg, rnl, hmsg, hread, hnamed⟩ := listed_run macDefaults emptyMsg .networkInit _ _ hrun
    hpoint hk hrun' (of_decide_eq_true hdone) (by decide)
  rw [hsent] at hmsg
  exact ⟨t, msg, rnl, hmsg, hread, hnamed⟩

end LoRaGwSv
