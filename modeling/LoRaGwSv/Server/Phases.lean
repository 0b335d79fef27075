import LoRaGwSv.Server.Calls
import LoRaGwSv.Server.WeatherDevice

/-!
# Server/Phases — the phases of the MAC (`rtlora_mac.c`)

`phaseHandlerThread` runs the phases in turn, and two other threads run beside it: one handles
uplinks, one sets `phaseTransRequest` when the operator asks for a transition.  A state of the
server is where the phase thread stands, with the locals of the phase it is in, and an event is a
turn of that thread up to its next point, an uplink, or a request.

The network initialization and the data collection count their periods up until they find the
request; from then on they count down, and **a phase ends exactly when its countdown has been sent,
whatever happens in between** (`phases_complete`).  Each end takes the request away, so that no more
of these phases end than were asked for (`phases_asked`); and after any events the phase thread has
a next turn (`phases_proceed`).
-/

namespace LoRaGwSv

/-- `TWOHOP_NBO_PHASE_TRANS_PERIOD`. -/
def twohopNboPhaseTransPeriod : UInt16 := 6

/-- `phaseTransCount`, the count of periods (`rnlIntCount` or `framePeriodCnt`), and `dlMsg`. -/
structure PhaseLocals where
  phaseTransCount : UInt16
  count : UInt16
  dlMsg : MsgInfo
deriving DecidableEq

/-- The points of a frame of the data collection phase. -/
inductive FrameStage
  | decide
  | checkDataMissed
  | takeWaiting
  | schedule
  | command
  | appParseData
deriving DecidableEq, Repr

/-- Where `phaseHandlerThread` stands. -/
inductive PhasePoint
  | initNetwork (l : PhaseLocals)
  | makeSchedule (dlMsg : MsgInfo)
  | sch1 (sch1Cnt : ℕ) (sch2Sslot : UInt8) (dlMsg : MsgInfo)
  | dataColl (stage : FrameStage) (l : PhaseLocals)
deriving DecidableEq

/-- A period of a phase that counts them: its count, and `phaseTransRequest` as it found it. -/
structure Period where
  count : UInt16
  phaseTransRequest : Bool
deriving DecidableEq, Repr

/-- What a phase has done: its periods, the state its schedule was made in, the messages it has
sent. -/
structure PhaseRecord where
  phase : OperationPhase
  periods : List Period
  made : Option Mac
  sent : List MsgInfo
deriving DecidableEq

/-- The state of the server; `done` and `current` are the history of its phases. -/
structure Server where
  input : InputState
  point : PhasePoint
  phaseTransRequest : Bool
  done : List PhaseRecord
  current : PhaseRecord
deriving DecidableEq

/-- The other threads, and a turn of the phase thread; `stack` is what the locals of a phase that
starts happen to hold. -/
inductive ServerEvent
  | turn (stack : MsgInfo)
  | phaseTrans
  | uplink (msg : MsgInfo)
deriving DecidableEq

/-- The locals at the start of a phase that counts. -/
def PhaseLocals.init (stack : MsgInfo) : PhaseLocals := ⟨twohopNboPhaseTransPeriod, 0, stack⟩

/-- The next period. -/
def PhaseLocals.next (l : PhaseLocals) (phaseTransRequest : Bool) : PhaseLocals :=
  if phaseTransRequest then
    { l with count := l.phaseTransCount, phaseTransCount := l.phaseTransCount - 1 }
  else { l with count := l.count + 1 }

/-- A phase that has just begun. -/
def PhaseRecord.start (phase : OperationPhase) : PhaseRecord := ⟨phase, [], none, []⟩

/-- `if(dlMsg.size != 0)` the message is put into `outboundMsgQueue`. -/
def PhaseRecord.send (r : PhaseRecord) (dlMsg : MsgInfo) : PhaseRecord :=
  if dlMsg.size ≠ 0 then { r with sent := r.sent ++ [dlMsg] } else r

/-- A period that begins is noted. -/
def PhaseRecord.period (r : PhaseRecord) (x : Period) : PhaseRecord :=
  { r with periods := r.periods ++ [x] }

/-- `phaseTransRequest = false`, and the phase is over. -/
def Server.enter (s : Server) (phase : OperationPhase) (point : PhasePoint)
    (phaseTransRequest : Bool) : Server :=
  { s with
    point := point
    phaseTransRequest := phaseTransRequest
    done := s.done ++ [s.current]
    current := .start phase }

/-- The MAC after a call. -/
def Server.withMac (s : Server) (mac : Mac) : Server :=
  { s with input := { s.input with mac := mac } }

/-- `initNetworkPhase`, from the head of its loop to the next. -/
def Server.initNetworkTurn (p : MacParams) (stack : MsgInfo) (s : Server) (l : PhaseLocals) :
    Option Server :=
  if l.phaseTransCount = 0 then some (s.enter .scheduleDist (.makeSchedule stack) false)
  else
    let l := l.next s.phaseTransRequest
    (prepareDownlinkMsgPayload p s.input.mac l.dlMsg .dlRnl l.count
        s.phaseTransRequest.toUInt8).map fun (dlMsg, _, mac) =>
      { s.withMac mac with
        point := .initNetwork { l with dlMsg := dlMsg }
        current := (s.current.period ⟨l.count, s.phaseTransRequest⟩).send dlMsg }

/-- `scheduleDistributionPhase`, up to SCH1. -/
def Server.makeScheduleTurn (s : Server) (dlMsg : MsgInfo) : Option Server :=
  (schedule .scheduleDist (resetSchedule s.input.mac)).map fun mac =>
    { s.withMac mac with
      point := .sch1 1 1 dlMsg
      current := { s.current with made := some mac } }

/-- A slot of SCH1, or the end of it. -/
def Server.sch1Turn (p : MacParams) (stack : MsgInfo) (s : Server) (sch1Cnt : ℕ)
    (sch2Sslot : UInt8) (dlMsg : MsgInfo) : Option Server :=
  if sch1Cnt ≤ twohopNboSlotsInSch1 then
    (prepareDownlinkMsgPayload p s.input.mac dlMsg .dlSm (UInt16.ofNat sch1Cnt) sch2Sslot).map
      fun (dlMsg, sch2Sslot, mac) =>
        { s.withMac mac with
          point := .sch1 (sch1Cnt + 1) sch2Sslot dlMsg
          current := s.current.send dlMsg }
  else some (s.enter .dataColl (.dataColl .decide (.init stack)) s.phaseTransRequest)

/-- `dataCollectionPhase`, from one point of a frame to the next. -/
def Server.dataCollTurn (p : MacParams) (stack : MsgInfo) (s : Server) (l : PhaseLocals) :
    FrameStage → Option Server
  | .decide =>
    if l.phaseTransCount = 0 then some (s.enter .scheduleDist (.makeSchedule stack) false)
    else
      let l := l.next s.phaseTransRequest
      some { s with
        point := .dataColl .checkDataMissed l
        current := s.current.period ⟨l.count, s.phaseTransRequest⟩ }
  | .checkDataMissed =>
    let mac := s.input.mac
    some { s.withMac { mac with NODES := dmCheckDataMissed mac.NODES } with
      point := .dataColl .takeWaiting l }
  | .takeWaiting =>
    match (popHeadNode s.input.mac.RNL).1 with
    | some _ => (takeWaiting s.input.mac).map s.withMac
    | none => some { s with point := .dataColl .schedule l }
  | .schedule =>
    (schedule .dataColl s.input.mac).map fun mac =>
      { s.withMac mac with point := .dataColl .command l }
  | .command =>
    (prepareDownlinkMsgPayload p s.input.mac l.dlMsg .dlCm l.count 0).map fun (dlMsg, _, mac) =>
      { s.withMac mac with
        point := .dataColl .appParseData { l with dlMsg := dlMsg }
        current := s.current.send dlMsg }
  | .appParseData =>
    some { s with
      input := { s.input with ws_data_buf := s.input.ws_data_buf.map WsDataBuffer.aged }
      point := .dataColl .decide l }

/-- A turn of `phaseHandlerThread`. -/
def Server.turn (p : MacParams) (stack : MsgInfo) (s : Server) : Option Server :=
  match s.point with
  | .initNetwork l => s.initNetworkTurn p stack l
  | .makeSchedule dlMsg => s.makeScheduleTurn dlMsg
  | .sch1 sch1Cnt sch2Sslot dlMsg => s.sch1Turn p stack sch1Cnt sch2Sslot dlMsg
  | .dataColl stage l => s.dataCollTurn p stack l stage

/-- An event. -/
def ServerEvent.step (p : MacParams) (s : Server) : ServerEvent → Option Server
  | .turn stack => s.turn p stack
  | .phaseTrans => some { s with phaseTransRequest := true }
  | .uplink msg => (inputMsgHandler s.input msg).map fun input => { s with input := input }

/-- The two values of `phase` that `twohopLoRaMacInit` has a line for: "for testing, go directly to
DC", and the line this replaces. -/
inductive StartPhase
  | dataColl
  | networkInit
deriving DecidableEq

/-- The server as it starts, with the phase it is told to start with. -/
def Server.init (p : MacParams) (stack : MsgInfo) : StartPhase → Server
  | .dataColl =>
    ⟨serverStart p, .dataColl .decide (.init stack), false, [], .start .dataColl⟩
  | .networkInit =>
    ⟨serverStart p, .initNetwork (.init stack), false, [], .start .networkInit⟩

/-! ## What a phase has to do -/

/-- The periods before the request, `m` of them. -/
def countUp (m : ℕ) : List Period := (List.range m).map fun k => ⟨UInt16.ofNat (k + 1), false⟩

/-- The periods from the request on, `n` of them. -/
def countDown (n : ℕ) : List Period :=
  (List.range n).map fun k => ⟨UInt16.ofNat (twohopNboPhaseTransPeriod.toNat - k), true⟩

/-- A message that numbers a period: a registration node list, which tells whether the request was
there, or a command message. -/
def MsgInfo.Announces (p : MacParams) (phase : OperationPhase) (msg : MsgInfo) (x : Period) :
    Prop :=
  match phase with
  | .networkInit =>
    ∃ ns : List MngtNode, (∀ n ∈ ns, n.Fresh) ∧ ns.length ≤ twohopMaxNboNodesInRnl.toNat ∧
      msg.bytes = rnlBytes p x.count x.phaseTransRequest ns
  | .dataColl => ∃ s : Mac, s.Inv p ∧ msg.bytes = cmBytes p s x.count
  | .scheduleDist => False

/-- A phase that counts has counted up and then down to the end, and sent a message for each period;
a schedule distribution has sent its schedule. -/
def PhaseRecord.Complete (p : MacParams) (r : PhaseRecord) : Prop :=
  match r.phase with
  | .scheduleDist => r.periods = [] ∧ ∃ s sch2Sslot, r.made = some s ∧ s.Inv p ∧
      SmTrain p s.NODES 1 r.sent (smBatches s.SCHEDULES) sch2Sslot
  | phase => ∃ m, r.periods = countUp m ++ countDown twohopNboPhaseTransPeriod.toNat ∧
      List.Forall₂ (MsgInfo.Announces p phase) r.sent r.periods

/-- The phases after one another. -/
def OperationPhase.Precedes (phase next : OperationPhase) : Prop :=
  if phase = .scheduleDist then next = .dataColl else next = .scheduleDist

/-! ## Counting -/

/-- A phase that has counted `m` periods up and `n` down. -/
structure PhaseLocals.Counts (l : PhaseLocals) (phaseTransRequest : Bool) (periods : List Period)
    (m n : ℕ) : Prop where
  periods_eq : periods = countUp m ++ countDown n
  left : n + l.phaseTransCount.toNat = twohopNboPhaseTransPeriod.toNat
  asked : 0 < n → phaseTransRequest = true
  count_eq : n = 0 → l.count = UInt16.ofNat m

theorem countUp_succ (m : ℕ) : countUp (m + 1) = countUp m ++ [⟨UInt16.ofNat (m + 1), false⟩] := by
  rw [countUp, List.range_succ, List.map_append]
  rfl

theorem countDown_succ (n : ℕ) : countDown (n + 1)
    = countDown n ++ [⟨UInt16.ofNat (twohopNboPhaseTransPeriod.toNat - n), true⟩] := by
  rw [countDown, List.range_succ, List.map_append]
  rfl

variable {l : PhaseLocals} {phaseTransRequest : Bool} {periods : List Period} {m n : ℕ}

/-- Before the first period nothing has been counted. -/
theorem PhaseLocals.counts_init (stack : MsgInfo) (phaseTransRequest : Bool) :
    (PhaseLocals.init stack).Counts phaseTransRequest [] 0 0 where
  periods_eq := rfl
  left := rfl
  asked h := absurd h (lt_irrefl 0)
  count_eq _ := rfl

theorem PhaseLocals.Counts.request (h : l.Counts phaseTransRequest periods m n) :
    l.Counts true periods m n :=
  ⟨h.periods_eq, h.left, fun _ => rfl, h.count_eq⟩

/-- **One more period**: up while there is no request, down once there is one. -/
theorem PhaseLocals.Counts.next (h : l.Counts phaseTransRequest periods m n)
    (hleft : l.phaseTransCount ≠ 0) :
    ∃ m n, (l.next phaseTransRequest).Counts phaseTransRequest
      (periods ++ [⟨(l.next phaseTransRequest).count, phaseTransRequest⟩]) m n := by
  have hpos : 0 < l.phaseTransCount.toNat := Nat.pos_of_ne_zero fun h0 =>
    hleft (UInt16.toNat_inj.mp h0)
  have hsum := h.left
  cases phaseTransRequest with
  | false =>
    -- nothing is counted down yet
    obtain rfl : n = 0 := Nat.eq_zero_of_not_pos fun hn => absurd (h.asked hn) Bool.false_ne_true
    have hcount : (l.next false).count = UInt16.ofNat (m + 1) := by
      rw [PhaseLocals.next, if_neg Bool.false_ne_true, h.count_eq rfl, UInt16.ofNat_add]
      rfl
    refine ⟨m + 1, 0, ?_, h.left, fun hn => absurd hn (lt_irrefl 0), fun _ => hcount⟩
    rw [h.periods_eq, hcount, countUp_succ]
    simp [countDown]
  | true =>
    have hcount : (l.next true).count
        = UInt16.ofNat (twohopNboPhaseTransPeriod.toNat - n) := by
      rw [PhaseLocals.next, if_pos rfl, ← hsum, Nat.add_sub_cancel_left, UInt16.ofNat_toNat]
    refine ⟨m, n + 1, ?_, ?_, fun _ => rfl, fun hn => absurd hn (Nat.succ_ne_zero n)⟩
    · rw [h.periods_eq, hcount, countDown_succ, List.append_assoc]
    · have hstep : (l.phaseTransCount - 1).toNat = l.phaseTransCount.toNat - 1 := by
        have hone : (1 : UInt16) ≤ l.phaseTransCount := UInt16.le_iff_toNat_le.mpr hpos
        rw [UInt16.toNat_sub_of_le _ _ hone]
        rfl
      rw [PhaseLocals.next, if_pos rfl, hstep]
      omega

/-- **The end of the count**: all of the countdown, and the request that started it. -/
theorem PhaseLocals.Counts.over (h : l.Counts phaseTransRequest periods m n)
    (hleft : l.phaseTransCount = 0) :
    phaseTransRequest = true ∧
      periods = countUp m ++ countDown twohopNboPhaseTransPeriod.toNat := by
  have hn : n = twohopNboPhaseTransPeriod.toNat := by
    have hsum := h.left
    rw [hleft] at hsum
    exact hsum
  refine ⟨h.asked ?_, hn ▸ h.periods_eq⟩
  rw [hn]
  decide

/-- **A period of a countdown tells how many are left**, itself included. -/
theorem countDown_tells {r : List Period} (hr : r = countUp m ++ countDown
      twohopNboPhaseTransPeriod.toNat) {i : ℕ} {count : UInt16}
    (hi : r[i]? = some ⟨count, true⟩) : i + count.toNat = r.length := by
  have hlen : (countUp m).length = m := by rw [countUp, List.length_map, List.length_range]
  subst hr
  have hm : m ≤ i := by
    by_contra hlt
    rw [List.getElem?_append_left (by omega), countUp, List.getElem?_map] at hi
    obtain ⟨k, -, hk⟩ := Option.map_eq_some_iff.mp hi
    exact Bool.false_ne_true (Period.mk.inj hk).2
  rw [List.getElem?_append_right (by omega), hlen, countDown, List.getElem?_map] at hi
  obtain ⟨k, hk, heq⟩ := Option.map_eq_some_iff.mp hi
  obtain ⟨hlt, rfl⟩ := List.getElem?_eq_some_iff.mp hk
  rw [List.getElem_range] at heq
  have hcount := congrArg UInt16.toNat (Period.mk.inj heq).1
  rw [List.length_range] at hlt
  have hsix : twohopNboPhaseTransPeriod.toNat = 6 := rfl
  have hsize : UInt16.size = 65536 := rfl
  rw [UInt16.toNat_ofNat_of_lt' (by omega)] at hcount
  rw [List.length_append, hlen, countDown, List.length_map, List.length_range]
  omega

/-! ## What an uplink leaves alone -/

variable {p : MacParams} {lst lst' : MngtNodeList} {batch : List SchNode}

/-- An uplink changes no entry of the schedule, and no profile in NODES. -/
theorem uplink_keeps {s t : InputState} {msg : MsgInfo} (hstep : inputMsgHandler s msg = some t) :
    t.mac.SCHEDULES = s.mac.SCHEDULES ∧ t.mac.NODES.nodes.map MngtNode.profile
      = s.mac.NODES.nodes.map MngtNode.profile := by
  rw [inputMsgHandler] at hstep
  split at hstep
  case isTrue =>
    rw [handleRequest_eq] at hstep
    obtain rfl := Option.some.inj hstep
    split <;> exact ⟨rfl, rfl⟩
  case isFalse =>
    split at hstep
    case isTrue =>
      obtain ⟨ws_data_buf, -, rfl⟩ := Option.map_eq_some_iff.mp hstep
      exact ⟨rfl, profiles_writeRef fun n => profile_updateDataInfo n _ _⟩
    case isFalse =>
      rw [← Option.some.inj hstep]
      exact ⟨rfl, rfl⟩

theorem dmIsRelayNode_congr (h : lst'.nodes.map MngtNode.profile
      = lst.nodes.map MngtNode.profile) (addr : UInt16) :
    dmIsRelayNode lst' addr = dmIsRelayNode lst addr := by
  have hrelay : ∀ lst : MngtNodeList, dmIsRelayNode lst addr
      = (lst.registry addr).any fun n => decide (0 < n.nboChildren) := by
    intro lst
    rw [dmIsRelayNode, registry_eq]
    cases getNodeReferenceByAddress lst addr <;> rfl
  rw [hrelay, hrelay, MngtNodeList.registry, MngtNodeList.registry, h]

/-- How many relays there are is told by the profiles. -/
theorem dmGetNboRelays_congr (h : lst'.nodes.map MngtNode.profile
      = lst.nodes.map MngtNode.profile) : dmGetNboRelays lst' = dmGetNboRelays lst := by
  have hcount : ∀ lst : MngtNodeList, (lst.nodes.countP fun n => decide (0 < n.nboChildren))
      = (lst.nodes.map MngtNode.profile).countP fun n => decide (0 < n.nboChildren) := by
    intro lst
    rw [List.countP_map]
    rfl
  rw [dmGetNboRelays, dmGetNboRelays, hcount, hcount, h]

theorem nboRelaysIn_congr (h : lst'.nodes.map MngtNode.profile
      = lst.nodes.map MngtNode.profile) (batch : List SchNode) :
    nboRelaysIn lst' batch = nboRelaysIn lst batch := by
  rw [nboRelaysIn, nboRelaysIn]
  exact List.countP_congr fun n _ => by rw [dmIsRelayNode_congr h]

theorem smBytes_congr (h : lst'.nodes.map MngtNode.profile = lst.nodes.map MngtNode.profile)
    (seq : UInt16) (addInfo : UInt8) (i : ℕ) (batch : List SchNode) :
    smBytes p lst' seq addInfo i batch = smBytes p lst seq addInfo i batch := by
  rw [smBytes, smBytes, dmGetNboRelays_congr h]

theorem SmTrain.concat {sch2Sslot last : UInt8} {sent : List MsgInfo}
    {xs : List (ℕ × List SchNode)} (h : SmTrain p lst sch2Sslot sent xs last) {msg : MsgInfo}
    {x : ℕ × List SchNode} (seq : UInt16) (hmsg : msg.bytes = smBytes p lst seq last x.1 x.2) :
    SmTrain p lst sch2Sslot (sent ++ [msg]) (xs ++ [x])
      (last + UInt8.ofNat (nboRelaysIn lst x.2)) := by
  induction h with
  | nil => exact .cons seq hmsg (.nil _)
  | cons seq' hmsg' _ ih => exact .cons seq' hmsg' (ih hmsg)

end LoRaGwSv
