import LoRaGwSv.Server.DeviceMngt
import LoRaGwSv.Server.ScheduleMngt

/-!
# Server/RtloraMac — registration and scheduling (`rtlora_mac.c`)

The MAC keeps three things: `RNL`, the nodes whose registration is still to be confirmed; `NODES`,
the registered ones; and `SCHEDULES`, one schedule list for each channel.  `Mac` is that state, read
under its mutexes, so each function below is one uninterrupted pass.
-/

namespace LoRaGwSv

/-- What the command line configures, within the bounds `main` checks. -/
structure MacParams where
  macFrameFactor : ℕ
  macUlSlotSizeMs : ℕ
  macDlSlotSizeMs : ℕ
  macNboChannels : ℕ
  frameFactor_bounds : 1 ≤ macFrameFactor ∧ macFrameFactor ≤ 7
  ulSlotSize_bounds : 30 ≤ macUlSlotSizeMs ∧ macUlSlotSizeMs ≤ 310 ∧ macUlSlotSizeMs % 10 = 0
  dlSlotSize_bounds : 30 ≤ macDlSlotSizeMs ∧ macDlSlotSizeMs ≤ 310 ∧ macDlSlotSizeMs % 10 = 0
  nboChannels_bounds : 1 ≤ macNboChannels ∧ macNboChannels ≤ 7

/-- The values the parameters have where the command line sets none. -/
def macDefaults : MacParams :=
  ⟨6, 100, 200, 1, by decide, by decide, by decide, by decide⟩

theorem MacParams.frame_le (p : MacParams) : 2 ^ p.macFrameFactor ≤ 128 :=
  Nat.pow_le_pow_right (by decide) p.frameFactor_bounds.2

/-- The `while` loop of `ipow`; each turn halves `exp`, so `exp` turns are enough. -/
def ipowLoop : ℕ → ℕ → ℕ → ℕ → ℕ
  | 0, _, _, result => result
  | fuel + 1, base, exp, result =>
    if exp = 0 then result
    else ipowLoop fuel (base * base) (exp >>> 1) (if exp &&& 1 = 1 then result * base else result)

/-- `ipow`. -/
def ipow (base exp : ℕ) : ℕ := ipowLoop exp base exp 1

/-- `slotDemandCalculation`. -/
def slotDemandCalculation (cls : UInt16) : UInt16 := UInt16.ofNat (ipow 2 cls.toNat)

/-- `TwohopNodeAddrFormat_u`: 13 bits of address below 3 bits of class. -/
structure TwohopNodeAddrFormat where
  value : UInt16
deriving DecidableEq, Repr

/-- The address, in the low 13 bits. -/
def TwohopNodeAddrFormat.address (f : TwohopNodeAddrFormat) : UInt16 := f.value % 8192

/-- The class, in the high three. -/
def TwohopNodeAddrFormat.cls (f : TwohopNodeAddrFormat) : UInt16 := f.value / 8192

/-- Assigning the two bit fields keeps 13 and 3 bits. -/
def TwohopNodeAddrFormat.ofBits (address cls : UInt16) : TwohopNodeAddrFormat :=
  ⟨UInt16.ofNat (address.toNat % 8192 + cls.toNat % 8 * 8192)⟩

/-! ## The nodes a registration request asks for -/

/-- One node of a registration request as `inputMsgHandlerThread` reads it: a node registering
itself, or one address of the list a relay at `srcAddr` sends. -/
inductive Registration
  | itself (addFmt : TwohopNodeAddrFormat)
  | listed (addFmt : TwohopNodeAddrFormat) (srcAddr : UInt16)
deriving DecidableEq, Repr

/-- The address and class `inputMsgHandlerThread` copies out of a request. -/
def TwohopNodeAddrFormat.genInfo (addFmt : TwohopNodeAddrFormat) (type : NodeType) :
    NodeGenInfo where
  addr := addFmt.address
  cls := addFmt.cls.toUInt8
  slotDmn := (slotDemandCalculation addFmt.cls.toUInt8.toUInt16).toUInt8
  type := type

/-- The node `inputMsgHandlerThread` creates. -/
def Registration.node : Registration → MngtNode
  | .itself addFmt => createNewNode (addFmt.genInfo .onehop) 0
  | .listed addFmt srcAddr =>
    if addFmt.address = srcAddr then createNewNode (addFmt.genInfo .onehop) 0
    else createNewNode (addFmt.genInfo .twohop) srcAddr

/-! ## The state of the MAC -/

/-- `OperationPhase_e`. -/
inductive OperationPhase
  | networkInit
  | scheduleDist
  | dataColl
deriving DecidableEq, Repr

/-- The node lists and the schedule groups in use, `mac_nbo_sch_groups` of them. -/
structure Mac where
  RNL : MngtNodeList
  NODES : MngtNodeList
  SCHEDULES : List SchList
deriving DecidableEq, Repr

/-- The state `twohopLoRaMacInit` sets up. -/
def twohopLoRaMacInit (p : MacParams) : Mac where
  RNL := initNodeList false
  NODES := initNodeList true
  SCHEDULES := List.replicate p.macNboChannels
    (smInitSchedule (UInt16.ofNat (ipow 2 p.macFrameFactor)).toUInt32)

/-- `removeNodeFromSchedule`: all groups are gone through. -/
def removeNodeFromSchedule (s : Mac) (addr : UInt16) : Mac :=
  { s with SCHEDULES := s.SCHEDULES.map fun list => smRemoveOneNode list addr }

/-- `clearSchedule`. -/
def clearSchedule (s : Mac) : Mac := { s with SCHEDULES := s.SCHEDULES.map smClearSchedule }

/-- Which of the two lists `addNodeToNodeList` is handed. -/
inductive NodeListRef
  | RNL
  | NODES
deriving DecidableEq, Repr

/-- A one-hop registration: the old children are disconnected and forgotten first. -/
def addOnehopNode (lst : MngtNodeList) (node : MngtNode) : Option MngtNodeList :=
  match getNodeReferenceByAddress lst node.addr with
  | none => some (pushNode lst node).2
  | some temp =>
    (dmSetChildConnStatus lst temp false).map fun lst =>
      (pushNode (lst.writeRef node.addr dmRemoveChildOfNode) node).2

/-- A two-hop registration: the child is entered in its parent's table, and both are put back. -/
def addTwohopNode (lst : MngtNodeList) (node : MngtNode) : Bool × MngtNodeList :=
  match popNodeByAddress lst node.parrentAddr with
  | (none, lst) => (false, lst)
  | (some parent, lst) =>
    match dmAddChildToNode parent node with
    | some parent =>
      -- the whole subtree has to be scheduled again
      (true, (pushNode (pushNode lst { parent with schFlag := false }).2 node).2)
    | none => (false, (pushNode lst parent).2)

/-- `addNodeToNodeList`, in RNL or in NODES; `none` where a null pointer is followed. -/
def addNodeToNodeList (s : Mac) (lst : NodeListRef) (node : MngtNode) : Option (Bool × Mac) :=
  match lst with
  | .RNL => some (true, { s with RNL := (pushNode s.RNL node).2 })
  | .NODES =>
    match node.genInfo.type with
    | .onehop => (addOnehopNode s.NODES node).map fun NODES => (true, { s with NODES := NODES })
    | .twohop =>
      -- a one-hop node that becomes two-hop loses its slots, whatever happens next
      let s := removeNodeFromSchedule s node.addr
      let (done, NODES) := addTwohopNode s.NODES node
      some (done, { s with NODES := NODES })

/-- One turn of the loop in which `dataCollectionPhase` registers what waits in RNL. -/
def takeWaiting (s : Mac) : Option Mac :=
  match popHeadNode s.RNL with
  | (some tempNode, RNL) => (addNodeToNodeList { s with RNL := RNL } .NODES tempNode).map Prod.snd
  | (none, _) => some s

/-! ## Scheduling -/

/-- The loop of `getIndexOfLowestLoadSch` from group `i` on. -/
def lowestLoadLoop : ℕ → ℕ → UInt32 → List SchList → ℕ
  | _, index, _, [] => index
  | i, index, minLoad, list :: lists =>
    if list.nboAsgSlots < minLoad then lowestLoadLoop (i + 1) i list.nboAsgSlots lists
    else lowestLoadLoop (i + 1) index minLoad lists

/-- `getIndexOfLowestLoadSch`: the first group with the least load. -/
def getIndexOfLowestLoadSch (SCHEDULES : List SchList) : ℕ :=
  match SCHEDULES with
  | [] => 0
  | list :: _ => lowestLoadLoop 0 0 list.nboAsgSlots SCHEDULES

/-- `TWOHOP_NBO_SCH_UPDATE_SD`. -/
def twohopNboSchUpdateSd : UInt16 := 1

/-- `TWOHOP_NBO_SCH_UPDATE_DC`. -/
def twohopNboSchUpdateDc : UInt16 := 3

/-- How often a schedule made in `phase` is distributed. -/
def OperationPhase.nboSchDist : OperationPhase → UInt16
  | .scheduleDist => twohopNboSchUpdateSd
  | .dataColl => twohopNboSchUpdateDc
  | .networkInit => twohopNboSchUpdateSd

/-- The schedule entry `schedule` asks for on behalf of a node. -/
def MngtNode.schNode (mngtNode : MngtNode) (phase : OperationPhase) : SchNode where
  addr := mngtNode.addr
  cls := mngtNode.genInfo.cls.toUInt16
  startLSI := 0
  slotDemand := mngtNode.genInfo.slotDmn.toUInt16
  nboSchDist := phase.nboSchDist

/-- `schCheck` for one node: it leaves its old group, and the least loaded group takes it if it
can. -/
def scheduleOneNode (s : Mac) (phase : OperationPhase) (mngtNode : MngtNode) : SchErr × Mac :=
  let s := removeNodeFromSchedule s mngtNode.addr
  let group := getIndexOfLowestLoadSch s.SCHEDULES
  match s.SCHEDULES[group]? with
  | none => (.schFailed, s)
  | some list =>
    let (schCheck, list) := smScheduleOneNode list (mngtNode.schNode phase)
    (schCheck, { s with SCHEDULES := s.SCHEDULES.set group list })

/-- The node at position `i` of NODES is scheduled; the node and its children are connected. -/
def markScheduled (lst : MngtNodeList) (i : ℕ) (mngtNode : MngtNode) : Option MngtNodeList :=
  dmSetChildConnStatus
    { lst with
      nodes := lst.nodes.modify i fun n => { n with schFlag := true, isConnected := true } }
    mngtNode true

/-- One turn of the loop of `schedule`, `mngtNode` being at position `i` of NODES. -/
def scheduleStep (phase : OperationPhase) (s : Mac) (i : ℕ) : Option Mac :=
  match s.NODES.nodes[i]? with
  | none => some s
  | some mngtNode =>
    if mngtNode.genInfo.type = .onehop ∧ mngtNode.schFlag = false then
      let (schCheck, s) := scheduleOneNode s phase mngtNode
      if schCheck = .schSucceeded then
        (markScheduled s.NODES i mngtNode).map fun NODES => { s with NODES := NODES }
      else some s
    else some s

/-- The turns of the loop from position `i` on, `n` of them. -/
def scheduleLoop (phase : OperationPhase) : ℕ → ℕ → Mac → Option Mac
  | 0, _, s => some s
  | n + 1, i, s => (scheduleStep phase s i).bind (scheduleLoop phase n (i + 1))

/-- All unscheduled one-hop nodes of NODES, in the order of the list. -/
def schedule (phase : OperationPhase) (s : Mac) : Option Mac :=
  scheduleLoop phase s.NODES.nodes.length 0 s

/-- What `scheduleDistributionPhase` does before it schedules anew. -/
def resetSchedule (s : Mac) : Mac :=
  clearSchedule { s with NODES := dmSetSchFlagAll s.NODES false }

end LoRaGwSv
