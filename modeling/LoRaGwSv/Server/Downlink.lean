import LoRaGwSv.Machinery.Wire
import LoRaGwSv.Server.RtloraMac

/-!
# Server/Downlink — the downlink messages (`prepareDownlinkMsgPayload`)

Three messages go down: the registration node list (RNL), which registers the nodes it lists; the
scheduling message (SM); and the command message (CM).  All three are written into `payload` at the
eight-bit cursor `payloadLen`.  A bit field keeps the low bits of what is assigned to it.  A message
that would follow a null pointer is `none`.
-/

namespace LoRaGwSv

open Wire

/-- `TwohopMsgType_e`. -/
inductive TwohopMsgType
  | dlRnl
  | dlSm
  | dlCm
  | ulRr
  | ulData
  | rrack
deriving DecidableEq, Repr

/-- The number of a type, as the header has it. -/
def TwohopMsgType.pktType : TwohopMsgType → ℕ
  | .dlRnl => 0
  | .dlSm => 1
  | .dlCm => 2
  | .ulRr => 3
  | .ulData => 4
  | .rrack => 5

/-- A message (`MsgInfo_s`) without its radio metadata. -/
structure MsgInfo where
  size : UInt16
  payload : Vector UInt8 256
deriving DecidableEq, Repr

/-- The payload of a message that is being written. -/
abbrev Payload : Type := Writer 256

/-- `msg->size = payloadLen`. -/
def finishMsg (w : Payload) : MsgInfo := ⟨w.len.toUInt16, w.buffer⟩

/-- `TWOHOP_SERVER_ADDR`. -/
def twohopServerAddr : UInt16 := 0xAEBE

/-- `TWOHOP_BROADCAST_ADDR`. -/
def twohopBroadcastAddr : UInt16 := 0xCAFE

/-- `TWOHOP_MAX_NBO_NODES_IN_RNL`. -/
def twohopMaxNboNodesInRnl : UInt32 := 20

/-- `TWOHOP_MAX_NBO_NODES_IN_SM`. -/
def twohopMaxNboNodesInSm : UInt32 := 31

/-- `TWOHOP_MAX_NBO_RELAYS_IN_USI`. -/
def twohopMaxNboRelaysInUsi : UInt8 := 15

/-- `TWOHOP_NBO_SLOTS_IN_SCH1`. -/
def twohopNboSlotsInSch1 : ℕ := 15

/-- `TwohopMacParams_u`. -/
def MacParams.value (p : MacParams) : UInt16 := UInt16.ofNat (pack
  [(p.macFrameFactor, 3), (p.macUlSlotSizeMs / 10, 5), (p.macDlSlotSizeMs / 10, 5),
    (p.macNboChannels, 3)])

/-- The bytes every downlink message starts with. -/
def header (p : MacParams) (type : TwohopMsgType) : List UInt8 :=
  [UInt8.ofNat (pack [(0, 4), (type.pktType, 4)])] ++ le16 twohopServerAddr ++
    le16 twohopBroadcastAddr ++ le16 p.value

/-- The two bytes of an address and a class. -/
def addrFormat (addr cls : UInt16) : List UInt8 :=
  le16 (TwohopNodeAddrFormat.ofBits addr cls).value

/-! ## The registration node list -/

/-- The loop over the nodes taken from RNL; a node is written whether NODES takes it or not. -/
def rnlLoop : ℕ → Mac → Payload → Option (Mac × Payload)
  | 0, s, w => some (s, w)
  | i + 1, s, w =>
    match popHeadNode s.RNL with
    | (some tempNode, RNL) =>
      (addNodeToNodeList { s with RNL := RNL } .NODES tempNode).bind fun (_, s) =>
        rnlLoop i s (w.put (addrFormat tempNode.addr tempNode.genInfo.cls.toUInt16))
    | (none, _) => rnlLoop i s (w.put (addrFormat 0 0))

/-- How many nodes a registration list takes. -/
def nboAddedNodes (RNL : MngtNodeList) : ℕ :=
  (if twohopMaxNboNodesInRnl < RNL.size then twohopMaxNboNodesInRnl else RNL.size).toNat

/-- The case `Twohop_MsgType_DL_RNL`, from the header on. -/
def prepareRnl (s : Mac) (w : Payload) (seq : UInt16) (netReadyFlag : Bool) :
    Option (MsgInfo × Mac) :=
  let w := w.put (le16 seq)
  let w := w.put [UInt8.ofNat (pack [(netReadyFlag.toNat, 1), (nboAddedNodes s.RNL, 7)])]
  (rnlLoop (nboAddedNodes s.RNL) s w).map fun (s, w) => (finishMsg w, s)

/-! ## The scheduling message -/

/-- `nboSchDist` of an entry, in eight bits, one less. -/
def SchNode.nextNboSchDist (schNode : SchNode) : UInt8 :=
  if schNode.nboSchDist.toUInt8 ≠ 0 then schNode.nboSchDist.toUInt8 - 1
  else schNode.nboSchDist.toUInt8

/-- The loop over `nboNodes` entries from `schNode` on; it does not look whether there are as many.
What it changes in the group are entries it has passed. -/
def smLoop (NODES : MngtNodeList) :
    ℕ → List SchNode → Payload → SchList → UInt8 → Option (Payload × SchList × UInt8)
  | 0, _, w, list, addInfo => some (w, list, addInfo)
  | _ + 1, [], _, _, _ => none
  | nboNodes + 1, schNode :: rest, w, list, addInfo =>
    smLoop NODES nboNodes rest
      ((w.put (addrFormat schNode.addr schNode.cls)).put [schNode.slotDemand.toUInt8])
      (smNodeSetNboSchDist list schNode.addr schNode.nextNboSchDist)
      (if dmIsRelayNode NODES schNode.addr then addInfo + 1 else addInfo)

/-- The first group with a schedule to distribute. -/
def smGroup (SCHEDULES : List SchList) : ℕ :=
  SCHEDULES.findIdx fun list => 0 < list.nboDistReq

/-- How many nodes of a group a scheduling message takes. -/
def smNboNodes (list : SchList) : ℕ :=
  (if twohopMaxNboNodesInSm < list.nboDistReq then twohopMaxNboNodesInSm
    else list.nboDistReq).toNat

/-- What is sent when no group has a schedule to distribute. -/
def emptyMsg : MsgInfo := ⟨0, Vector.replicate 256 0⟩

/-- The case `Twohop_MsgType_DL_SM`, from the header on; `*addInfo` is the next free
slot of SCH2. -/
def prepareSm (s : Mac) (w : Payload) (seq : UInt16) (addInfo : UInt8) :
    Option (MsgInfo × UInt8 × Mac) :=
  let w := w.put [UInt8.ofNat (pack [(seq.toNat, 4), (twohopNboSlotsInSch1, 4)])]
  let w := w.put [addInfo]
  let w := w.put [dmGetNboRelays s.NODES]
  let grpIndex := smGroup s.SCHEDULES
  match s.SCHEDULES[grpIndex]? with
  | none => some (emptyMsg, addInfo, s)
  | some list =>
    let nboNodes := smNboNodes list
    let w := w.put [UInt8.ofNat (pack [(grpIndex, 3), (nboNodes, 5)])]
    match list.nodes.dropWhile fun schNode => schNode.nboSchDist = 0 with
    | [] => some (emptyMsg, addInfo, s)
    | schNode :: rest =>
      (smLoop s.NODES nboNodes (schNode :: rest) (w.put [schNode.startLSI.toUInt8]) list
        addInfo).map fun (w, list, addInfo) =>
          (finishMsg w, addInfo, { s with SCHEDULES := s.SCHEDULES.set grpIndex list })

/-! ## The command message -/

/-- How many records the message carries, counted in eight bits. -/
def nboRelaysUsi : UInt8 → List SchList → UInt8
  | count, [] => count
  | count, list :: lists =>
    if twohopMaxNboRelaysInUsi.toUInt32 < count.toUInt32 + list.nboDistReq then
      twohopMaxNboRelaysInUsi
    else nboRelaysUsi (count + list.nboDistReq.toUInt8) lists

/-- The children written after a record: the cells of the table that are not empty. -/
def putChildren (w : Payload) (child : Vector Child twohopMaxNboChildren) : Payload :=
  child.toList.foldl (fun w c =>
    if c.addr ≠ 0 then w.put (addrFormat c.addr c.cls.toUInt16) else w) w

/-- The record of an entry of group `grpIndex`. -/
def putUsi (NODES : MngtNodeList) (grpIndex : ℕ) (schNode : SchNode) (w : Payload) :
    Option Payload :=
  (dmNodeGetChildList NODES schNode.addr).map fun (child, nboChild) =>
    let w := w.put [UInt8.ofNat (pack [(grpIndex, 3), (nboChild.toNat, 5)])]
    let w := w.put [schNode.startLSI.toUInt8]
    putChildren (w.put (addrFormat schNode.addr schNode.cls)) child

/-- The walk over the entries left of a group, while there are records to write. -/
def usiLoop (NODES : MngtNodeList) (grpIndex : ℕ) :
    List SchNode → UInt8 → Payload → SchList → Option (UInt8 × Payload × SchList)
  | [], nboRelays, w, list => some (nboRelays, w, list)
  | schNode :: rest, nboRelays, w, list =>
    if nboRelays = 0 then some (nboRelays, w, list)
    else if 0 < schNode.nboSchDist then
      (putUsi NODES grpIndex schNode w).bind fun w =>
        usiLoop NODES grpIndex rest (nboRelays - 1) w
          (smNodeSetNboSchDist list schNode.addr schNode.nextNboSchDist)
    else usiLoop NODES grpIndex rest nboRelays w list

/-- The loop over the groups from `grpIndex` on. -/
def usiGroups (NODES : MngtNodeList) :
    ℕ → List SchList → UInt8 → Payload → Option (Payload × List SchList)
  | _, [], _, w => some (w, [])
  | grpIndex, list :: lists, nboRelays, w =>
    (usiLoop NODES grpIndex list.nodes nboRelays w list).bind fun (nboRelays, w, list) =>
      (usiGroups NODES (grpIndex + 1) lists nboRelays w).map fun (w, lists) => (w, list :: lists)

/-- The case `Twohop_MsgType_DL_CM`, from the header on. -/
def prepareCm (s : Mac) (w : Payload) (seq : UInt16) : Option (MsgInfo × Mac) :=
  let w := w.put (le16 seq)
  let w := s.SCHEDULES.foldl (fun w list => w.put [(smGetLastAsgLsi list).toUInt8]) w
  let nboRelays := nboRelaysUsi 0 s.SCHEDULES
  if 0 < nboRelays then
    let w := w.put [UInt8.ofNat (pack [(1, 1), (nboRelays.toNat, 4), (0, 3)])]
    (usiGroups s.NODES 0 s.SCHEDULES nboRelays w).map fun (w, SCHEDULES) =>
      (finishMsg w, { s with SCHEDULES := SCHEDULES })
  else some (finishMsg (w.put [UInt8.ofNat (pack [(0, 1), (0, 4), (0, 3)])]), s)

/-! ## All of them -/

/-- `*addInfo` is the byte `addInfo` points to: a flag for RNL, a slot for SM, nothing for CM. -/
def prepareDownlinkMsgPayload (p : MacParams) (s : Mac) (msg : MsgInfo) (type : TwohopMsgType)
    (seq : UInt16) (addInfo : UInt8) : Option (MsgInfo × UInt8 × Mac) :=
  let w := Writer.put ⟨msg.payload, 0⟩ (header p type)
  match type with
  | .dlRnl => (prepareRnl s w seq (addInfo ≠ 0)).map fun (msg, s) => (msg, addInfo, s)
  | .dlSm => prepareSm s w seq addInfo
  | .dlCm => (prepareCm s w seq).map fun (msg, s) => (msg, addInfo, s)
  | .ulRr | .ulData | .rrack => some (⟨msg.size, w.buffer⟩, addInfo, s)

/-- The slots of SCH1 from `sch1Cnt` on, `n` of them: the messages sent, and the next free slot of
SCH2.  A message of size 0 is not sent. -/
def sch1Loop (p : MacParams) :
    ℕ → ℕ → Mac → MsgInfo → UInt8 → Option (List MsgInfo × UInt8 × Mac)
  | 0, _, s, _, sch2Sslot => some ([], sch2Sslot, s)
  | n + 1, sch1Cnt, s, dlMsg, sch2Sslot =>
    (prepareDownlinkMsgPayload p s dlMsg .dlSm (UInt16.ofNat sch1Cnt) sch2Sslot).bind
      fun (dlMsg, sch2Sslot, s) =>
        (sch1Loop p n (sch1Cnt + 1) s dlMsg sch2Sslot).map fun (sent, sch2Sslot, s) =>
          (if dlMsg.size ≠ 0 then dlMsg :: sent else sent, sch2Sslot, s)

/-- The schedule is made anew and distributed; `dlMsg` is what the message buffer starts with. -/
def scheduleDistributionPhase (p : MacParams) (s : Mac) (dlMsg : MsgInfo) :
    Option (List MsgInfo × UInt8 × Mac) :=
  (schedule .scheduleDist (resetSchedule s)).bind fun s =>
    sch1Loop p twohopNboSlotsInSch1 1 s dlMsg 1

end LoRaGwSv
