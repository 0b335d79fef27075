import LoRaGwSv.Server.Downlink

/-!
# Server/InputMsgHandler — what an uplink does (`inputMsgHandlerThread`, `weather_device.c`)

A registration request fills RNL; data replaces the raw data of a weather station and counts for its
node in NODES.  The handler reads the payload with a cursor of eight bits, which stays below 256 (at
most 132) and is a natural number here; it never looks at `size`.  `MsgInfo.accesses` lists what it
reads there and what it stores in `data_ptr`.  What is stored past the end of `data_ptr` overwrites
what lies behind it; there the handler is `none`, and nowhere else (`isSome_inputMsgHandler_iff`).
-/

namespace LoRaGwSv

open Wire

/-- `WS_NUMBER_OF_DEVICE`. -/
def wsNumberOfDevice : ℕ := 65

/-- `WS_MAX_DATA_SIZE`. -/
def wsMaxDataSize : ℕ := 30

/-- `WS_DATA_OBSOLETE_LEVEL_MIN`. -/
def wsDataObsoleteLevelMin : UInt8 := 0

/-- The raw data of a weather station (`struct ws_data_buffer_t`). -/
structure WsDataBuffer where
  loraNodeID : UInt8
  data_ptr : Vector UInt8 wsMaxDataSize
  data_len : UInt8
  data_obsolete_level : UInt8
deriving DecidableEq

/-- `enum ws_error_e`. -/
inductive WsError
  | ok
  | connectToServerFailed
  | updateDataFailed
deriving DecidableEq, Repr

/-- `ws_data_buf`: a buffer for each device. -/
abbrev WsData : Type := Vector WsDataBuffer wsNumberOfDevice

/-- What `ws_app_init` leaves of the raw data. -/
def wsAppInit : WsData := Vector.replicate _ ⟨0, Vector.replicate _ 0, 0, 0⟩

/-- `ws_update_raw_data`; `none` where more is stored than `data_ptr` has room for. -/
def wsUpdateRawData (ws_data_buf : WsData) (nodeAddr : UInt16) (buff : List UInt8)
    (buffLen : UInt8) : Option (WsError × WsData) :=
  if wsNumberOfDevice ≤ nodeAddr.toNat then some (.updateDataFailed, ws_data_buf)
  else if wsMaxDataSize < buffLen.toNat then none
  else some (.ok, ws_data_buf.setIfInBounds nodeAddr.toNat
    { loraNodeID := nodeAddr.toUInt8
      data_ptr := copy (Vector.replicate _ 0) 0 (buff.take buffLen.toNat)
      data_len := buffLen
      data_obsolete_level := wsDataObsoleteLevelMin })

/-- `AppInputDataHandle`. -/
def appInputDataHandle (ws_data_buf : WsData) (sender_id : UInt16) (data_buff : List UInt8)
    (data_len : UInt8) : Option WsData :=
  (wsUpdateRawData ws_data_buf sender_id data_buff data_len).map Prod.snd

/-! ## The fields of a message

The parser moves a cursor over the payload.  Where it stands depends on the control bits, so the
positions are definitions of their own. -/

/-- The type, in the high bits of the first byte. -/
def MsgInfo.pktType (msg : MsgInfo) : ℕ := field (byteAt msg.payload 0).toNat 4 4

/-- The source, behind the type. -/
def MsgInfo.srcAddr (msg : MsgInfo) : UInt16 := le16At msg.payload 1

/-- The destination, behind the source. -/
def MsgInfo.destAddr (msg : MsgInfo) : UInt16 := le16At msg.payload 3

/-- 0 where a node asks for itself, and 1 where it lists nodes. -/
def MsgInfo.rrType1 (msg : MsgInfo) : ℕ := field (byteAt msg.payload 5).toNat 0 1

/-- How many nodes a request lists. -/
def MsgInfo.nboChild (msg : MsgInfo) : ℕ := field (byteAt msg.payload 5).toNat 2 6

/-- How many addresses a request holds, its own or a list. -/
def MsgInfo.nboAddedNode (msg : MsgInfo) : ℕ := if msg.rrType1 = 0 then 1 else msg.nboChild

/-- The address format at position `i` of a request. -/
def MsgInfo.addFmt (msg : MsgInfo) (i : ℕ) : TwohopNodeAddrFormat :=
  ⟨le16At msg.payload (6 + 2 * i)⟩

/-- The nodes a request registers, in order. -/
def MsgInfo.requests (msg : MsgInfo) : List Registration :=
  if msg.rrType1 = 0 then [.itself (msg.addFmt 0)]
  else (List.range msg.nboChild).map fun i => .listed (msg.addFmt i) msg.srcAddr

/-- The sequence number of data. -/
def MsgInfo.seqNumber (msg : MsgInfo) : UInt16 := le16At msg.payload 5

/-- The lowest control bit of data. -/
def MsgInfo.ctrl0 (msg : MsgInfo) : Bool := field (byteAt msg.payload 7).toNat 0 1 = 1

/-- The second one. -/
def MsgInfo.ctrl1 (msg : MsgInfo) : Bool := field (byteAt msg.payload 7).toNat 1 1 = 1

/-- The third one. -/
def MsgInfo.ctrl2 (msg : MsgInfo) : Bool := field (byteAt msg.payload 7).toNat 2 1 = 1

/-- The cursor behind the control byte, the Jslot field skipped. -/
def MsgInfo.ctrlEnd (msg : MsgInfo) : ℕ := if msg.ctrl1 then 9 else 8

/-- Relayed data carries the address it comes from. -/
def MsgInfo.dataSrcAddr (msg : MsgInfo) : UInt16 :=
  if msg.ctrl0 then le16At msg.payload msg.ctrlEnd else msg.srcAddr

/-- The cursor at the length of the data; before it come an address, or the levels of
the downlink. -/
def MsgInfo.sizePos (msg : MsgInfo) : ℕ :=
  if msg.ctrl0 then msg.ctrlEnd + 2 else if msg.ctrl2 then msg.ctrlEnd + 3 else msg.ctrlEnd

/-- The length that data says it has. -/
def MsgInfo.payloadSize (msg : MsgInfo) : UInt8 := byteAt msg.payload msg.sizePos

/-! ## The handler -/

/-- What the handler writes to. -/
structure InputState where
  mac : Mac
  ws_data_buf : WsData
deriving DecidableEq

/-- A node is put into RNL. -/
def Mac.request (s : Mac) (r : Registration) : Option Mac :=
  (addNodeToNodeList s .RNL r.node).map Prod.snd

/-- The case `Twohop_MsgType_UL_RR`. -/
def handleRequest (s : InputState) (msg : MsgInfo) : Option InputState :=
  if msg.destAddr ≠ twohopServerAddr then some s
  else (msg.requests.foldlM Mac.request s.mac).map fun mac => { s with mac := mac }

/-- The case `Twohop_MsgType_UL_DATA`. -/
def handleData (s : InputState) (msg : MsgInfo) : Option InputState :=
  (appInputDataHandle s.ws_data_buf msg.dataSrcAddr (msg.payload.toList.drop (msg.sizePos + 1))
    msg.payloadSize).map fun ws_data_buf =>
      { mac := { s.mac with
          NODES := dmNodeUpdateDataInfo s.mac.NODES msg.dataSrcAddr msg.seqNumber msg.ctrl0 }
        ws_data_buf := ws_data_buf }

/-- What `inputMsgHandlerThread` does with one message of its queue. -/
def inputMsgHandler (s : InputState) (msg : MsgInfo) : Option InputState :=
  if msg.pktType = TwohopMsgType.ulRr.pktType then handleRequest s msg
  else if msg.pktType = TwohopMsgType.ulData.pktType then handleData s msg
  else some s

/-! ## What the handler touches

Reads and stores are listed in the order in which the handler makes them, each with its index. -/

/-- A byte of the payload that is read, or a byte of `ws_data_buf[ws_index].data_ptr` that is
stored. -/
inductive Access
  | payload (i : ℕ)
  | data_ptr (ws_index i : ℕ)
deriving DecidableEq, Repr

/-- An access stays inside its array. -/
def Access.InRange : Access → Prop
  | .payload i => i < 256
  | .data_ptr _ i => i < wsMaxDataSize

/-- A `memcpy` of `n` bytes of the payload into a local. -/
def readPayload (pktLen n : ℕ) : List Access := (List.range n).map fun i => .payload (pktLen + i)

/-- The `memset` and the `memcpy` of `ws_update_raw_data`, the data being at `pktLen`. -/
def wsUpdateAccesses (nodeAddr : UInt16) (pktLen : ℕ) (buffLen : UInt8) : List Access :=
  if wsNumberOfDevice ≤ nodeAddr.toNat then []
  else ((List.range wsMaxDataSize).map fun i => .data_ptr nodeAddr.toNat i) ++
    (List.range buffLen.toNat).flatMap fun i =>
      [.payload (pktLen + i), .data_ptr nodeAddr.toNat i]

/-- What the handler of a request touches. -/
def requestAccesses (msg : MsgInfo) : List Access :=
  if msg.destAddr ≠ twohopServerAddr then []
  else readPayload 5 1 ++ (List.range msg.nboAddedNode).flatMap fun i => readPayload (6 + 2 * i) 2

/-- What the handler of data touches. -/
def dataAccesses (msg : MsgInfo) : List Access :=
  readPayload 5 2 ++ readPayload 7 1 ++
    readPayload msg.ctrlEnd (if msg.ctrl0 then 2 else if msg.ctrl2 then 3 else 0) ++
    readPayload msg.sizePos 1 ++
    wsUpdateAccesses msg.dataSrcAddr (msg.sizePos + 1) msg.payloadSize

/-- All that is touched while a message is handled, in order. -/
def MsgInfo.accesses (msg : MsgInfo) : List Access :=
  readPayload 0 1 ++ readPayload 1 2 ++ readPayload 3 2 ++
    if msg.pktType = TwohopMsgType.ulRr.pktType then requestAccesses msg
    else if msg.pktType = TwohopMsgType.ulData.pktType then dataAccesses msg
    else []

/-! ## When it stays in range

The cursor is bounded for any bytes, so the fields are read inside of the payload.  Only the copy of
the data has a length that is taken from the message. -/

variable {msg : MsgInfo} {s : InputState} {pktLen n : ℕ}

instance : DecidablePred Access.InRange := fun a =>
  match a with
  | .payload i => inferInstanceAs (Decidable (i < 256))
  | .data_ptr _ i => inferInstanceAs (Decidable (i < wsMaxDataSize))

/-- Bytes that end inside the payload are inside it. -/
theorem inRange_readPayload (h : pktLen + n ≤ 256) : ∀ a ∈ readPayload pktLen n, a.InRange := by
  rw [readPayload, List.forall_mem_map]
  intro i hi
  have := List.mem_range.mp hi
  change pktLen + i < 256
  omega

/-- A field of six bits tells how many nodes there are. -/
theorem MsgInfo.nboAddedNode_lt (msg : MsgInfo) : msg.nboAddedNode < 64 := by
  rw [nboAddedNode]
  split
  · decide
  · exact Nat.mod_lt _ (by decide)

theorem MsgInfo.ctrlEnd_le (msg : MsgInfo) : msg.ctrlEnd ≤ 9 := by
  rw [ctrlEnd]
  split <;> decide

theorem MsgInfo.sizePos_le (msg : MsgInfo) : msg.sizePos ≤ 12 := by
  have hend := msg.ctrlEnd_le
  rw [sizePos]
  split
  · omega
  · split <;> omega

/-- A weather station takes the data in if it is not longer than its buffer. -/
theorem inRange_wsUpdateAccesses_iff (nodeAddr : UInt16) (hpktLen : pktLen ≤ 13) (buffLen : UInt8) :
    (∀ a ∈ wsUpdateAccesses nodeAddr pktLen buffLen, a.InRange) ↔
      (nodeAddr.toNat < wsNumberOfDevice → buffLen.toNat ≤ wsMaxDataSize) := by
  rw [wsUpdateAccesses]
  split
  case isTrue hge => exact iff_of_true (by simp) fun hlt => absurd hlt (by omega)
  case isFalse hlt =>
    rw [List.forall_mem_append, forall_prop_of_true (Nat.lt_of_not_le hlt), and_iff_right]
    · constructor
      · intro h
        by_contra! hlong
        have hmem : Access.data_ptr nodeAddr.toNat wsMaxDataSize ∈
            (List.range buffLen.toNat).flatMap fun i =>
              [Access.payload (pktLen + i), .data_ptr nodeAddr.toNat i] :=
          List.mem_flatMap.mpr ⟨wsMaxDataSize, List.mem_range.mpr hlong, by simp⟩
        exact absurd (h _ hmem) (Nat.lt_irrefl _)
      · intro hle a ha
        obtain ⟨i, hi, ha⟩ := List.mem_flatMap.mp ha
        have hi := List.mem_range.mp hi
        have hmax : wsMaxDataSize = 30 := rfl
        rcases List.mem_pair.mp ha with rfl | rfl
        · change pktLen + i < 256
          omega
        · exact hi.trans_le hle
    · rw [List.forall_mem_map]
      exact fun i hi => List.mem_range.mp hi

/-- **A request is always handled in range.** -/
theorem inRange_requestAccesses (msg : MsgInfo) : ∀ a ∈ requestAccesses msg, a.InRange := by
  have hlt := msg.nboAddedNode_lt
  rw [requestAccesses]
  split
  · exact fun _ ha => absurd ha List.not_mem_nil
  · refine List.forall_mem_append.mpr ⟨inRange_readPayload (by decide), fun a ha => ?_⟩
    obtain ⟨i, hi, ha⟩ := List.mem_flatMap.mp ha
    have := List.mem_range.mp hi
    exact inRange_readPayload (by omega) a ha

/-- **Data is handled in range exactly if it fits the buffer of its device.** -/
theorem inRange_dataAccesses_iff (msg : MsgInfo) :
    (∀ a ∈ dataAccesses msg, a.InRange) ↔
      (msg.dataSrcAddr.toNat < wsNumberOfDevice → msg.payloadSize.toNat ≤ wsMaxDataSize) := by
  have hend := msg.ctrlEnd_le
  have hpos := msg.sizePos_le
  have hlevels : msg.ctrlEnd + (if msg.ctrl0 then 2 else if msg.ctrl2 then 3 else 0) ≤ 256 := by
    split_ifs <;> omega
  simp only [dataAccesses, List.forall_mem_append]
  rw [inRange_wsUpdateAccesses_iff _ (by omega), and_iff_right]
  exact ⟨⟨⟨inRange_readPayload (by decide), inRange_readPayload (by decide)⟩,
    inRange_readPayload hlevels⟩, inRange_readPayload (by omega)⟩

/-- A message does not bring a weather station more data than its buffer has room for. -/
def MsgInfo.Fits (msg : MsgInfo) : Prop :=
  msg.pktType = TwohopMsgType.ulData.pktType → msg.dataSrcAddr.toNat < wsNumberOfDevice →
    msg.payloadSize.toNat ≤ wsMaxDataSize

/-- **A message touches nothing out of range exactly if its data fits.** -/
theorem accesses_inRange_iff (msg : MsgInfo) :
    (∀ a ∈ msg.accesses, a.InRange) ↔ msg.Fits := by
  have hheader : ∀ a ∈ readPayload 0 1 ++ readPayload 1 2 ++ readPayload 3 2, a.InRange := by
    simp only [List.forall_mem_append]
    exact ⟨⟨inRange_readPayload (by decide), inRange_readPayload (by decide)⟩,
      inRange_readPayload (by decide)⟩
  rw [MsgInfo.accesses, List.forall_mem_append, and_iff_right hheader, MsgInfo.Fits]
  split
  case isTrue hrr =>
    refine iff_of_true (inRange_requestAccesses msg) fun hdata => ?_
    exact absurd (hrr.symm.trans hdata) (by decide)
  case isFalse =>
    split
    case isTrue hdata => rw [inRange_dataAccesses_iff, forall_prop_of_true hdata]
    case isFalse hother => exact iff_of_true (by simp) fun hdata => absurd hdata hother

/-- Node 7 sends 31 bytes. -/
def longData : MsgInfo where
  size := 40
  payload := copy (Vector.replicate 256 0) 0 [0x40, 7, 0, 0xBE, 0xAE, 1, 0, 0, 31]

/-- The last of them is stored behind `data_ptr`. -/
theorem not_inRange_longData : ¬ ∀ a ∈ longData.accesses, a.InRange := by decide +kernel

/-! ## What comes of it -/

/-- RNL with the nodes of a request. -/
def requestedRnl (RNL : MngtNodeList) (rs : List Registration) : MngtNodeList :=
  rs.foldl (fun RNL r => (pushNode RNL r.node).2) RNL

/-- **A request changes RNL only**, and does not fail. -/
theorem foldlM_request (rs : List Registration) (mac : Mac) :
    rs.foldlM Mac.request mac = some { mac with RNL := requestedRnl mac.RNL rs } := by
  induction rs generalizing mac with
  | nil => rfl
  | cons r rs ih =>
    rw [List.foldlM_cons]
    exact ih _

/-- A request that is addressed to the server puts its nodes into RNL, one by one. -/
theorem handleRequest_eq (s : InputState) (msg : MsgInfo) :
    handleRequest s msg = some (if msg.destAddr ≠ twohopServerAddr then s
      else { s with mac := { s.mac with RNL := requestedRnl s.mac.RNL msg.requests } }) := by
  rw [handleRequest, foldlM_request]
  split <;> rfl

/-- The handler of data gets through exactly if the data fits. -/
theorem isSome_handleData_iff (s : InputState) (msg : MsgInfo) : (handleData s msg).isSome ↔
    (msg.dataSrcAddr.toNat < wsNumberOfDevice → msg.payloadSize.toNat ≤ wsMaxDataSize) := by
  rw [handleData, Option.isSome_map, appInputDataHandle, Option.isSome_map, wsUpdateRawData]
  split
  case isTrue hge => exact iff_of_true rfl fun hlt => absurd hlt (by omega)
  case isFalse hlt =>
    rw [forall_prop_of_true (Nat.lt_of_not_le hlt)]
    split
    case isTrue hlong => exact iff_of_false (by simp) (by omega)
    case isFalse hshort => exact iff_of_true rfl (by omega)

/-- **The handler gets through exactly if the data fits.** -/
theorem isSome_inputMsgHandler_iff (s : InputState) (msg : MsgInfo) :
    (inputMsgHandler s msg).isSome ↔ msg.Fits := by
  rw [MsgInfo.Fits, inputMsgHandler]
  split
  case isTrue hrr =>
    rw [handleRequest_eq]
    exact iff_of_true rfl fun hdata => absurd (hrr.symm.trans hdata) (by decide)
  case isFalse =>
    split
    case isTrue hdata => rw [isSome_handleData_iff, forall_prop_of_true hdata]
    case isFalse hother => exact iff_of_true rfl fun hdata => absurd hdata hother

end LoRaGwSv
