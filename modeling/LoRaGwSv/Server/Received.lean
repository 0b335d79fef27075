import LoRaGwSv.Server.InputMsgHandler

/-!
# Server/Received — which uplinks are handled by what has been received of them

The handler does not look at `size`: behind the bytes received it reads what the buffer holds from
an earlier message.  Filling that part of the buffer in two ways (`MsgInfo.fill`) shows what the
handler makes of it; `MsgInfo.Received` says of which messages it makes nothing
(`onlyReceived_iff`).
-/

namespace LoRaGwSv

open Wire

/-- The messages have one size, and the same bytes have been received. -/
structure SameReceived (msg msg' : MsgInfo) : Prop where
  size : msg'.size = msg.size
  payload : ∀ i < msg.size.toNat, byteAt msg'.payload i = byteAt msg.payload i

/-- **The handler looks only at the bytes received**: a message is handled, and every message of
which the same has been received leaves the same state. -/
def OnlyReceived (s : InputState) (msg : MsgInfo) : Prop :=
  ∀ msg', SameReceived msg msg' →
    ∃ t, inputMsgHandler s msg = some t ∧ inputMsgHandler s msg' = some t

/-- A request is not for the server, or has been received up to its last address. -/
def MsgInfo.RequestReceived (msg : MsgInfo) : Prop :=
  (4 ≤ msg.size.toNat ∧ byteAt msg.payload 3 ≠ 0xBE) ∨
    (5 ≤ msg.size.toNat ∧ byteAt msg.payload 4 ≠ 0xAE) ∨
      (6 ≤ msg.size.toNat ∧ 6 + 2 * msg.nboAddedNode ≤ msg.size.toNat)

/-- Relayed data of which the last byte received is the low one of its address, when that is the
address of no weather station, and data from there is nothing new to any node. -/
structure MsgInfo.Ignored (s : InputState) (msg : MsgInfo) : Prop where
  relayed : msg.ctrl0 = true
  half : msg.size.toNat = msg.ctrlEnd + 1
  noStation : wsNumberOfDevice ≤ (byteAt msg.payload msg.ctrlEnd).toNat
  noNews : ∀ addr, addr.toNat % 256 = (byteAt msg.payload msg.ctrlEnd).toNat →
    ∀ n, getNodeReferenceByAddress s.mac.NODES addr = some n →
      n.genInfo.type = .onehop ∧ n.latestSeqNo = msg.seqNumber

/-- The address data comes from has been received, and the data itself if it is for a weather
station, whose buffer has room for it. -/
structure MsgInfo.Arrived (msg : MsgInfo) : Prop where
  source : msg.ctrl0 = true → msg.ctrlEnd + 2 ≤ msg.size.toNat
  data : msg.dataSrcAddr.toNat < wsNumberOfDevice → msg.payloadSize.toNat ≤ wsMaxDataSize ∧
    msg.sizePos + 1 + msg.payloadSize.toNat ≤ msg.size.toNat

/-- Enough of the message has been received. -/
structure MsgInfo.Received (s : InputState) (msg : MsgInfo) : Prop where
  type : 1 ≤ msg.size.toNat
  request : msg.pktType = TwohopMsgType.ulRr.pktType → msg.RequestReceived
  data : msg.pktType = TwohopMsgType.ulData.pktType →
    8 ≤ msg.size.toNat ∧ (msg.Arrived ∨ msg.Ignored s)

variable {msg msg' : MsgInfo} {s : InputState}

/-! ## What has been received decides

Two messages that agree in the bytes received are handled alike, as long as the handler finds all it
looks for among them. -/

/-- A word that has been received is the same in both. -/
theorem SameReceived.le16At (h : SameReceived msg msg') {i : ℕ} (hi : i + 2 ≤ msg.size.toNat) :
    le16At msg'.payload i = le16At msg.payload i :=
  le16At_congr (h.payload i (by omega)) (h.payload (i + 1) (by omega))

theorem SameReceived.pktType (h : SameReceived msg msg') (hsize : 1 ≤ msg.size.toNat) :
    msg'.pktType = msg.pktType := by
  rw [MsgInfo.pktType, MsgInfo.pktType, h.payload 0 hsize]

theorem SameReceived.requests (h : SameReceived msg msg') (hsize : 6 ≤ msg.size.toNat)
    (hlist : 6 + 2 * msg.nboAddedNode ≤ msg.size.toNat) : msg'.requests = msg.requests := by
  have htype : msg'.rrType1 = msg.rrType1 := by
    rw [MsgInfo.rrType1, MsgInfo.rrType1, h.payload 5 (by omega)]
  have hchild : msg'.nboChild = msg.nboChild := by
    rw [MsgInfo.nboChild, MsgInfo.nboChild, h.payload 5 (by omega)]
  have hfmt : ∀ i < msg.nboAddedNode, msg'.addFmt i = msg.addFmt i := fun i hi => by
    rw [MsgInfo.addFmt, MsgInfo.addFmt, h.le16At (by omega)]
  rw [MsgInfo.nboAddedNode] at hfmt
  rw [MsgInfo.requests, MsgInfo.requests, htype, hchild]
  split
  case isTrue hself => rw [hfmt 0 (by rw [if_pos hself]; exact Nat.one_pos)]
  case isFalse hlisted =>
    rw [if_neg hlisted] at hfmt
    have hsrc : msg'.srcAddr = msg.srcAddr := h.le16At (by omega)
    rw [hsrc]
    exact List.map_congr_left fun i hi => by rw [hfmt i (List.mem_range.mp hi)]

/-- The address of the server, byte by byte. -/
theorem destAddr_eq_iff : msg.destAddr = twohopServerAddr ↔
    byteAt msg.payload 3 = 0xBE ∧ byteAt msg.payload 4 = 0xAE := by
  have hlo := (byteAt msg.payload 3).toNat_lt
  have hhi := (byteAt msg.payload 4).toNat_lt
  change UInt16.ofNat ((byteAt msg.payload 3).toNat + 256 * (byteAt msg.payload 4).toNat) = _ ↔ _
  rw [← UInt16.toNat_inj, ← UInt8.toNat_inj, ← UInt8.toNat_inj, UInt16.toNat_ofNat',
    show twohopServerAddr.toNat = 0xAEBE from rfl,
    show UInt8.toNat 0xBE = 0xBE from rfl, show UInt8.toNat 0xAE = 0xAE from rfl]
  omega

/-- A request that has been received as a whole is handled alike. -/
theorem handleRequest_congr (h : SameReceived msg msg') (hreq : msg.RequestReceived) :
    handleRequest s msg' = handleRequest s msg := by
  rw [handleRequest_eq, handleRequest_eq]
  by_cases hdest : msg.destAddr = twohopServerAddr
  · obtain ⟨hlo, hhi⟩ := destAddr_eq_iff.mp hdest
    obtain ⟨-, hne⟩ | ⟨-, hne⟩ | ⟨hsize, hlist⟩ := hreq
    · exact absurd hlo hne
    · exact absurd hhi hne
    · have hdest' : msg'.destAddr = msg.destAddr := h.le16At (by omega)
      rw [hdest', h.requests hsize hlist]
  · have hdest' : msg'.destAddr ≠ twohopServerAddr := by
      rw [ne_eq, destAddr_eq_iff]
      rintro ⟨hlo, hhi⟩
      obtain ⟨hsize, hne⟩ | ⟨hsize, hne⟩ | ⟨hsize, -⟩ := hreq
      · exact hne ((h.payload 3 (by omega)).symm.trans hlo)
      · exact hne ((h.payload 4 (by omega)).symm.trans hhi)
      · have heq : msg'.destAddr = msg.destAddr := h.le16At (by omega)
        exact hdest (heq.symm.trans (destAddr_eq_iff.mpr ⟨hlo, hhi⟩))
    rw [if_pos hdest, if_pos hdest']

theorem SameReceived.ctrl (h : SameReceived msg msg') (hsize : 8 ≤ msg.size.toNat) :
    msg'.ctrl0 = msg.ctrl0 ∧ msg'.ctrl1 = msg.ctrl1 ∧ msg'.ctrl2 = msg.ctrl2 ∧
      msg'.ctrlEnd = msg.ctrlEnd ∧ msg'.sizePos = msg.sizePos := by
  have hbyte := h.payload 7 (by omega)
  have h0 : msg'.ctrl0 = msg.ctrl0 := by rw [MsgInfo.ctrl0, MsgInfo.ctrl0, hbyte]
  have h1 : msg'.ctrl1 = msg.ctrl1 := by rw [MsgInfo.ctrl1, MsgInfo.ctrl1, hbyte]
  have h2 : msg'.ctrl2 = msg.ctrl2 := by rw [MsgInfo.ctrl2, MsgInfo.ctrl2, hbyte]
  have hend : msg'.ctrlEnd = msg.ctrlEnd := by rw [MsgInfo.ctrlEnd, MsgInfo.ctrlEnd, h1]
  exact ⟨h0, h1, h2, hend, by rw [MsgInfo.sizePos, MsgInfo.sizePos, h0, h2, hend]⟩

/-- Data for no weather station counts for its node only. -/
theorem handleData_of_ge (h : wsNumberOfDevice ≤ msg.dataSrcAddr.toNat) :
    handleData s msg = some { s with mac := { s.mac with
      NODES := dmNodeUpdateDataInfo s.mac.NODES msg.dataSrcAddr msg.seqNumber msg.ctrl0 } } := by
  rw [handleData, appInputDataHandle, wsUpdateRawData, if_pos h]
  rfl

/-- What a weather station keeps of data. -/
def MsgInfo.kept (msg : MsgInfo) : WsDataBuffer where
  loraNodeID := msg.dataSrcAddr.toUInt8
  data_ptr := copy (Vector.replicate _ 0) 0
    ((msg.payload.toList.drop (msg.sizePos + 1)).take msg.payloadSize.toNat)
  data_len := msg.payloadSize
  data_obsolete_level := wsDataObsoleteLevelMin

/-- Data of a device that has a place, and no more of it than there is room for, is stored. -/
theorem handleData_of_lt (h : msg.dataSrcAddr.toNat < wsNumberOfDevice)
    (hlen : msg.payloadSize.toNat ≤ wsMaxDataSize) :
    handleData s msg = some
      { mac := { s.mac with
          NODES := dmNodeUpdateDataInfo s.mac.NODES msg.dataSrcAddr msg.seqNumber msg.ctrl0 }
        ws_data_buf := s.ws_data_buf.setIfInBounds msg.dataSrcAddr.toNat msg.kept } := by
  rw [handleData, appInputDataHandle, wsUpdateRawData, if_neg (by omega), if_neg (by omega)]
  rfl

/-- A data frame that has arrived as a whole is handled alike. -/
theorem handleData_of_arrived (h : SameReceived msg msg') (hsize : 8 ≤ msg.size.toNat)
    (harr : msg.Arrived) :
    ∃ t, handleData s msg = some t ∧ handleData s msg' = some t := by
  obtain ⟨h0, -, -, hend, hpos⟩ := h.ctrl hsize
  have hseq : msg'.seqNumber = msg.seqNumber := h.le16At (by omega)
  have hsrc : msg'.dataSrcAddr = msg.dataSrcAddr := by
    rw [MsgInfo.dataSrcAddr, MsgInfo.dataSrcAddr, h0, hend]
    split
    case isTrue hrelayed => exact h.le16At (harr.source hrelayed)
    case isFalse => exact h.le16At (by omega)
  rcases Nat.lt_or_ge msg.dataSrcAddr.toNat wsNumberOfDevice with hlt | hge
  · obtain ⟨hlen, hdata⟩ := harr.data hlt
    have hle := msg.sizePos_le
    have hmax : wsMaxDataSize = 30 := rfl
    have hsizeeq : msg'.payloadSize = msg.payloadSize := by
      rw [MsgInfo.payloadSize, MsgInfo.payloadSize, hpos, h.payload _ (by omega)]
    have hbytes : (msg'.payload.toList.drop (msg.sizePos + 1)).take msg.payloadSize.toNat
        = (msg.payload.toList.drop (msg.sizePos + 1)).take msg.payloadSize.toNat :=
      drop_take_congr (by omega) fun j hj => h.payload _ (by omega)
    refine ⟨_, handleData_of_lt hlt hlen, ?_⟩
    have hkept : msg'.kept = msg.kept := by
      rw [MsgInfo.kept, MsgInfo.kept, hsrc, hpos, hsizeeq, hbytes]
    rw [handleData_of_lt (hsrc ▸ hlt) (hsizeeq ▸ hlen), hsrc, hseq, h0, hkept]
  · refine ⟨_, handleData_of_ge hge, ?_⟩
    rw [handleData_of_ge (hsrc ▸ hge), hsrc, hseq, h0]

/-- What is nothing new leaves NODES alone. -/
theorem dmNodeUpdateDataInfo_eq_self {lst : MngtNodeList} {addr seq : UInt16}
    (h : ∀ n, getNodeReferenceByAddress lst addr = some n →
      n.genInfo.type = .onehop ∧ n.latestSeqNo = seq) :
    dmNodeUpdateDataInfo lst addr seq true = lst := by
  have hnodes : Keyed.update MngtNode.addr addr (fun n => n.updateDataInfo seq true) lst.nodes
      = lst.nodes := by
    cases hn : Keyed.lookup MngtNode.addr addr lst.nodes with
    | none => exact Keyed.update_eq_self hn
    | some n =>
      obtain ⟨htype, hseq⟩ := h n hn
      have hself : n.updateDataInfo seq true = n := by
        rw [MngtNode.updateDataInfo, MngtNode.takeSeqNo, hseq, if_neg (UInt16.lt_irrefl _),
          if_neg (UInt16.lt_irrefl _), MngtNode.countLink]
        exact htype
      rw [Keyed.update_eq_of_lookup hn, hself, Keyed.update_const_eq_self hn]
  rw [dmNodeUpdateDataInfo, MngtNodeList.writeRef, hnodes]

/-- Counting data does not change whose node it is. -/
theorem MngtNode.addr_updateDataInfo (n : MngtNode) (seq : UInt16) (isDataRelay : Bool) :
    (n.updateDataInfo seq isDataRelay).addr = n.addr := by
  have htake : (n.takeSeqNo seq).addr = n.addr := by
    rw [takeSeqNo]
    split_ifs <;> rfl
  rw [updateDataInfo, countLink.eq_def]
  split <;> exact htake

/-- The number that is counted is the latest one afterwards. -/
theorem MngtNode.latestSeqNo_updateDataInfo (n : MngtNode) (seq : UInt16) (isDataRelay : Bool) :
    (n.updateDataInfo seq isDataRelay).latestSeqNo = seq := by
  have htake : (n.takeSeqNo seq).latestSeqNo = seq := by
    rw [takeSeqNo]
    split_ifs with hlt hgt
    · rfl
    · rfl
    · exact UInt16.le_antisymm (UInt16.not_lt.mp hgt) (UInt16.not_lt.mp hlt)
  rw [updateDataInfo, countLink.eq_def]
  split <;> exact htake

/-- What is something new to a node changes it. -/
theorem MngtNode.updateDataInfo_ne {n : MngtNode} {seq : UInt16}
    (h : ¬ (n.genInfo.type = .onehop ∧ n.latestSeqNo = seq)) : n.updateDataInfo seq true ≠ n := by
  intro heq
  have hseq : n.latestSeqNo = seq := by
    rw [← heq, latestSeqNo_updateDataInfo]
  have htwohop : n.genInfo.type = .twohop := by
    cases htype : n.genInfo.type with
    | onehop => exact absurd ⟨htype, hseq⟩ h
    | twohop => rfl
  have hcount := congrArg MngtNode.dataCountMainLink heq
  rw [updateDataInfo, takeSeqNo, hseq, if_neg (UInt16.lt_irrefl _), if_neg (UInt16.lt_irrefl _),
    countLink.eq_def, htwohop] at hcount
  have hnat := congrArg UInt16.toNat hcount
  rw [UInt16.toNat_add, show UInt16.toNat 1 = 1 from rfl] at hnat
  have hlt := n.dataCountMainLink.toNat_lt
  omega

/-- A data frame that changes nothing is handled alike, too. -/
theorem handleData_of_ignored (h : SameReceived msg msg') (hsize : 8 ≤ msg.size.toNat)
    (hign : msg.Ignored s) :
    ∃ t, handleData s msg = some t ∧ handleData s msg' = some t := by
  have hself : ∀ m, SameReceived msg m → handleData s m = some s := fun m hm => by
    obtain ⟨h0, -, -, hend, -⟩ := hm.ctrl hsize
    have hhalf := hign.half
    have hseq : m.seqNumber = msg.seqNumber := hm.le16At (by omega)
    have hlow := hm.payload msg.ctrlEnd (by omega)
    have haddr : m.dataSrcAddr.toNat
        = (byteAt msg.payload msg.ctrlEnd).toNat
          + 256 * (byteAt m.payload (msg.ctrlEnd + 1)).toNat := by
      have hlo := (byteAt msg.payload msg.ctrlEnd).toNat_lt
      have hhi := (byteAt m.payload (msg.ctrlEnd + 1)).toNat_lt
      rw [MsgInfo.dataSrcAddr, h0, hend, if_pos hign.relayed, Wire.le16At, hlow,
        UInt16.toNat_ofNat']
      omega
    have hmod : m.dataSrcAddr.toNat % 256 = (byteAt msg.payload msg.ctrlEnd).toNat := by
      have hlo := (byteAt msg.payload msg.ctrlEnd).toNat_lt
      omega
    have hno := hign.noStation
    rw [handleData_of_ge (by omega), hseq, h0, hign.relayed,
      dmNodeUpdateDataInfo_eq_self (hign.noNews _ hmod)]
  exact ⟨s, hself msg ⟨rfl, fun _ _ => rfl⟩, hself msg' h⟩

/-- **What has been received decides**, when it is enough. -/
theorem MsgInfo.Received.onlyReceived (h : msg.Received s) : OnlyReceived s msg := by
  intro msg' hsame
  have htype := hsame.pktType h.type
  rw [inputMsgHandler, inputMsgHandler, htype]
  split
  case isTrue hrr =>
    rw [handleRequest_congr hsame (h.request hrr), handleRequest_eq]
    exact ⟨_, rfl, rfl⟩
  case isFalse =>
    split
    case isTrue hdata =>
      obtain ⟨hsize, harr | hign⟩ := h.data hdata
      · exact handleData_of_arrived hsame hsize harr
      · exact handleData_of_ignored hsame hsize hign
    case isFalse => exact ⟨s, rfl, rfl⟩

/-! ## What has not been received makes a difference

Where it does not, the bytes behind the end can be chosen so that the state afterwards shows them.
-/

variable {i j k : ℕ} {bs bs' : List UInt8} {lo b : UInt8} {addr : UInt16}

/-- The message with other bytes from position `i` on. -/
def MsgInfo.fill (msg : MsgInfo) (i : ℕ) (bs : List UInt8) : MsgInfo :=
  { msg with payload := copy msg.payload i bs }

/-- The payload after a fill: the new bytes where they have been put, and the old ones around them.
-/
theorem byteAt_fill (h : i + bs.length ≤ 256) (j : ℕ) : byteAt (msg.fill i bs).payload j
    = if i ≤ j ∧ j < i + bs.length then bs.getD (j - i) 0 else byteAt msg.payload j :=
  byteAt_copy msg.payload h j

theorem byteAt_fill_add (h : i + bs.length ≤ 256) (hj : j < bs.length) :
    byteAt (msg.fill i bs).payload (i + j) = bs.getD j 0 := by
  rw [byteAt_fill h, if_pos (by omega), Nat.add_sub_cancel_left]

/-- Filling up with the rest of a list puts the list there, but for its first bytes. -/
theorem byteAt_fill_drop (hi : i ≤ bs.length) (hlen : bs.length ≤ 256) (j : ℕ) :
    byteAt (msg.fill i (bs.drop i)).payload j
      = if i ≤ j ∧ j < bs.length then bs.getD j 0 else byteAt msg.payload j := by
  have hdrop : (bs.drop i).length = bs.length - i := List.length_drop
  rw [byteAt_fill (by omega)]
  refine ite_congr (propext (by omega)) (fun hj => ?_) fun _ => rfl
  rw [List.getD_eq_getElem?_getD, List.getD_eq_getElem?_getD, List.getElem?_drop,
    Nat.add_sub_of_le hj.1]

/-- What is filled in behind the bytes received has not been received. -/
theorem sameReceived_fill (hi : msg.size.toNat ≤ i) (h : i + bs.length ≤ 256) :
    SameReceived msg (msg.fill i bs) :=
  ⟨rfl, fun j hj => by rw [byteAt_fill h, if_neg (by omega)]⟩

/-- **Two fillings that are handled differently** show that more is looked at. -/
theorem not_onlyReceived (hi : msg.size.toNat ≤ i) (h : i + bs.length ≤ 256)
    (h' : i + bs'.length ≤ 256)
    (hne : inputMsgHandler s (msg.fill i bs) ≠ inputMsgHandler s (msg.fill i bs')) :
    ¬ OnlyReceived s msg := by
  intro hrec
  obtain ⟨t, ht, heq⟩ := hrec _ (sameReceived_fill hi h)
  obtain ⟨t', ht', heq'⟩ := hrec _ (sameReceived_fill hi h')
  rw [heq, heq', ← ht, ← ht'] at hne
  exact hne rfl

/-! ### Requests -/

/-- A request to the server of which address `k` is the last. -/
structure MsgInfo.Asks (msg : MsgInfo) (k : ℕ) (lo hi : UInt8) : Prop where
  type : msg.pktType = TwohopMsgType.ulRr.pktType
  dest : byteAt msg.payload 3 = 0xBE ∧ byteAt msg.payload 4 = 0xAE
  count : msg.nboAddedNode = k + 1
  low : byteAt msg.payload (6 + 2 * k) = lo
  high : byteAt msg.payload (6 + 2 * k + 1) = hi

/-- The last of the nodes asked for is the one at the last address. -/
theorem requests_concat (h : msg.nboAddedNode = k + 1) :
    ∃ init r, msg.requests = init ++ [r] ∧ r.node.addr = (msg.addFmt k).address ∧
      r.node.genInfo.cls = (msg.addFmt k).cls.toUInt8 := by
  rw [MsgInfo.nboAddedNode] at h
  rw [MsgInfo.requests]
  split at h
  case isTrue hself =>
    obtain rfl : k = 0 := by omega
    exact ⟨[], .itself (msg.addFmt 0), if_pos hself, rfl, rfl⟩
  case isFalse hlisted =>
    refine ⟨(List.range k).map fun i => .listed (msg.addFmt i) msg.srcAddr,
      .listed (msg.addFmt k) msg.srcAddr, ?_, ?_⟩
    · rw [if_neg hlisted, h, List.range_succ, List.map_append, List.map_singleton]
    · rw [Registration.node]
      split <;> exact ⟨rfl, rfl⟩

/-- A node pushed is found with what it says of itself. -/
theorem getNodeReferenceByAddress_pushNode (lst : MngtNodeList) (n : MngtNode) :
    ∃ e, getNodeReferenceByAddress (pushNode lst n).2 n.addr = some e ∧ e.genInfo = n.genInfo := by
  rw [pushNode, isNodeExisted]
  split
  case isTrue h =>
    obtain ⟨t, ht⟩ := Option.isSome_iff_exists.mp h
    refine ⟨n.updateGenInfo t, ?_, rfl⟩
    have hkey : ∀ x : MngtNode, x.addr = n.addr → (n.updateGenInfo x).addr = n.addr :=
      fun _ _ => rfl
    rw [dmNodeUpdateGenInfo, ht]
    exact (Keyed.lookup_update hkey lst.nodes).trans
      ((if_pos rfl).trans (congrArg (Option.map _) ht))
  case isFalse h =>
    have hnew : ∀ x ∈ lst.nodes, x.addr ≠ n.addr :=
      Keyed.lookup_eq_none.mp (Option.not_isSome_iff_eq_none.mp h)
    have hperm : (if lst.sort then lst.nodes.orderedInsert MngtNode.DemandsMore n
        else lst.nodes ++ [n]).Perm (n :: lst.nodes) := by
      split
      · exact List.perm_orderedInsert _ _ _
      · exact List.perm_append_singleton _ _
    obtain ⟨e, he⟩ : ∃ e, Keyed.lookup MngtNode.addr n.addr _ = some e :=
      Keyed.exists_lookup (hperm.symm.subset List.mem_cons_self)
    refine ⟨e, he, ?_⟩
    rcases List.mem_cons.mp (hperm.subset (Keyed.mem_of_lookup he)) with rfl | hmem
    · rfl
    · exact absurd (Keyed.key_of_lookup he) (hnew e hmem)

/-- The class that a request asks for is found in RNL afterwards: a handler that did not look behind
the end could not tell it. -/
theorem MsgInfo.Asks.inputMsgHandler {hi : UInt8} (h : msg.Asks k lo hi) (s : InputState) :
    ∃ t e, inputMsgHandler s msg = some t ∧
      getNodeReferenceByAddress t.mac.RNL (msg.addFmt k).address = some e ∧
      e.genInfo.cls = (msg.addFmt k).cls.toUInt8 := by
  obtain ⟨init, r, hreq, haddr, hcls⟩ := requests_concat h.count
  obtain ⟨e, he, hinfo⟩ :=
    getNodeReferenceByAddress_pushNode (requestedRnl s.mac.RNL init) r.node
  have hdest : ¬ msg.destAddr ≠ twohopServerAddr := not_not.mpr (destAddr_eq_iff.mpr h.dest)
  have hrun : LoRaGwSv.inputMsgHandler s msg = some { s with mac := { s.mac with
      RNL := (pushNode (requestedRnl s.mac.RNL init) r.node).2 } } := by
    rw [LoRaGwSv.inputMsgHandler, if_pos h.type, handleRequest_eq, if_neg hdest, hreq,
      requestedRnl, List.foldl_append, List.foldl_cons, List.foldl_nil]
    rfl
  rw [haddr] at he
  exact ⟨_, e, hrun, he, (congrArg NodeGenInfo.cls hinfo).trans hcls⟩

/-- The class of a node is in the last byte of its address. -/
theorem not_onlyReceived_of_asks (hi : msg.size.toNat ≤ i) (h : i + bs.length ≤ 256)
    (h' : i + bs'.length ≤ 256) (hasks : (msg.fill i bs).Asks k lo 0)
    (hasks' : (msg.fill i bs').Asks k lo 32) : ¬ OnlyReceived s msg := by
  refine not_onlyReceived hi h h' fun heq => ?_
  have hlo := lo.toNat_lt
  have hfmt : ∀ m b, MsgInfo.Asks m k lo b →
      (m.addFmt k).value.toNat = lo.toNat + 256 * b.toNat := fun m b hm => by
    have hb := b.toNat_lt
    change (UInt16.ofNat ((byteAt m.payload (6 + 2 * k)).toNat
      + 256 * (byteAt m.payload (6 + 2 * k + 1)).toNat)).toNat = _
    rw [hm.low, hm.high, UInt16.toNat_ofNat']
    omega
  have hval := hfmt _ _ hasks
  have hval' := hfmt _ _ hasks'
  rw [show UInt8.toNat 0 = 0 from rfl] at hval
  rw [show UInt8.toNat 32 = 32 from rfl] at hval'
  have haddr : ((msg.fill i bs').addFmt k).address = ((msg.fill i bs).addFmt k).address := by
    apply UInt16.toNat_inj.mp
    rw [TwohopNodeAddrFormat.address, TwohopNodeAddrFormat.address, UInt16.toNat_mod,
      UInt16.toNat_mod, hval, hval', show (8192 : UInt16).toNat = 8192 from rfl]
    omega
  obtain ⟨t, e, ht, he, hcls⟩ := hasks.inputMsgHandler s
  obtain ⟨t', e', ht', he', hcls'⟩ := hasks'.inputMsgHandler s
  obtain rfl : t = t' := Option.some.inj (ht.symm.trans (heq.trans ht'))
  rw [haddr] at he'
  obtain rfl : e = e' := Option.some.inj (he.symm.trans he')
  have hclass := congrArg UInt8.toNat (hcls.symm.trans hcls')
  rw [TwohopNodeAddrFormat.cls, TwohopNodeAddrFormat.cls, UInt16.toNat_toUInt8,
    UInt16.toNat_toUInt8, UInt16.toNat_div, UInt16.toNat_div, hval, hval',
    show (8192 : UInt16).toNat = 8192 from rfl] at hclass
  omega

/-- A request of node 0 for itself, of class 0 or 1. -/
def ownRequest (b : UInt8) : List UInt8 := [0x30, 0, 0, 0xBE, 0xAE, 0, 0, b]

/-- A request for one node has eight bytes. -/
theorem length_ownRequest (b : UInt8) : (ownRequest b).length = 8 := rfl

/-- Where a request has been cut off, its rest can be made to ask for any class. -/
theorem asks_fill_ownRequest (hi : i ≤ 5)
    (htype : 1 ≤ i → msg.pktType = TwohopMsgType.ulRr.pktType)
    (hlo : 4 ≤ i → byteAt msg.payload 3 = 0xBE) (hhi : 5 ≤ i → byteAt msg.payload 4 = 0xAE)
    (b : UInt8) : (msg.fill i ((ownRequest b).drop i)).Asks 0 0 b := by
  have hlen := length_ownRequest b
  have hbyte : ∀ j, byteAt (msg.fill i ((ownRequest b).drop i)).payload j
      = if i ≤ j ∧ j < (ownRequest b).length then (ownRequest b).getD j 0
        else byteAt msg.payload j := byteAt_fill_drop (by omega) (by omega)
  have hfive : byteAt (msg.fill i ((ownRequest b).drop i)).payload 5 = 0 := by
    rw [hbyte, if_pos (by omega)]
    rfl
  refine ⟨?_, ⟨?_, ?_⟩, ?_, ?_, ?_⟩
  · rw [MsgInfo.pktType, hbyte]
    split
    · change field (0x30 : UInt8).toNat 4 4 = 3
      decide
    · exact htype (by omega)
  · rw [hbyte]
    split
    · rfl
    · exact hlo (by omega)
  · rw [hbyte]
    split
    · rfl
    · exact hhi (by omega)
  · rw [MsgInfo.nboAddedNode, MsgInfo.rrType1, hfive]
    rfl
  · rw [hbyte, if_pos (by omega)]
    rfl
  · rw [hbyte, if_pos (by omega)]
    rfl

/-- So a request that has been cut off is handled by bytes that were never received. -/
theorem MsgInfo.not_onlyReceived_request
    (htype : 1 ≤ msg.size.toNat → msg.pktType = TwohopMsgType.ulRr.pktType)
    (hreq : ¬ msg.RequestReceived) : ¬ OnlyReceived s msg := by
  rw [MsgInfo.RequestReceived, not_or, not_or] at hreq
  obtain ⟨hlo, hhi, hlist⟩ := hreq
  rcases Nat.lt_or_ge msg.size.toNat 6 with hshort | hlong
  · have hasks : ∀ b, (msg.fill msg.size.toNat ((ownRequest b).drop msg.size.toNat)).Asks 0 0 b :=
      asks_fill_ownRequest (Nat.le_of_lt_succ hshort) htype
        (fun h => not_not.mp fun hne => hlo ⟨h, hne⟩) fun h => not_not.mp fun hne => hhi ⟨h, hne⟩
    have hlen : ∀ b,
        msg.size.toNat + ((ownRequest b).drop msg.size.toNat).length ≤ 256 := by
      intro b
      rw [List.length_drop]
      change msg.size.toNat + (8 - msg.size.toNat) ≤ 256
      omega
    exact not_onlyReceived_of_asks le_rfl (hlen 0) (hlen 32) (hasks 0) (hasks 32)
  · have hn := msg.nboAddedNode_lt
    obtain ⟨k, hk⟩ : ∃ k, msg.nboAddedNode = k + 1 := ⟨msg.nboAddedNode - 1, by omega⟩
    have hbyte : ∀ b : UInt8, ∀ j < 6 + 2 * k + 1,
        byteAt (msg.fill (6 + 2 * k + 1) [b]).payload j = byteAt msg.payload j := fun b j hj => by
      rw [byteAt_fill (by change 6 + 2 * k + 1 + 1 ≤ 256; omega), if_neg (by omega)]
    have hasks : ∀ b : UInt8, (msg.fill (6 + 2 * k + 1) [b]).Asks k
        (byteAt msg.payload (6 + 2 * k)) b := fun b => by
      refine ⟨?_, ⟨?_, ?_⟩, ?_, hbyte b _ (by omega), ?_⟩
      · rw [MsgInfo.pktType, hbyte b 0 (by omega)]
        exact htype (by omega)
      · rw [hbyte b 3 (by omega)]
        exact not_not.mp fun hne => hlo ⟨by omega, hne⟩
      · rw [hbyte b 4 (by omega)]
        exact not_not.mp fun hne => hhi ⟨by omega, hne⟩
      · rw [MsgInfo.nboAddedNode, MsgInfo.rrType1, MsgInfo.nboChild, hbyte b 5 (by omega)]
        exact hk
      · rw [byteAt_fill (by change 6 + 2 * k + 1 + 1 ≤ 256; omega),
          if_pos ⟨le_rfl, Nat.lt_succ_self _⟩, Nat.sub_self]
        rfl
    have hlen : 6 + 2 * k + 1 + 1 ≤ 256 := by omega
    exact not_onlyReceived_of_asks (by omega) hlen hlen (hasks 0) (hasks 32)

/-! ### Data -/

/-- Data of `l` bytes for station `A`, the last of them `b`. -/
structure MsgInfo.Stores (msg : MsgInfo) (A l : ℕ) (b : UInt8) : Prop where
  type : msg.pktType = TwohopMsgType.ulData.pktType
  source : msg.dataSrcAddr.toNat = A
  station : A < wsNumberOfDevice
  length : msg.payloadSize.toNat = l
  pos : 1 ≤ l
  room : l ≤ wsMaxDataSize
  last : byteAt msg.payload (msg.sizePos + l) = b

variable {A l : ℕ}

/-- A frame of data goes to `handleData`. -/
theorem inputMsgHandler_of_data (h : msg.pktType = TwohopMsgType.ulData.pktType) :
    inputMsgHandler s msg = handleData s msg := by
  rw [inputMsgHandler, if_neg (by rw [h]; decide), if_pos h]

/-- The last byte that is stored is the last one that the length tells of. -/
theorem byteAt_copied (hpos : 1 ≤ l) (hroom : l ≤ wsMaxDataSize) {q : ℕ} (hq : q ≤ 12)
    (v : Vector UInt8 256) :
    byteAt (copy (Vector.replicate wsMaxDataSize 0) 0 ((v.toList.drop (q + 1)).take l)) (l - 1)
      = byteAt v (q + l) := by
  have hmax : wsMaxDataSize = 30 := rfl
  have hlen : ((v.toList.drop (q + 1)).take l).length = l := by
    rw [List.length_take, List.length_drop, Vector.length_toList]
    omega
  rw [byteAt_copy _ (by omega), if_pos (by omega), byteAt, List.getD_eq_getElem?_getD,
    List.getD_eq_getElem?_getD, List.getElem?_take_of_lt (by omega), List.getElem?_drop,
    show q + 1 + (l - 1 - 0) = q + l by omega]

/-- The byte that data ends with is found in the buffer of its device afterwards. -/
theorem MsgInfo.Stores.inputMsgHandler (h : msg.Stores A l b) (s : InputState) :
    ∃ t buf, inputMsgHandler s msg = some t ∧ t.ws_data_buf.toList[A]? = some buf ∧
      byteAt buf.data_ptr (l - 1) = b := by
  have hlt : msg.dataSrcAddr.toNat < wsNumberOfDevice := h.source ▸ h.station
  have hlen : msg.payloadSize.toNat ≤ wsMaxDataSize := h.length ▸ h.room
  refine ⟨_, msg.kept, (inputMsgHandler_of_data h.type).trans (handleData_of_lt hlt hlen), ?_, ?_⟩
  · have hstation := h.station
    simp [Vector.toList, Vector.setIfInBounds, h.source, hstation]
  · rw [MsgInfo.kept, h.length, byteAt_copied h.pos h.room msg.sizePos_le, h.last]

/-- The data of a weather station is in the last byte of the data. -/
theorem not_onlyReceived_of_stores (hi : msg.size.toNat ≤ i) (h : i + bs.length ≤ 256)
    (h' : i + bs'.length ≤ 256) (hst : (msg.fill i bs).Stores A l 0)
    (hst' : (msg.fill i bs').Stores A l 1) : ¬ OnlyReceived s msg := by
  refine not_onlyReceived hi h h' fun heq => ?_
  obtain ⟨t, buf, ht, hbuf, hbyte⟩ := hst.inputMsgHandler s
  obtain ⟨t', buf', ht', hbuf', hbyte'⟩ := hst'.inputMsgHandler s
  obtain rfl : t = t' := Option.some.inj (ht.symm.trans (heq.trans ht'))
  obtain rfl : buf = buf' := Option.some.inj (hbuf.symm.trans hbuf')
  exact absurd (hbyte.symm.trans hbyte') (by decide)

/-- One byte of data that node 0 has had relayed. -/
def relayedData (b : UInt8) : List UInt8 := [0x40, 0, 0, 0, 0, 0, 0, 1, 0, 0, 1, b]

/-- Data of one byte, passed on by a relay, has twelve bytes. -/
theorem length_relayedData (b : UInt8) : (relayedData b).length = 12 := rfl

/-- Where a data frame has been cut off, its rest can be made to store any byte. -/
theorem stores_fill_relayedData (hi : i ≤ 7)
    (htype : 1 ≤ i → msg.pktType = TwohopMsgType.ulData.pktType) (b : UInt8) :
    (msg.fill i ((relayedData b).drop i)).Stores 0 1 b := by
  have hlen := length_relayedData b
  have hbyte : ∀ j, byteAt (msg.fill i ((relayedData b).drop i)).payload j
      = if i ≤ j ∧ j < (relayedData b).length then (relayedData b).getD j 0
        else byteAt msg.payload j := byteAt_fill_drop (by omega) (by omega)
  set m := msg.fill i ((relayedData b).drop i)
  have hseven : byteAt m.payload 7 = 1 := by
    rw [hbyte, if_pos (by omega)]
    rfl
  have hctrl : m.ctrl0 = true ∧ m.ctrl1 = false := by
    rw [MsgInfo.ctrl0, MsgInfo.ctrl1, hseven]
    decide
  have hend : m.ctrlEnd = 8 := by rw [MsgInfo.ctrlEnd, hctrl.2]; rfl
  have hpos : m.sizePos = 10 := by rw [MsgInfo.sizePos, if_pos hctrl.1, hend]
  have hsrc : m.dataSrcAddr = 0 := by
    rw [MsgInfo.dataSrcAddr, if_pos hctrl.1, hend, Wire.le16At, hbyte, hbyte, if_pos (by omega),
      if_pos (by omega)]
    rfl
  have hsize : m.payloadSize = 1 := by
    rw [MsgInfo.payloadSize, hpos, hbyte, if_pos (by omega)]
    rfl
  refine ⟨?_, congrArg UInt16.toNat hsrc, by decide, congrArg UInt8.toNat hsize, le_rfl,
    by decide, ?_⟩
  · rw [MsgInfo.pktType, hbyte]
    split
    · change field (0x40 : UInt8).toNat 4 4 = 4
      decide
    · exact htype (by omega)
  · rw [hpos, hbyte, if_pos (by omega)]
    rfl

/-- The address of data has been received, if what follows it has not. -/
theorem dataSrcAddr_fill (hsize : 8 ≤ msg.size.toNat)
    (hsource : msg.ctrl0 = true → msg.ctrlEnd + 2 ≤ msg.size.toNat)
    (hi : msg.size.toNat ≤ i) (h : i + bs.length ≤ 256) :
    (msg.fill i bs).dataSrcAddr = msg.dataSrcAddr := by
  have hsame := sameReceived_fill hi h
  obtain ⟨h0, -, -, hend, -⟩ := hsame.ctrl hsize
  rw [MsgInfo.dataSrcAddr, MsgInfo.dataSrcAddr, h0, hend]
  split
  case isTrue hrelayed => exact hsame.le16At (hsource hrelayed)
  case isFalse => exact hsame.le16At (by omega)

section Longer

variable (hsize : 8 ≤ msg.size.toNat) (hdata : msg.pktType = TwohopMsgType.ulData.pktType)
include hsize hdata

/-- Behind what has been received, the filling says whom data comes from, how long it is, and what
it ends with. -/
theorem stores_fill (hi : msg.size.toNat ≤ i) (h : i + bs.length ≤ 256)
    (hsource : (msg.fill i bs).dataSrcAddr.toNat = A) (hstation : A < wsNumberOfDevice)
    (hlength : (byteAt (msg.fill i bs).payload msg.sizePos).toNat = l) (hpos : 1 ≤ l)
    (hroom : l ≤ wsMaxDataSize) (hlast : byteAt (msg.fill i bs).payload (msg.sizePos + l) = b) :
    (msg.fill i bs).Stores A l b := by
  have hsame := sameReceived_fill hi h
  obtain ⟨-, -, -, -, hpos'⟩ := hsame.ctrl hsize
  refine ⟨(hsame.pktType (by omega)).trans hdata, hsource, hstation, ?_, hpos, hroom, ?_⟩
  · rw [MsgInfo.payloadSize, hpos', hlength]
  · rw [hpos', hlast]

/-- An address of which nothing has been received can be that of node 0. -/
theorem stores_fill_address (hrelayed : msg.ctrl0 = true) (hnone : msg.size.toNat ≤ msg.ctrlEnd)
    (b : UInt8) : (msg.fill msg.ctrlEnd [0, 0, 1, b]).Stores 0 1 b := by
  have hend := msg.ctrlEnd_le
  have hlen : [0, 0, 1, b].length = 4 := rfl
  have hpos : msg.sizePos = msg.ctrlEnd + 2 := by rw [MsgInfo.sizePos, if_pos hrelayed]
  have hbyte : ∀ j < 4, byteAt (msg.fill msg.ctrlEnd [0, 0, 1, b]).payload (msg.ctrlEnd + j)
      = [0, 0, 1, b].getD j 0 := fun j hj => byteAt_fill_add (by omega) (by omega)
  have hsame : SameReceived msg (msg.fill msg.ctrlEnd [0, 0, 1, b]) :=
    sameReceived_fill hnone (by omega)
  obtain ⟨h0, -, -, hend', -⟩ := hsame.ctrl hsize
  refine stores_fill hsize hdata hnone (by omega) ?_ (by decide) ?_ le_rfl (by decide) ?_
  · have hlo := hbyte 0 (by decide)
    rw [Nat.add_zero] at hlo
    rw [MsgInfo.dataSrcAddr, h0, hend', if_pos hrelayed, Wire.le16At, hbyte 1 (by decide), hlo]
    rfl
  · rw [hpos, hbyte 2 (by decide)]
    rfl
  · rw [hpos, show msg.ctrlEnd + 2 + 1 = msg.ctrlEnd + 3 from rfl, hbyte 3 (by decide)]
    rfl

omit hdata in
/-- The high byte of an address is filled in. -/
theorem toNat_dataSrcAddr_fill (hrelayed : msg.ctrl0 = true)
    (hhalf : msg.size.toNat = msg.ctrlEnd + 1) (b : UInt8)
    (h : msg.ctrlEnd + 1 + (b :: bs).length ≤ 256) :
    (msg.fill (msg.ctrlEnd + 1) (b :: bs)).dataSrcAddr.toNat
      = (byteAt msg.payload msg.ctrlEnd).toNat + 256 * b.toNat := by
  have hlow := (byteAt msg.payload msg.ctrlEnd).toNat_lt
  have hhigh := b.toNat_lt
  have hsame : SameReceived msg (msg.fill (msg.ctrlEnd + 1) (b :: bs)) :=
    sameReceived_fill hhalf.le h
  obtain ⟨h0, -, -, hend, -⟩ := hsame.ctrl hsize
  have hbyte : byteAt (msg.fill (msg.ctrlEnd + 1) (b :: bs)).payload (msg.ctrlEnd + 1 + 0)
      = (b :: bs).getD 0 0 := byteAt_fill_add h (by simp)
  rw [Nat.add_zero] at hbyte
  rw [MsgInfo.dataSrcAddr, h0, hend, if_pos hrelayed, Wire.le16At, hsame.payload _ (by omega),
    hbyte, UInt16.toNat_ofNat']
  change ((byteAt msg.payload msg.ctrlEnd).toNat + 256 * b.toNat) % 2 ^ 16 = _
  omega

/-- An address of which the low byte has been received can be that of a station. -/
theorem stores_fill_highByte (hrelayed : msg.ctrl0 = true)
    (hhalf : msg.size.toNat = msg.ctrlEnd + 1)
    (hlow : (byteAt msg.payload msg.ctrlEnd).toNat < wsNumberOfDevice) (b : UInt8) :
    (msg.fill (msg.ctrlEnd + 1) [0, 1, b]).Stores (byteAt msg.payload msg.ctrlEnd).toNat 1 b := by
  have hend := msg.ctrlEnd_le
  have hlen : msg.ctrlEnd + 1 + [0, 1, b].length ≤ 256 := by
    change msg.ctrlEnd + 1 + 3 ≤ 256
    omega
  have hpos : msg.sizePos = msg.ctrlEnd + 1 + 1 := by rw [MsgInfo.sizePos, if_pos hrelayed]
  have hbyte : ∀ j < 3, byteAt (msg.fill (msg.ctrlEnd + 1) [0, 1, b]).payload (msg.ctrlEnd + 1 + j)
      = [0, 1, b].getD j 0 := fun j hj => byteAt_fill_add hlen hj
  refine stores_fill hsize hdata hhalf.le hlen ?_ hlow ?_ le_rfl (by decide) ?_
  · exact toNat_dataSrcAddr_fill hsize hrelayed hhalf 0 hlen
  · rw [hpos, hbyte 1 (by decide)]
    rfl
  · rw [hpos, show msg.ctrlEnd + 1 + 1 + 1 = msg.ctrlEnd + 1 + 2 from rfl, hbyte 2 (by decide)]
    rfl

/-- Data of which the length has not been received can be one byte. -/
theorem stores_fill_length (hsource : msg.ctrl0 = true → msg.ctrlEnd + 2 ≤ msg.size.toNat)
    (hstation : msg.dataSrcAddr.toNat < wsNumberOfDevice) (hnone : msg.size.toNat ≤ msg.sizePos)
    (b : UInt8) : (msg.fill msg.sizePos [1, b]).Stores msg.dataSrcAddr.toNat 1 b := by
  have hpos := msg.sizePos_le
  have hlen : [1, b].length = 2 := rfl
  have hbyte : ∀ j < 2, byteAt (msg.fill msg.sizePos [1, b]).payload (msg.sizePos + j)
      = [1, b].getD j 0 := fun j hj => byteAt_fill_add (by omega) (by omega)
  refine stores_fill hsize hdata hnone (by omega) ?_ hstation ?_ le_rfl (by decide) ?_
  · rw [dataSrcAddr_fill hsize hsource hnone (by omega)]
  · exact congrArg UInt8.toNat (hbyte 0 (by decide))
  · rw [hbyte 1 (by decide)]
    rfl

/-- Data of which the last byte has not been received can end with any. -/
theorem stores_fill_last (hsource : msg.ctrl0 = true → msg.ctrlEnd + 2 ≤ msg.size.toNat)
    (hstation : msg.dataSrcAddr.toNat < wsNumberOfDevice) (hlen : msg.sizePos < msg.size.toNat)
    (hroom : msg.payloadSize.toNat ≤ wsMaxDataSize)
    (hnone : msg.size.toNat ≤ msg.sizePos + msg.payloadSize.toNat) (b : UInt8) :
    (msg.fill (msg.sizePos + msg.payloadSize.toNat) [b]).Stores msg.dataSrcAddr.toNat
      msg.payloadSize.toNat b := by
  have hpos := msg.sizePos_le
  have hmax : wsMaxDataSize = 30 := rfl
  have hone : [b].length = 1 := rfl
  have hsame : SameReceived msg (msg.fill (msg.sizePos + msg.payloadSize.toNat) [b]) :=
    sameReceived_fill hnone (by omega)
  refine stores_fill hsize hdata hnone (by omega) ?_ hstation ?_ (by omega) hroom ?_
  · rw [dataSrcAddr_fill hsize hsource hnone (by omega)]
  · rw [hsame.payload _ hlen]
    rfl
  · rw [byteAt_fill (by omega), if_pos (by omega), Nat.sub_self]
    rfl

/-- Data of a node that is no station counts for it, whatever the high byte of its address. -/
theorem inputMsgHandler_fill_highByte (hrelayed : msg.ctrl0 = true)
    (hhalf : msg.size.toNat = msg.ctrlEnd + 1)
    (hlow : wsNumberOfDevice ≤ (byteAt msg.payload msg.ctrlEnd).toNat) (s : InputState)
    (b : UInt8) :
    ∃ A, A.toNat = (byteAt msg.payload msg.ctrlEnd).toNat + 256 * b.toNat ∧
      inputMsgHandler s (msg.fill (msg.ctrlEnd + 1) [b]) = some { s with mac := { s.mac with
        NODES := dmNodeUpdateDataInfo s.mac.NODES A msg.seqNumber true } } := by
  have hend := msg.ctrlEnd_le
  have hlen : msg.ctrlEnd + 1 + [b].length ≤ 256 := by
    change msg.ctrlEnd + 1 + 1 ≤ 256
    omega
  have hsame : SameReceived msg (msg.fill (msg.ctrlEnd + 1) [b]) := sameReceived_fill hhalf.le hlen
  obtain ⟨h0, -⟩ := hsame.ctrl hsize
  have hA := toNat_dataSrcAddr_fill hsize hrelayed hhalf b hlen
  refine ⟨_, hA, ?_⟩
  have hseq : (msg.fill (msg.ctrlEnd + 1) [b]).seqNumber = msg.seqNumber :=
    hsame.le16At (by omega)
  rw [inputMsgHandler_of_data ((hsame.pktType (by omega)).trans hdata),
    handleData_of_ge (by omega), hseq, h0, hrelayed]

/-- An address of which the low byte has been received can be that of a node with news. -/
theorem not_onlyReceived_of_news (hrelayed : msg.ctrl0 = true)
    (hhalf : msg.size.toNat = msg.ctrlEnd + 1)
    (hlow : wsNumberOfDevice ≤ (byteAt msg.payload msg.ctrlEnd).toNat) (hmod : addr.toNat % 256
      = (byteAt msg.payload msg.ctrlEnd).toNat) {n : MngtNode}
    (hn : getNodeReferenceByAddress s.mac.NODES addr = some n)
    (hnews : ¬ (n.genInfo.type = .onehop ∧ n.latestSeqNo = msg.seqNumber)) :
    ¬ OnlyReceived s msg := by
  have hend := msg.ctrlEnd_le
  have haddr := addr.toNat_lt
  obtain ⟨b, hb⟩ : ∃ b : UInt8, b.toNat = addr.toNat / 256 :=
    ⟨UInt8.ofNat (addr.toNat / 256), UInt8.toNat_ofNat_of_lt' (by change _ < 256; omega)⟩
  obtain ⟨b', hb'⟩ : ∃ b' : UInt8, b'.toNat ≠ b.toNat := by
    by_cases hzero : b.toNat = 0
    · exact ⟨1, by rw [hzero]; decide⟩
    · exact ⟨0, Ne.symm hzero⟩
  obtain ⟨A, hA, hrunA⟩ := inputMsgHandler_fill_highByte hsize hdata hrelayed hhalf hlow s b
  obtain ⟨A', hA', hrunA'⟩ := inputMsgHandler_fill_highByte hsize hdata hrelayed hhalf hlow s b'
  obtain rfl : A = addr := UInt16.toNat_inj.mp (by omega)
  have hother : A ≠ A' := fun h => by
    rw [h] at hA
    omega
  have hlen : ∀ b : UInt8, msg.ctrlEnd + 1 + [b].length ≤ 256 := fun b => by
    change msg.ctrlEnd + 1 + 1 ≤ 256
    omega
  refine not_onlyReceived hhalf.le (hlen b) (hlen b') fun heq => ?_
  have hnodes := congrArg (fun t : InputState => getNodeReferenceByAddress t.mac.NODES A)
    (Option.some.inj (hrunA.symm.trans (heq.trans hrunA')))
  have hkey : ∀ (B : UInt16) (x : MngtNode), x.addr = B →
      (x.updateDataInfo msg.seqNumber true).addr = B := fun _ x h =>
    (x.addr_updateDataInfo _ _).trans h
  have hleft := (Keyed.lookup_update (hkey A) s.mac.NODES.nodes).trans (if_pos rfl)
  have hright := (Keyed.lookup_update (hkey A') s.mac.NODES.nodes).trans (if_neg hother)
  have hsame := hleft.symm.trans (hnodes.trans hright)
  rw [getNodeReferenceByAddress] at hn
  rw [hn, Option.map_some] at hsame
  exact MngtNode.updateDataInfo_ne hnews (Option.some.inj hsame)

/-- Without all of its address, data is handled by more than has been received, unless it makes no
difference. -/
theorem not_onlyReceived_of_noAddress (hrelayed : msg.ctrl0 = true)
    (hshort : ¬ msg.ctrlEnd + 2 ≤ msg.size.toNat) (hign : ¬ msg.Ignored s) :
    ¬ OnlyReceived s msg := by
  have hend := msg.ctrlEnd_le
  rcases Nat.lt_or_ge msg.ctrlEnd msg.size.toNat with hlow | hnone
  · have hhalf : msg.size.toNat = msg.ctrlEnd + 1 := by omega
    rcases Nat.lt_or_ge (byteAt msg.payload msg.ctrlEnd).toNat wsNumberOfDevice with hlt | hge
    · have hstores := stores_fill_highByte hsize hdata hrelayed hhalf hlt
      have hthree : ∀ b : UInt8, msg.ctrlEnd + 1 + [0, 1, b].length ≤ 256 := fun b => by
        change msg.ctrlEnd + 1 + 3 ≤ 256
        omega
      exact not_onlyReceived_of_stores hhalf.le (hthree 0) (hthree 1) (hstores 0) (hstores 1)
    · by_cases hnews : ∀ addr : UInt16,
          addr.toNat % 256 = (byteAt msg.payload msg.ctrlEnd).toNat →
          ∀ n, getNodeReferenceByAddress s.mac.NODES addr = some n →
            n.genInfo.type = .onehop ∧ n.latestSeqNo = msg.seqNumber
      · exact absurd ⟨hrelayed, hhalf, hge, hnews⟩ hign
      · push Not at hnews
        obtain ⟨addr, hmod, n, hn, hnew⟩ := hnews
        exact not_onlyReceived_of_news hsize hdata hrelayed hhalf hge hmod hn
          fun h => hnew h.1 h.2
  · have hstores := stores_fill_address hsize hdata hrelayed hnone
    have hfour : ∀ b : UInt8, msg.ctrlEnd + [0, 0, 1, b].length ≤ 256 := fun b => by
      change msg.ctrlEnd + 4 ≤ 256
      omega
    exact not_onlyReceived_of_stores hnone (hfour 0) (hfour 1) (hstores 0) (hstores 1)

/-- Without all that a station takes in, data is handled by more than has been received. -/
theorem not_onlyReceived_of_noData
    (hsource : msg.ctrl0 = true → msg.ctrlEnd + 2 ≤ msg.size.toNat)
    (hstation : msg.dataSrcAddr.toNat < wsNumberOfDevice)
    (hnot : ¬ (msg.payloadSize.toNat ≤ wsMaxDataSize ∧
      msg.sizePos + 1 + msg.payloadSize.toNat ≤ msg.size.toNat)) : ¬ OnlyReceived s msg := by
  have hpos := msg.sizePos_le
  have hmax : wsMaxDataSize = 30 := rfl
  rcases Nat.lt_or_ge msg.sizePos msg.size.toNat with hlen | hnone
  · rcases Nat.lt_or_ge wsMaxDataSize msg.payloadSize.toNat with hlong | hroom
    · intro hrec
      obtain ⟨t, ht, -⟩ := hrec msg ⟨rfl, fun _ _ => rfl⟩
      rw [inputMsgHandler_of_data hdata, handleData, appInputDataHandle, wsUpdateRawData,
        if_neg (by omega), if_pos hlong] at ht
      exact absurd ht (by simp)
    · have hstores := stores_fill_last hsize hdata hsource hstation hlen hroom (by omega)
      have hone : msg.sizePos + msg.payloadSize.toNat + 1 ≤ 256 := by omega
      exact not_onlyReceived_of_stores (by omega) hone hone (hstores 0) (hstores 1)
  · have hstores := stores_fill_length hsize hdata hsource hstation hnone
    have htwo : ∀ b : UInt8, msg.sizePos + [1, b].length ≤ 256 := fun b => by
      change msg.sizePos + 2 ≤ 256
      omega
    exact not_onlyReceived_of_stores hnone (htwo 0) (htwo 1) (hstores 0) (hstores 1)

/-- Without all of its address and all that a station takes in, data is handled by more than has
been received. -/
theorem not_onlyReceived_data (harr : ¬ msg.Arrived) (hign : ¬ msg.Ignored s) :
    ¬ OnlyReceived s msg := by
  by_cases hsource : msg.ctrl0 = true → msg.ctrlEnd + 2 ≤ msg.size.toNat
  · by_cases hfit : msg.dataSrcAddr.toNat < wsNumberOfDevice →
        msg.payloadSize.toNat ≤ wsMaxDataSize ∧
          msg.sizePos + 1 + msg.payloadSize.toNat ≤ msg.size.toNat
    · exact absurd ⟨hsource, hfit⟩ harr
    · obtain ⟨hstation, hnot⟩ := Classical.not_imp.mp hfit
      exact not_onlyReceived_of_noData hsize hdata hsource hstation hnot
  · obtain ⟨hrelayed, hshort⟩ := Classical.not_imp.mp hsource
    exact not_onlyReceived_of_noAddress hsize hdata hrelayed hshort hign

end Longer

/-- **Exactly the messages of which enough has been received are handled by what has been
received.** -/
theorem onlyReceived_iff (s : InputState) (msg : MsgInfo) :
    OnlyReceived s msg ↔ msg.Received s := by
  refine ⟨fun h => ?_, MsgInfo.Received.onlyReceived⟩
  by_cases hempty : 1 ≤ msg.size.toNat
  · refine ⟨hempty, fun hrr => ?_, fun hdata => ?_⟩
    · by_contra hreq
      exact MsgInfo.not_onlyReceived_request (fun _ => hrr) hreq h
    · rcases Nat.lt_or_ge msg.size.toNat 8 with hshort | hsize
      · have hstores := stores_fill_relayedData (Nat.le_of_lt_succ hshort) fun _ => hdata
        have hlen : ∀ b,
            msg.size.toNat + ((relayedData b).drop msg.size.toNat).length ≤ 256 := fun b => by
          rw [List.length_drop, length_relayedData]
          omega
        exact absurd h (not_onlyReceived_of_stores le_rfl (hlen 0) (hlen 1) (hstores 0) (hstores 1))
      · refine ⟨hsize, ?_⟩
        by_contra hnot
        rw [not_or] at hnot
        exact not_onlyReceived_data hsize hdata hnot.1 hnot.2 h
  · refine absurd h (MsgInfo.not_onlyReceived_request (fun h => absurd h hempty) ?_)
    rw [MsgInfo.RequestReceived]
    omega

/-- A request that ends before its address, in a buffer in which the high byte of an address is
left from an earlier message. -/
def truncatedRequest (left : UInt8) : MsgInfo where
  size := 6
  payload := copy (Vector.replicate 256 0) 0 [0x30, 0, 0, 0xBE, 0xAE, 0, 0, left]

/-- That byte says which class the node registered has. -/
theorem not_onlyReceived_truncatedRequest :
    ¬ ∀ (s : InputState) (msg : MsgInfo), OnlyReceived s msg := by
  intro h
  have hsame : SameReceived (truncatedRequest 0) (truncatedRequest 32) :=
    ⟨rfl, by decide +kernel⟩
  obtain ⟨t, ht, ht'⟩ :=
    h ⟨twohopLoRaMacInit macDefaults, wsAppInit⟩ (truncatedRequest 0) (truncatedRequest 32) hsame
  have hne : (inputMsgHandler ⟨twohopLoRaMacInit macDefaults, wsAppInit⟩ (truncatedRequest 0)).map
      (fun t => t.mac.RNL)
        ≠ (inputMsgHandler ⟨twohopLoRaMacInit macDefaults, wsAppInit⟩ (truncatedRequest 32)).map
          fun t => t.mac.RNL := by decide +kernel
  rw [ht, ht'] at hne
  exact hne rfl

end LoRaGwSv
