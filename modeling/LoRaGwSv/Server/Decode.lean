import LoRaGwSv.Server.Downlink

/-!
# Server/Decode — what a node reads out of a downlink message

Parsers of the three messages that follow nothing but what is in the message: the number of
channels in the header, and the counts in front of each list.  They are written from the layout of
the messages, not from the code that builds them; later modules prove that they read back what was
meant.
-/

namespace LoRaGwSv

open Wire

/-- The bytes of a message. -/
def MsgInfo.bytes (msg : MsgInfo) : List UInt8 := msg.payload.toList.take msg.size.toNat

/-- What every downlink message starts with. -/
structure Header where
  pktType : ℕ
  srcAddr : UInt16
  destAddr : UInt16
  frameFactor : ℕ
  uplinkSlotSize : ℕ
  downlinkSlotSize : ℕ
  nboChannels : ℕ
deriving DecidableEq, Repr

/-- The header of every message. -/
def parseHeader : Parser Header := fun bs => do
  let (macHeader, bs) ← byte bs
  let (srcAddr, bs) ← readLe16 bs
  let (destAddr, bs) ← readLe16 bs
  let (macParams, bs) ← readLe16 bs
  return ({
    pktType := field macHeader.toNat 4 4
    srcAddr := srcAddr
    destAddr := destAddr
    frameFactor := field macParams.toNat 0 3
    uplinkSlotSize := field macParams.toNat 3 5
    downlinkSlotSize := field macParams.toNat 8 5
    nboChannels := field macParams.toNat 13 3 }, bs)

/-- An address and a class. -/
def parseAddr : Parser (ℕ × ℕ) := fun bs => do
  let (addrFormat, bs) ← readLe16 bs
  return ((field addrFormat.toNat 0 13, field addrFormat.toNat 13 3), bs)

/-- A parser that must use up the message. -/
def parseAll {α : Type} (p : Parser α) (bs : List UInt8) : Option α :=
  match p bs with
  | some (x, []) => some x
  | _ => none

/-! ## The registration node list -/

/-- A registration node list, as a node reads it. -/
structure RnlMsg where
  seqNumber : UInt16
  netReadyFlag : ℕ
  nodes : List (ℕ × ℕ)
deriving DecidableEq, Repr

/-- It tells how many nodes it lists. -/
def parseRnl : Parser RnlMsg := fun bs => do
  let (_, bs) ← parseHeader bs
  let (seqNumber, bs) ← readLe16 bs
  let (rnlCtrl, bs) ← byte bs
  let (nodes, bs) ← many parseAddr (field rnlCtrl.toNat 1 7) bs
  return ({
    seqNumber := seqNumber
    netReadyFlag := field rnlCtrl.toNat 0 1
    nodes := nodes }, bs)

/-! ## The scheduling message -/

/-- The schedule of consecutive one-hop nodes of a group: each starts where the one before it
stops. -/
structure SmMsg where
  smCount : ℕ
  sch1Size : ℕ
  sch2Sslot : ℕ
  nboRelays : ℕ
  groupId : ℕ
  startLSI : ℕ
  /-- Address, class and slot demand of each node. -/
  nodes : List ((ℕ × ℕ) × ℕ)
deriving DecidableEq, Repr

/-- A node that is listed: its address, its class and its demand. -/
def parseSmNode : Parser ((ℕ × ℕ) × ℕ) := fun bs => do
  let (addr, bs) ← parseAddr bs
  let (slotDemand, bs) ← byte bs
  return ((addr, slotDemand.toNat), bs)

/-- A scheduling message tells its group and how many nodes it lists. -/
def parseSm : Parser SmMsg := fun bs => do
  let (_, bs) ← parseHeader bs
  let (smCtrl, bs) ← byte bs
  let (sch2Sslot, bs) ← byte bs
  let (nboRelays, bs) ← byte bs
  let (plCtrl, bs) ← byte bs
  let (startLSI, bs) ← byte bs
  let (nodes, bs) ← many parseSmNode (field plCtrl.toNat 3 5) bs
  return ({
    smCount := field smCtrl.toNat 0 4
    sch1Size := field smCtrl.toNat 4 4
    sch2Sslot := sch2Sslot.toNat
    nboRelays := nboRelays.toNat
    groupId := field plCtrl.toNat 0 3
    startLSI := startLSI.toNat
    nodes := nodes }, bs)

/-! ## The command message -/

/-- The schedule of a one-hop node and its children. -/
structure UsiRecord where
  groupId : ℕ
  nboChild : ℕ
  startLSI : ℕ
  address : ℕ
  cls : ℕ
  children : List (ℕ × ℕ)
deriving DecidableEq, Repr

/-- A command message, as a node reads it. -/
structure CmMsg where
  seqNumber : UInt16
  lastLSI : List ℕ
  nboNodesInUsi : ℕ
  usi : List UsiRecord
deriving DecidableEq, Repr

/-- A record of an update: an entry, and the children of its node. -/
def parseUsi : Parser UsiRecord := fun bs => do
  let (usiCtrl, bs) ← byte bs
  let (startLSI, bs) ← byte bs
  let ((address, cls), bs) ← parseAddr bs
  let (children, bs) ← many parseAddr (field usiCtrl.toNat 3 5) bs
  return ({
    groupId := field usiCtrl.toNat 0 3
    nboChild := field usiCtrl.toNat 3 5
    startLSI := startLSI.toNat
    address := address
    cls := cls
    children := children }, bs)

/-- It tells the last slot of each group, and how many updates it has. -/
def parseCm : Parser CmMsg := fun bs => do
  let (header, bs) ← parseHeader bs
  let (seqNumber, bs) ← readLe16 bs
  let (lastLSI, bs) ← many byte header.nboChannels bs
  let (cmCtrl, bs) ← byte bs
  let (usi, bs) ←
    if field cmCtrl.toNat 0 1 = 1 then many parseUsi (field cmCtrl.toNat 1 4) bs else some ([], bs)
  return ({
    seqNumber := seqNumber
    lastLSI := lastLSI.map UInt8.toNat
    nboNodesInUsi := field cmCtrl.toNat 1 4
    usi := usi }, bs)

/-! ## Reading the common parts back -/

/-- A byte of packed fields is not truncated. -/
theorem toNat_ofNat_pack {fs : List (ℕ × ℕ)} (h : (fs.map Prod.snd).sum = 8) :
    (UInt8.ofNat (pack fs)).toNat = pack fs := by
  have := pack_lt fs
  rw [h] at this
  rw [UInt8.toNat_ofNat', Nat.mod_eq_of_lt this]

/-- Fields of 16 bits together fit a word. -/
theorem toNat_ofNat_pack16 {fs : List (ℕ × ℕ)} (h : (fs.map Prod.snd).sum = 16) :
    (UInt16.ofNat (pack fs)).toNat = pack fs := by
  have := pack_lt fs
  rw [h] at this
  rw [UInt16.toNat_ofNat', Nat.mod_eq_of_lt this]

@[simp] theorem length_header (p : MacParams) (type : TwohopMsgType) :
    (header p type).length = 7 := rfl

@[simp] theorem length_addrFormat (addr cls : UInt16) : (addrFormat addr cls).length = 2 := rfl

theorem TwohopMsgType.pktType_lt (type : TwohopMsgType) : type.pktType < 16 := by
  cases type <;> decide

/-- **The header reads back**, whatever follows it. -/
theorem parseHeader_header (p : MacParams) (type : TwohopMsgType) (rest : List UInt8) :
    parseHeader (header p type ++ rest) = some ({
      pktType := type.pktType
      srcAddr := twohopServerAddr
      destAddr := twohopBroadcastAddr
      frameFactor := p.macFrameFactor
      uplinkSlotSize := p.macUlSlotSizeMs / 10
      downlinkSlotSize := p.macDlSlotSizeMs / 10
      nboChannels := p.macNboChannels }, rest) := by
  have hf := p.frameFactor_bounds
  have hu := p.ulSlotSize_bounds
  have hd := p.dlSlotSize_bounds
  have hc := p.nboChannels_bounds
  have htype : field (UInt8.ofNat (pack [(0, 4), (type.pktType, 4)])).toNat 4 4 = type.pktType := by
    rw [toNat_ofNat_pack rfl]
    exact (field_pack_tail 0 4 0 4 _).trans (field_pack_head _ 4 _ type.pktType_lt)
  have hvalue : p.value.toNat = pack [(p.macFrameFactor, 3), (p.macUlSlotSizeMs / 10, 5),
      (p.macDlSlotSizeMs / 10, 5), (p.macNboChannels, 3)] := toNat_ofNat_pack16 rfl
  have hff : field p.value.toNat 0 3 = p.macFrameFactor := by
    rw [hvalue]
    exact field_pack_head _ 3 _ (by omega)
  have hul : field p.value.toNat 3 5 = p.macUlSlotSizeMs / 10 := by
    rw [hvalue]
    exact (field_pack_tail _ 3 0 5 _).trans (field_pack_head _ 5 _ (by omega))
  have hdl : field p.value.toNat 8 5 = p.macDlSlotSizeMs / 10 := by
    rw [hvalue]
    exact (field_pack_tail _ 3 5 5 _).trans
      ((field_pack_tail _ 5 0 5 _).trans (field_pack_head _ 5 _ (by omega)))
  have hch : field p.value.toNat 13 3 = p.macNboChannels := by
    rw [hvalue]
    exact (field_pack_tail _ 3 10 3 _).trans ((field_pack_tail _ 5 5 3 _).trans
      ((field_pack_tail _ 5 0 3 _).trans (field_pack_head _ 3 _ (by omega))))
  rw [parseHeader, header, List.append_assoc, List.append_assoc, List.append_assoc,
    List.singleton_append]
  simp only [byte_cons, readLe16_le16, Option.bind_eq_bind, Option.bind_some, htype, hff, hul, hdl,
    hch]
  rfl

/-- **An address and a class read back** when they fit their fields. -/
theorem parseAddr_addrFormat {addr cls : UInt16} (ha : addr.toNat < 8192) (hc : cls.toNat < 8)
    (rest : List UInt8) :
    parseAddr (addrFormat addr cls ++ rest) = some ((addr.toNat, cls.toNat), rest) := by
  have hvalue : (TwohopNodeAddrFormat.ofBits addr cls).value.toNat
      = addr.toNat + cls.toNat * 8192 := by
    rw [TwohopNodeAddrFormat.ofBits, UInt16.toNat_ofNat']
    omega
  have haddr : field (TwohopNodeAddrFormat.ofBits addr cls).value.toNat 0 13 = addr.toNat := by
    rw [hvalue, field]
    omega
  have hcls : field (TwohopNodeAddrFormat.ofBits addr cls).value.toNat 13 3 = cls.toNat := by
    rw [hvalue, field]
    omega
  rw [parseAddr, addrFormat]
  simp only [readLe16_le16, Option.bind_eq_bind, Option.bind_some, haddr, hcls]
  rfl

theorem holds_header (msg : MsgInfo) (p : MacParams) (type : TwohopMsgType) :
    Writer.Holds (Writer.put ⟨msg.payload, 0⟩ (header p type)) (header p type) :=
  (Writer.holds_nil msg.payload).put le_rfl (header p type) (by simp)

/-- The bytes of a finished message are those written. -/
theorem bytes_finishMsg {w : Payload} {bs : List UInt8} (h : w.Holds bs) :
    (finishMsg w).bytes = bs := by
  rw [MsgInfo.bytes, finishMsg, UInt8.toNat_toUInt16, h.len_eq, h.bytes_eq]

end LoRaGwSv
