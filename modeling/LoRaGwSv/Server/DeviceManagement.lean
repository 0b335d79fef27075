import LoRaGwSv.Machinery.Keyed
import LoRaGwSv.Machinery.Runs

/-!
# Server/DeviceManagement — gateways and the end devices heard through them
(`device_management.c`)

For each end device the server keeps the two gateways that hear it best, the primary in `gw0` and
the alternative in `gw1`, `-1` being the socket of an empty slot.  Downlinks go out through the
primary (`findGWSocket`).
-/

namespace LoRaGwSv

/-- `TCP_STREAM_BUFFER_SIZE`. -/
abbrev tcpStreamBufferSize : ℕ := 8192

/-- A connected gateway (`GateWayInfo_t`), its socket address left out. -/
structure GateWayInfo where
  socket : ℤ
  rxBuffer : List UInt8
  currentRxBufferSize : UInt32
deriving DecidableEq, Repr

/-- What is known of a device at one gateway (`GateWayRxInfo_t`). -/
structure GateWayRxInfo where
  socket : ℤ
  rssi : Int16
  snr : Int8
  totalRxNum : UInt32
  totalRxSize : UInt32
  rxTime : ℤ
deriving DecidableEq

/-- An end device (`EndDeviceInfo_t`); what `malloc` leaves unset is `none`. -/
structure EndDeviceInfo where
  address : UInt32
  totalRxNum : UInt32
  totalRxSize : UInt32
  seqNum : UInt32
  totalRxNumPrev : UInt32
  totalRxSizePrev : UInt32
  seqNumPrev : UInt32
  devcr : UInt8
  devsf : UInt8
  devch : UInt32
  devbw : UInt8
  devEUI : Option (Vector UInt8 8)
  devNonce : Option (Vector UInt8 2)
  gw0 : GateWayRxInfo
  gw1 : GateWayRxInfo
deriving DecidableEq

/-- How a frame of a device was received, and when: a gateway is a connected socket. -/
structure Reception where
  gwSocket : ℤ
  rssi : Int16
  snr : Int8
  cr : UInt8
  sf : UInt8
  ch : UInt32
  bw : UInt8
  time : ℤ
  gwSocket_nonneg : 0 ≤ gwSocket
deriving DecidableEq

/-- The lists behind `GW_HEAD` and `ED_HEAD`. -/
structure Devices where
  gateWays : List GateWayInfo
  endDevices : List EndDeviceInfo
deriving DecidableEq

/-- `InitGateWayInfo` and `InitEndDeviceInfo`. -/
def initDevices : Devices := ⟨[], []⟩

variable {s t : Devices} {ed ed' : EndDeviceInfo} {rx : Reception}

/-! ## Gateways -/

/-- `FindGateWay`. -/
def findGateWay (s : Devices) (socket : ℤ) : Option GateWayInfo :=
  Keyed.lookup GateWayInfo.socket socket s.gateWays

/-- A gateway that has just been added. -/
def newGateWay (clntsocket : ℤ) : GateWayInfo :=
  ⟨clntsocket, List.replicate tcpStreamBufferSize 0, 0⟩

/-- `AddGateWay`: a socket that is known is not added again. -/
def addGateWay (s : Devices) (clntsocket : ℤ) : Devices :=
  match findGateWay s clntsocket with
  | none => { s with gateWays := newGateWay clntsocket :: s.gateWays }
  | some _ =>
    { s with
      gateWays := Keyed.update GateWayInfo.socket clntsocket (fun _ => newGateWay clntsocket)
        s.gateWays }

/-! ## End devices -/

/-- `FindEndDevice`. -/
def findEndDevice (s : Devices) (address : UInt32) : Option EndDeviceInfo :=
  Keyed.lookup EndDeviceInfo.address address s.endDevices

/-- `FindGWSocket`: -1 for a device that is not known, or has no gateway. -/
def findGWSocket (s : Devices) (address : UInt32) : ℤ :=
  match findEndDevice s address with
  | none => -1
  | some edInfo => edInfo.gw0.socket

/-- The slot of a gateway the device has just been heard through. -/
def Reception.newSlot (rx : Reception) : GateWayRxInfo :=
  ⟨rx.gwSocket, rx.rssi, rx.snr, 0, 0, rx.time⟩

/-- The slot of a new device's alternative gateway. -/
def emptySlot : GateWayRxInfo := ⟨-1, 0, 0, 0, 0, 0⟩

/-- A slot whose gateway hears the device again. -/
def GateWayRxInfo.refresh (gw : GateWayRxInfo) (rx : Reception) : GateWayRxInfo :=
  { gw with rssi := rx.rssi, snr := rx.snr, rxTime := rx.time }

/-- A slot given to the gateway heard. -/
def GateWayRxInfo.give (gw : GateWayRxInfo) (rx : Reception) : GateWayRxInfo :=
  { gw.refresh rx with socket := rx.gwSocket }

/-- A slot whose gateway is gone; its statistics stay. -/
def GateWayRxInfo.clear (gw : GateWayRxInfo) : GateWayRxInfo :=
  { gw with socket := -1, rssi := 0, snr := 0 }

/-- What the radio tells of a frame. -/
def EndDeviceInfo.setRadio (ed : EndDeviceInfo) (rx : Reception) : EndDeviceInfo :=
  { ed with devcr := rx.cr, devsf := rx.sf, devch := rx.ch, devbw := rx.bw }

/-- Which GW is better? -/
def EndDeviceInfo.switchGW (ed : EndDeviceInfo) : EndDeviceInfo :=
  if ed.gw0.rssi < ed.gw1.rssi then { ed with gw0 := ed.gw1, gw1 := ed.gw0 } else ed

/-- A device that has just been heard for the first time. -/
def newEndDevice (address : UInt32) (rx : Reception) : EndDeviceInfo where
  address := address
  totalRxNum := 0
  totalRxSize := 0
  seqNum := 0
  totalRxNumPrev := 0
  totalRxSizePrev := 0
  seqNumPrev := 0
  devcr := rx.cr
  devsf := rx.sf
  devch := rx.ch
  devbw := rx.bw
  devEUI := none
  devNonce := none
  gw0 := rx.newSlot
  gw1 := emptySlot

/-- The join of a device that is there already. -/
def EndDeviceInfo.rejoin (edInfo : EndDeviceInfo) (rx : Reception) : EndDeviceInfo :=
  if edInfo.gw0.socket = rx.gwSocket then { edInfo with gw0 := edInfo.gw0.refresh rx }
  else if edInfo.gw1.socket = rx.gwSocket then { edInfo with gw1 := edInfo.gw1.refresh rx }
  else if edInfo.gw1.socket = -1 then
    ({ edInfo with gw1 := edInfo.gw1.give rx }.setRadio rx).switchGW
  else edInfo

/-- A new device is put in front of the first with a higher address. -/
def addEndDeviceInfo (s : Devices) (address : UInt32) (rx : Reception) (devNonce : Vector UInt8 2)
    (deui : Vector UInt8 8) : Devices :=
  match findEndDevice s address with
  | none =>
    let edInfo :=
      { newEndDevice address rx with devNonce := some devNonce, devEUI := some deui }
    { s with
      endDevices := s.endDevices.orderedInsert (fun new cur => cur.address > new.address) edInfo }
  | some edInfo =>
    { s with
      endDevices := Keyed.update EndDeviceInfo.address address (fun _ => edInfo.rejoin rx)
        s.endDevices }

/-- `switchGW`, unless only primary GW information is existed. -/
def EndDeviceInfo.rankGW (ed : EndDeviceInfo) : EndDeviceInfo :=
  if ed.gw1.socket = -1 then ed else ed.switchGW

/-- What a data frame of a known device leaves in the two slots. -/
def EndDeviceInfo.heard (edInfo : EndDeviceInfo) (rx : Reception) : EndDeviceInfo :=
  if edInfo.gw0.socket = rx.gwSocket then { edInfo with gw0 := edInfo.gw0.refresh rx }.rankGW
  else if edInfo.gw1.socket = rx.gwSocket then { edInfo with gw1 := edInfo.gw1.refresh rx }.rankGW
  else if edInfo.gw1.socket = -1 then { edInfo with gw1 := edInfo.gw1.give rx }.rankGW
  else if edInfo.gw1.rssi < rx.rssi then { edInfo with gw1 := edInfo.gw1.give rx }.rankGW
  else edInfo

/-- `RxEndDeviceInfoUpdate`: what a data frame changes. -/
def rxEndDeviceInfoUpdate (s : Devices) (address : UInt32) (rx : Reception) (pktSize : UInt8)
    (seqNum : UInt32) : Devices :=
  match findEndDevice s address with
  | none =>
    let edInfo :=
      { newEndDevice address rx with
        totalRxNum := 1
        totalRxSize := pktSize.toUInt32
        seqNum := seqNum }
    { s with endDevices := edInfo :: s.endDevices }
  | some edInfo =>
    let edInfo :=
      { edInfo with
        totalRxNum := edInfo.totalRxNum + 1
        totalRxSize := edInfo.totalRxSize + pktSize.toUInt32
        seqNum := seqNum }.setRadio rx
    { s with
      endDevices := Keyed.update EndDeviceInfo.address address (fun _ => edInfo.heard rx)
        s.endDevices }

/-- A device whose gateway is gone is left to the alternative. -/
def EndDeviceInfo.drop (edInfo : EndDeviceInfo) (gwSocket : ℤ) : EndDeviceInfo :=
  if edInfo.gw0.socket = gwSocket then
    { edInfo with gw0 := edInfo.gw1, gw1 := edInfo.gw1.clear }
  else if edInfo.gw1.socket = gwSocket then { edInfo with gw1 := edInfo.gw1.clear }
  else edInfo

/-- `RemoveGateWayFromEndDevice`: the slots of every device are gone through. -/
def removeGateWayFromEndDevice (s : Devices) (gwSocket : ℤ) : Devices :=
  { s with endDevices := s.endDevices.map fun edInfo => edInfo.drop gwSocket }

/-- `RemoveGateWay`. -/
def removeGateWay (s : Devices) (socket : ℤ) : Devices :=
  match findGateWay s socket with
  | none => s
  | some _ =>
    removeGateWayFromEndDevice
      { s with gateWays := Keyed.erase GateWayInfo.socket socket s.gateWays } socket

/-- The calls that change the devices. -/
inductive DeviceOp
  | connect (clntsocket : ℤ)
  | disconnect (socket : ℤ)
  | join (address : UInt32) (rx : Reception) (devNonce : Vector UInt8 2) (deui : Vector UInt8 8)
  | data (address : UInt32) (rx : Reception) (pktSize : UInt8) (seqNum : UInt32)
deriving DecidableEq

/-- What a call does to the two lists. -/
def DeviceOp.step (s : Devices) : DeviceOp → Option Devices
  | .connect clntsocket => some (addGateWay s clntsocket)
  | .disconnect socket => some (removeGateWay s socket)
  | .join address rx devNonce deui => some (addEndDeviceInfo s address rx devNonce deui)
  | .data address rx pktSize seqNum => some (rxEndDeviceInfoUpdate s address rx pktSize seqNum)

/-! ## The better gateway first -/

/-- **The primary gateway is the better one**, and there is none only if there is no gateway. -/
structure EndDeviceInfo.Ranked (ed : EndDeviceInfo) : Prop where
  distinct : ed.gw0.socket = ed.gw1.socket → ed.gw0.socket = -1
  primary : ed.gw1.socket ≠ -1 → ed.gw0.socket ≠ -1 ∧ ed.gw1.rssi ≤ ed.gw0.rssi

/-- Every device is ranked, and one has no route only if neither slot holds a gateway. -/
structure Devices.Ranked (s : Devices) : Prop where
  devices : ∀ ed ∈ s.endDevices, ed.Ranked
  route : ∀ address ed, findEndDevice s address = some ed → findGWSocket s address = -1 →
    ed.gw0.socket = -1 ∧ ed.gw1.socket = -1

/-- An empty slot has signal level 0. -/
def EndDeviceInfo.Zeroed (ed : EndDeviceInfo) : Prop :=
  (ed.gw0.socket = -1 → ed.gw0.rssi = 0) ∧ (ed.gw1.socket = -1 → ed.gw1.rssi = 0)

/-- A device left without a gateway is heard again above level 0. -/
def EndDeviceInfo.Regained (ed : EndDeviceInfo) (rx : Reception) : Prop :=
  ed.gw0.socket = -1 → 0 < rx.rssi

/-- A gateway that hears the device join again is as good as its slot says. -/
def EndDeviceInfo.KeepsPlace (ed : EndDeviceInfo) (rx : Reception) : Prop :=
  (ed.gw0.socket = rx.gwSocket → ed.gw1.socket ≠ -1 → ed.gw1.rssi ≤ rx.rssi) ∧
    (ed.gw1.socket = rx.gwSocket → rx.rssi ≤ ed.gw0.rssi)

/-- What a call needs for the gateways to stay ranked. -/
def DeviceOp.KeepsRank (s : Devices) : DeviceOp → Prop
  | .connect _ => True
  | .disconnect _ => True
  | .join address rx _ _ =>
    ∀ ed, findEndDevice s address = some ed → ed.Regained rx ∧ ed.KeepsPlace rx
  | .data address rx _ _ =>
    ∀ ed, findEndDevice s address = some ed → ed.Regained rx

/-- A gateway that hears something has a socket. -/
theorem Reception.gwSocket_ne (rx : Reception) : rx.gwSocket ≠ -1 := by
  have := rx.gwSocket_nonneg
  omega

/-! ### One device -/

/-- An empty slot stays cleared when the two change places. -/
theorem EndDeviceInfo.Zeroed.switchGW (h : ed.Zeroed) : ed.switchGW.Zeroed := by
  rw [EndDeviceInfo.switchGW]
  split
  · exact ⟨h.2, h.1⟩
  · exact h

/-- **Comparing the signal levels ranks two gateways**, unless there is only the alternative and
its level is not above that of the empty slot. -/
theorem EndDeviceInfo.ranked_switchGW_iff (hne : ed.gw0.socket ≠ ed.gw1.socket)
    (h1 : ed.gw1.socket ≠ -1) :
    ed.switchGW.Ranked ↔ (ed.gw0.socket = -1 → ed.gw0.rssi < ed.gw1.rssi) := by
  rw [EndDeviceInfo.switchGW]
  split
  case isTrue hlt =>
    refine iff_of_true ⟨fun h => absurd h.symm hne, fun _ => ⟨h1, Int16.le_of_lt hlt⟩⟩ fun _ => hlt
  case isFalse hlt =>
    constructor
    · exact fun h h0 => absurd h0 (h.primary h1).1
    · refine fun h => ⟨fun heq => absurd heq hne, fun _ => ⟨fun h0 => hlt (h h0), ?_⟩⟩
      exact Int16.not_lt.mp hlt

theorem EndDeviceInfo.ranked_switchGW (hne : ed.gw0.socket ≠ ed.gw1.socket)
    (h0 : ed.gw0.socket ≠ -1) (h1 : ed.gw1.socket ≠ -1) : ed.switchGW.Ranked :=
  (ranked_switchGW_iff hne h1).mpr fun h => absurd h h0

/-- The gateway heard is given the alternative slot. -/
theorem EndDeviceInfo.give_spec (hz : ed.Zeroed) (hne : ed.gw0.socket ≠ rx.gwSocket) :
    (EndDeviceInfo.switchGW { ed with gw1 := ed.gw1.give rx }).Zeroed ∧
      ((EndDeviceInfo.switchGW { ed with gw1 := ed.gw1.give rx }).Ranked ↔ ed.Regained rx) := by
  have hzeroed : EndDeviceInfo.Zeroed { ed with gw1 := ed.gw1.give rx } :=
    ⟨hz.1, fun h => absurd h rx.gwSocket_ne⟩
  refine ⟨hzeroed.switchGW, ?_⟩
  rw [ranked_switchGW_iff hne rx.gwSocket_ne, EndDeviceInfo.Regained]
  refine forall_congr' fun h0 => ?_
  rw [← hz.1 h0]
  rfl

/-- **A join keeps a device ranked** only if the levels allow it: the slots are compared when a
gateway is new, but not when one is refreshed. -/
theorem EndDeviceInfo.Ranked.rejoin (h : ed.Ranked) (hz : ed.Zeroed) (rx : Reception) :
    ((ed.rejoin rx).Ranked ↔ ed.Regained rx ∧ ed.KeepsPlace rx) ∧ (ed.rejoin rx).Zeroed := by
  rw [EndDeviceInfo.rejoin, EndDeviceInfo.KeepsPlace]
  split
  case isTrue h0 =>
    have h0' : ed.gw0.socket ≠ -1 := h0 ▸ rx.gwSocket_ne
    have h1 : ed.gw1.socket ≠ rx.gwSocket := fun h1 => h0' (h.distinct (h0.trans h1.symm))
    refine ⟨⟨fun hr =>
      ⟨fun h => absurd h h0', fun _ hne => (hr.primary hne).2, fun h => absurd h h1⟩,
      fun hc => ⟨h.distinct, fun hne => ⟨h0', hc.2.1 h0 hne⟩⟩⟩, ?_⟩
    exact ⟨fun h => absurd h h0', hz.2⟩
  case isFalse h0 =>
    split
    case isTrue h1 =>
      have h1' : ed.gw1.socket ≠ -1 := h1 ▸ rx.gwSocket_ne
      have h0' := (h.primary h1').1
      refine ⟨⟨fun hr => ⟨fun h => absurd h h0', fun h => absurd h h0, fun _ => (hr.primary h1').2⟩,
        fun hc => ⟨h.distinct, fun _ => ⟨h0', hc.2.2 h1⟩⟩⟩, ?_⟩
      exact ⟨hz.1, fun h => absurd h h1'⟩
    case isFalse h1 =>
      have hplace : (ed.gw0.socket = rx.gwSocket → ed.gw1.socket ≠ -1 → ed.gw1.rssi ≤ rx.rssi) ∧
          (ed.gw1.socket = rx.gwSocket → rx.rssi ≤ ed.gw0.rssi) :=
        ⟨fun h => absurd h h0, fun h => absurd h h1⟩
      rw [and_iff_left hplace]
      split
      case isTrue => exact (@EndDeviceInfo.give_spec (ed.setRadio rx) rx hz h0).symm
      case isFalse h1' =>
        exact ⟨iff_of_true h fun h0' => absurd h0' (h.primary h1').1, hz⟩

/-- **A data frame keeps a device ranked** unless it brings a gateway back to a device that has
none, with a level of 0 or below. -/
theorem EndDeviceInfo.Ranked.heard (h : ed.Ranked) (hz : ed.Zeroed) (rx : Reception) :
    ((ed.heard rx).Ranked ↔ ed.Regained rx) ∧ (ed.heard rx).Zeroed := by
  have hgive := @EndDeviceInfo.give_spec ed rx hz
  rw [EndDeviceInfo.heard]
  split
  case isTrue h0 =>
    have h0' : ed.gw0.socket ≠ -1 := h0 ▸ rx.gwSocket_ne
    have hzeroed : EndDeviceInfo.Zeroed { ed with gw0 := ed.gw0.refresh rx } :=
      ⟨fun h => absurd h h0', hz.2⟩
    have hreg : ed.Regained rx := fun h => absurd h h0'
    rw [EndDeviceInfo.rankGW]
    split
    case isTrue h1 => exact ⟨iff_of_true ⟨h.distinct, fun hne => absurd h1 hne⟩ hreg, hzeroed⟩
    case isFalse h1 =>
      have hne : ed.gw0.socket ≠ ed.gw1.socket := fun heq => h0' (h.distinct heq)
      exact ⟨iff_of_true (EndDeviceInfo.ranked_switchGW hne h0' h1) hreg, hzeroed.switchGW⟩
  case isFalse h0 =>
    split
    case isTrue h1 =>
      have h1' : ed.gw1.socket ≠ -1 := h1 ▸ rx.gwSocket_ne
      have h0' := (h.primary h1').1
      have hzeroed : EndDeviceInfo.Zeroed { ed with gw1 := ed.gw1.refresh rx } :=
        ⟨hz.1, fun h => absurd h h1'⟩
      have hrank : EndDeviceInfo.rankGW { ed with gw1 := ed.gw1.refresh rx }
          = EndDeviceInfo.switchGW { ed with gw1 := ed.gw1.refresh rx } := if_neg h1'
      rw [hrank]
      have hne : ed.gw0.socket ≠ ed.gw1.socket := fun heq => h0' (h.distinct heq)
      exact ⟨iff_of_true (EndDeviceInfo.ranked_switchGW hne h0' h1') fun h => absurd h h0',
        hzeroed.switchGW⟩
    case isFalse h1 =>
      have hgiven : EndDeviceInfo.rankGW { ed with gw1 := ed.gw1.give rx }
          = EndDeviceInfo.switchGW { ed with gw1 := ed.gw1.give rx } :=
        if_neg rx.gwSocket_ne
      rw [hgiven]
      split
      case isTrue => exact (hgive h0).symm
      case isFalse h1' =>
        split
        case isTrue => exact (hgive h0).symm
        case isFalse => exact ⟨iff_of_true h fun h0' => absurd h0' (h.primary h1').1, hz⟩

/-- Losing a gateway keeps a device ranked: the alternative moves up. -/
theorem EndDeviceInfo.Ranked.drop (h : ed.Ranked) (hz : ed.Zeroed) (gwSocket : ℤ) :
    (ed.drop gwSocket).Ranked ∧ (ed.drop gwSocket).Zeroed := by
  rw [EndDeviceInfo.drop]
  split
  case isTrue => exact ⟨⟨fun h => h, fun h => absurd rfl h⟩, hz.2, fun _ => rfl⟩
  case isFalse =>
    split
    case isTrue => exact ⟨⟨fun h => h, fun h => absurd rfl h⟩, hz.1, fun _ => rfl⟩
    case isFalse => exact ⟨h, hz⟩

/-- A new device has one gateway, and that in the first slot. -/
theorem ranked_newEndDevice (address : UInt32) (rx : Reception) :
    (newEndDevice address rx).Ranked ∧ (newEndDevice address rx).Zeroed :=
  ⟨⟨id, fun h => absurd rfl h⟩, fun h => absurd h rx.gwSocket_ne, fun _ => rfl⟩

/-! ### Any call -/

/-- The route is there as soon as the devices are ranked. -/
theorem Devices.ranked_iff : s.Ranked ↔ ∀ ed ∈ s.endDevices, ed.Ranked := by
  refine ⟨fun h => h.devices, fun h => ⟨h, fun address ed hed hroute => ?_⟩⟩
  rw [findGWSocket, hed] at hroute
  refine ⟨hroute, ?_⟩
  by_contra h1
  exact ((h ed (Keyed.mem_of_lookup hed)).primary h1).1 hroute

/-- A device that is there already is rewritten. -/
theorem Devices.ranked_update (h : s.Ranked) (hz : ∀ ed ∈ s.endDevices, ed.Zeroed)
    {address : UInt32} (hed : findEndDevice s address = some ed) (hed' : ed'.Zeroed) :
    (Devices.Ranked { s with
      endDevices := Keyed.update EndDeviceInfo.address address (fun _ => ed') s.endDevices } ↔
        ed'.Ranked) ∧
      ∀ ed ∈ Keyed.update EndDeviceInfo.address address (fun _ => ed') s.endDevices, ed.Zeroed := by
  rw [Devices.ranked_iff]
  exact ⟨Keyed.forall_mem_update hed h.devices, (Keyed.forall_mem_update hed hz).mpr hed'⟩

/-- A gateway that connects changes no device. -/
theorem endDevices_addGateWay (s : Devices) (clntsocket : ℤ) :
    (addGateWay s clntsocket).endDevices = s.endDevices := by
  rw [addGateWay]
  split <;> rfl

theorem Devices.Ranked.connect (h : s.Ranked) (hz : ∀ ed ∈ s.endDevices, ed.Zeroed)
    (clntsocket : ℤ) :
    (addGateWay s clntsocket).Ranked ∧ ∀ ed ∈ (addGateWay s clntsocket).endDevices, ed.Zeroed := by
  rw [Devices.ranked_iff, endDevices_addGateWay]
  exact ⟨h.devices, hz⟩

/-- One that goes is taken out of the slots, and the better one of what is left comes first. -/
theorem Devices.Ranked.disconnect (h : s.Ranked) (hz : ∀ ed ∈ s.endDevices, ed.Zeroed)
    (socket : ℤ) :
    (removeGateWay s socket).Ranked ∧ ∀ ed ∈ (removeGateWay s socket).endDevices, ed.Zeroed := by
  rw [removeGateWay]
  split
  case h_1 => exact ⟨h, hz⟩
  case h_2 =>
    have hdrop : ∀ ed ∈ s.endDevices.map fun edInfo => edInfo.drop socket,
        ed.Ranked ∧ ed.Zeroed := by
      rw [List.forall_mem_map]
      exact fun ed hed => (h.devices ed hed).drop (hz ed hed) socket
    exact ⟨Devices.ranked_iff.mpr fun ed hed => (hdrop ed hed).1, fun ed hed => (hdrop ed hed).2⟩

/-- A device that is new has the gateway heard alone, one that joins again may get a second one. -/
theorem Devices.Ranked.join (h : s.Ranked) (hz : ∀ ed ∈ s.endDevices, ed.Zeroed) (address : UInt32)
    (rx : Reception) (devNonce : Vector UInt8 2) (deui : Vector UInt8 8) :
    ((addEndDeviceInfo s address rx devNonce deui).Ranked ↔
        (DeviceOp.join address rx devNonce deui).KeepsRank s) ∧
      ∀ ed ∈ (addEndDeviceInfo s address rx devNonce deui).endDevices, ed.Zeroed := by
  rw [addEndDeviceInfo, DeviceOp.KeepsRank]
  split
  case h_1 hnone =>
    obtain ⟨hrank, hzero⟩ := ranked_newEndDevice address rx
    rw [Devices.ranked_iff, hnone]
    refine ⟨iff_of_true (fun ed hed => ?_) (by simp), fun ed hed => ?_⟩
    · rcases (List.mem_orderedInsert _).mp hed with rfl | hed
      · exact ⟨hrank.distinct, hrank.primary⟩
      · exact h.devices ed hed
    · rcases (List.mem_orderedInsert _).mp hed with rfl | hed
      · exact hzero
      · exact hz ed hed
  case h_2 ed hed =>
    have hmem := Keyed.mem_of_lookup hed
    obtain ⟨hiff, hzero⟩ := (h.devices ed hmem).rejoin (hz ed hmem) rx
    obtain ⟨hranked, hzeroed⟩ := Devices.ranked_update h hz hed hzero
    refine ⟨?_, hzeroed⟩
    rw [hranked, hiff, hed]
    simp

/-- A device that is heard is ranked again. -/
theorem Devices.Ranked.data (h : s.Ranked) (hz : ∀ ed ∈ s.endDevices, ed.Zeroed) (address : UInt32)
    (rx : Reception) (pktSize : UInt8) (seqNum : UInt32) :
    ((rxEndDeviceInfoUpdate s address rx pktSize seqNum).Ranked ↔
        (DeviceOp.data address rx pktSize seqNum).KeepsRank s) ∧
      ∀ ed ∈ (rxEndDeviceInfoUpdate s address rx pktSize seqNum).endDevices, ed.Zeroed := by
  rw [rxEndDeviceInfoUpdate, DeviceOp.KeepsRank]
  split
  case h_1 hnone =>
    obtain ⟨hrank, hzero⟩ := ranked_newEndDevice address rx
    rw [Devices.ranked_iff, hnone]
    refine ⟨iff_of_true (List.forall_mem_cons.mpr ⟨?_, h.devices⟩) (by simp),
      List.forall_mem_cons.mpr ⟨hzero, hz⟩⟩
    exact ⟨hrank.distinct, hrank.primary⟩
  case h_2 ed hed =>
    have hmem := Keyed.mem_of_lookup hed
    have hrank := h.devices ed hmem
    obtain ⟨hiff, hzero⟩ := @EndDeviceInfo.Ranked.heard
      (EndDeviceInfo.setRadio
        { ed with
          totalRxNum := ed.totalRxNum + 1
          totalRxSize := ed.totalRxSize + pktSize.toUInt32
          seqNum := seqNum } rx)
      ⟨hrank.distinct, hrank.primary⟩ (hz ed hmem) rx
    obtain ⟨hranked, hzeroed⟩ := Devices.ranked_update h hz hed hzero
    refine ⟨?_, hzeroed⟩
    rw [hranked, hiff, hed]
    simp [EndDeviceInfo.Regained, EndDeviceInfo.setRadio]

/-- **One call keeps every device ranked exactly if it keeps the rank of the device it
is about.** -/
theorem DeviceOp.step_spec (h : s.Ranked) (hz : ∀ ed ∈ s.endDevices, ed.Zeroed) (op : DeviceOp) :
    ∃ t, op.step s = some t ∧ (t.Ranked ↔ op.KeepsRank s) ∧ ∀ ed ∈ t.endDevices, ed.Zeroed := by
  cases op with
  | connect clntsocket =>
    obtain ⟨hranked, hzeroed⟩ := h.connect hz clntsocket
    exact ⟨_, rfl, iff_of_true hranked trivial, hzeroed⟩
  | disconnect socket =>
    obtain ⟨hranked, hzeroed⟩ := h.disconnect hz socket
    exact ⟨_, rfl, iff_of_true hranked trivial, hzeroed⟩
  | join address rx devNonce deui => exact ⟨_, rfl, h.join hz address rx devNonce deui⟩
  | data address rx pktSize seqNum => exact ⟨_, rfl, h.data hz address rx pktSize seqNum⟩

/-! ### Any run -/

/-- **The primary gateway is the better one, all along a run, exactly if each call keeps it so**:
no device without a gateway is heard again with a level of 0 or below, and no join refreshes a slot
with a level that belongs in the other. -/
theorem ranked_run_iff (ops : List DeviceOp) :
    Runs.Always DeviceOp.step Devices.Ranked initDevices ops ↔
      Runs.EachStep DeviceOp.step DeviceOp.KeepsRank initDevices ops := by
  refine Runs.always_iff_eachStep (I := fun s => ∀ ed ∈ s.endDevices, ed.Zeroed)
    (fun s op hz h => ?_) (by simp [initDevices])
    (Devices.ranked_iff.mpr (by simp [initDevices])) ops
  obtain ⟨t, ht, hiff, hzeroed⟩ := DeviceOp.step_spec h hz op
  exact ⟨t, ht, hiff, fun _ => hzeroed⟩

/-- The gateway of device 7 disconnects, and another comes back with a level of -60 dBm. -/
theorem not_ranked_run_reconnect : ¬ Runs.Always DeviceOp.step Devices.Ranked initDevices
    [.connect 3, .data 7 ⟨3, -50, 5, 1, 7, 922100, 0, 10, by decide⟩ 12 1, .disconnect 3,
      .connect 4, .data 7 ⟨4, -60, 5, 1, 7, 922100, 0, 20, by decide⟩ 12 2] := by
  refine Runs.not_always_of_last
    (fun s => ∀ ed ∈ s.endDevices, ed.gw1.socket ≠ -1 → ed.gw0.socket ≠ -1)
    (fun s h ed hed h1 => ((h.devices ed hed).primary h1).1) ?_
  decide +kernel

end LoRaGwSv
