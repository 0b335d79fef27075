import LoRaGwSv.Server.LoraMac

/-!
# Server/Routes — where the downlinks go (`device_management.c`, `lora_mac.c`)

The slots of a device name sockets, and a socket is only good as long as its gateway is connected.
`RemoveGateWay` takes the gateway out of the slots of every device; what it relies on is that no
device has one gateway in both.  **So every slot is empty or holds a connected gateway, all along a
run, exactly if each gateway that is taken into a slot is connected then** (`routed_run_iff`), and
`SendFrame` never writes to a socket that has been closed (`sendFrame_connected`).
-/

namespace LoRaGwSv

variable {s t : Devices} {ed ed' : EndDeviceInfo} {rx : Reception} {live : ℤ → Prop}

/-- The gateway with this socket is connected. -/
def Devices.Connected (s : Devices) (socket : ℤ) : Prop := ∃ gw, findGateWay s socket = some gw

/-- Both slots are empty or hold a live socket. -/
def EndDeviceInfo.RoutedBy (ed : EndDeviceInfo) (live : ℤ → Prop) : Prop :=
  (ed.gw0.socket = -1 ∨ live ed.gw0.socket) ∧ (ed.gw1.socket = -1 ∨ live ed.gw1.socket)

/-- Every slot is empty or holds a connected gateway. -/
def Devices.Routed (s : Devices) : Prop := ∀ ed ∈ s.endDevices, ed.RoutedBy s.Connected

/-- No gateway is in both slots. -/
def EndDeviceInfo.Apart (ed : EndDeviceInfo) : Prop :=
  ed.gw0.socket = ed.gw1.socket → ed.gw0.socket = -1

/-- The gateway heard is in neither slot, and the alternative is free or `worse`. -/
def EndDeviceInfo.Takes (ed : EndDeviceInfo) (rx : Reception) (worse : Prop) : Prop :=
  ed.gw0.socket ≠ rx.gwSocket ∧ ed.gw1.socket ≠ rx.gwSocket ∧ (ed.gw1.socket = -1 ∨ worse)

/-- A gateway that is taken into a slot is connected. -/
def DeviceOp.FromConnected (s : Devices) : DeviceOp → Prop
  | .connect _ => True
  | .disconnect _ => True
  | .join address rx _ _ =>
    (∀ ed, findEndDevice s address = some ed → ed.Takes rx False) → s.Connected rx.gwSocket
  | .data address rx _ _ =>
    (∀ ed, findEndDevice s address = some ed → ed.Takes rx (ed.gw1.rssi < rx.rssi)) →
      s.Connected rx.gwSocket

/-! ### One device -/

/-- The order of the slots does not matter. -/
theorem EndDeviceInfo.routedBy_switchGW : ed.switchGW.RoutedBy live ↔ ed.RoutedBy live := by
  rw [EndDeviceInfo.switchGW]
  split
  case isTrue => exact and_comm
  case isFalse => exact Iff.rfl

/-- Slots that change places still have no gateway in common. -/
theorem EndDeviceInfo.Apart.switchGW (h : ed.Apart) : ed.switchGW.Apart := by
  rw [EndDeviceInfo.switchGW]
  split
  case isTrue => exact fun heq => heq.trans (h heq.symm)
  case isFalse => exact h

theorem EndDeviceInfo.routedBy_rankGW : ed.rankGW.RoutedBy live ↔ ed.RoutedBy live := by
  rw [EndDeviceInfo.rankGW]
  split
  case isTrue => exact Iff.rfl
  case isFalse => exact routedBy_switchGW

/-- The better one first, they still have no gateway in common. -/
theorem EndDeviceInfo.Apart.rankGW (h : ed.Apart) : ed.rankGW.Apart := by
  rw [EndDeviceInfo.rankGW]
  split
  case isTrue => exact h
  case isFalse => exact h.switchGW

/-- The gateway heard is given the alternative slot. -/
theorem EndDeviceInfo.routedBy_give (h : ed.RoutedBy live) :
    EndDeviceInfo.RoutedBy { ed with gw1 := ed.gw1.give rx } live ↔ live rx.gwSocket :=
  ⟨fun hr => hr.2.resolve_left rx.gwSocket_ne, fun hl => ⟨h.1, Or.inr hl⟩⟩

/-- A gateway that is not in the first slot may go into the second. -/
theorem EndDeviceInfo.apart_give (h : ed.gw0.socket ≠ rx.gwSocket) :
    EndDeviceInfo.Apart { ed with gw1 := ed.gw1.give rx } := fun heq => absurd heq h

/-- A data frame keeps a device routed exactly if the gateway that it takes in is live. -/
theorem EndDeviceInfo.RoutedBy.heard (h : ed.RoutedBy live) (ha : ed.Apart) (rx : Reception) :
    ((ed.heard rx).RoutedBy live ↔ (ed.Takes rx (ed.gw1.rssi < rx.rssi) → live rx.gwSocket)) ∧
      (ed.heard rx).Apart := by
  have hgive := @EndDeviceInfo.routedBy_give ed rx live h
  rw [EndDeviceInfo.heard]
  split
  case isTrue h0 =>
    rw [EndDeviceInfo.routedBy_rankGW]
    exact ⟨iff_of_true h fun ht => absurd h0 ht.1, EndDeviceInfo.Apart.rankGW ha⟩
  case isFalse h0 =>
    split
    case isTrue h1 =>
      rw [EndDeviceInfo.routedBy_rankGW]
      exact ⟨iff_of_true h fun ht => absurd h1 ht.2.1, EndDeviceInfo.Apart.rankGW ha⟩
    case isFalse h1 =>
      split
      case isTrue hfree =>
        rw [EndDeviceInfo.routedBy_rankGW, hgive]
        exact ⟨⟨fun hl _ => hl, fun hl => hl ⟨h0, h1, Or.inl hfree⟩⟩,
          (EndDeviceInfo.apart_give h0).rankGW⟩
      case isFalse hfull =>
        split
        case isTrue hworse =>
          rw [EndDeviceInfo.routedBy_rankGW, hgive]
          exact ⟨⟨fun hl _ => hl, fun hl => hl ⟨h0, h1, Or.inr hworse⟩⟩,
            (EndDeviceInfo.apart_give h0).rankGW⟩
        case isFalse hbetter =>
          exact ⟨iff_of_true h fun ht => absurd ht.2.2 (not_or_intro hfull hbetter), ha⟩

theorem EndDeviceInfo.RoutedBy.rejoin (h : ed.RoutedBy live) (ha : ed.Apart) (rx : Reception) :
    ((ed.rejoin rx).RoutedBy live ↔ (ed.Takes rx False → live rx.gwSocket)) ∧
      (ed.rejoin rx).Apart := by
  rw [EndDeviceInfo.rejoin]
  split
  case isTrue h0 => exact ⟨iff_of_true h fun ht => absurd h0 ht.1, ha⟩
  case isFalse h0 =>
    split
    case isTrue h1 => exact ⟨iff_of_true h fun ht => absurd h1 ht.2.1, ha⟩
    case isFalse h1 =>
      split
      case isTrue hfree =>
        have hgive : EndDeviceInfo.Apart { ed.setRadio rx with gw1 := ed.gw1.give rx } :=
          fun heq => absurd heq h0
        rw [forall_prop_of_true ⟨h0, h1, Or.inl hfree⟩, EndDeviceInfo.routedBy_switchGW,
          ← EndDeviceInfo.routedBy_give h]
        exact ⟨Iff.rfl, hgive.switchGW⟩
      case isFalse hfull =>
        exact ⟨iff_of_true h fun ht => absurd ht.2.2 (not_or_intro hfull id), ha⟩

/-- **A gateway that goes is taken out of both slots**, as it is not in both. -/
theorem EndDeviceInfo.RoutedBy.drop (h : ed.RoutedBy live) (ha : ed.Apart) (gwSocket : ℤ) :
    (ed.drop gwSocket).RoutedBy (fun socket => live socket ∧ socket ≠ gwSocket) ∧
      (ed.drop gwSocket).Apart := by
  rw [EndDeviceInfo.drop]
  split
  case isTrue h0 =>
    refine ⟨⟨?_, Or.inl rfl⟩, id⟩
    by_cases h1 : ed.gw1.socket = gwSocket
    · exact Or.inl (h1.trans (h0.symm.trans (ha (h0.trans h1.symm))))
    · exact h.2.imp_right fun hl => ⟨hl, h1⟩
  case isFalse h0 =>
    have hfirst : ed.gw0.socket = -1 ∨ live ed.gw0.socket ∧ ed.gw0.socket ≠ gwSocket :=
      h.1.imp_right fun hl => ⟨hl, h0⟩
    split
    case isTrue => exact ⟨⟨hfirst, Or.inl rfl⟩, id⟩
    case isFalse h1 => exact ⟨⟨hfirst, h.2.imp_right fun hl => ⟨hl, h1⟩⟩, ha⟩

theorem EndDeviceInfo.RoutedBy.mono {live' : ℤ → Prop} (h : ed.RoutedBy live)
    (hlive : ∀ socket, live socket → live' socket) : ed.RoutedBy live' :=
  ⟨h.1.imp_right (hlive _), h.2.imp_right (hlive _)⟩

/-! ### Any call -/

/-- A gateway is connected if it is in the list. -/
theorem Devices.connected_iff {socket : ℤ} :
    s.Connected socket ↔ socket ∈ s.gateWays.map GateWayInfo.socket := by
  constructor
  · rintro ⟨gw, hgw⟩
    exact List.mem_map.mpr ⟨gw, Keyed.mem_of_lookup hgw, Keyed.key_of_lookup hgw⟩
  · intro h
    obtain ⟨gw, hgw, rfl⟩ := List.mem_map.mp h
    exact Keyed.exists_lookup hgw

/-- One that is added is, and the others still are. -/
theorem Devices.connected_addGateWay {clntsocket socket : ℤ} :
    (addGateWay s clntsocket).Connected socket ↔ socket = clntsocket ∨ s.Connected socket := by
  rw [connected_iff, connected_iff, addGateWay]
  split
  case h_1 => exact List.mem_cons
  case h_2 gw hgw =>
    have hkeys := @Keyed.map_update _ _ _ GateWayInfo.socket clntsocket s.gateWays _
      GateWayInfo.socket (fun _ => newGateWay clntsocket) fun _ hkey => hkey.symm
    have hmem : clntsocket ∈ s.gateWays.map GateWayInfo.socket := connected_iff.mp ⟨gw, hgw⟩
    rw [hkeys]
    exact (or_iff_right_of_imp fun heq => heq ▸ hmem).symm

/-- When one is removed the others still are. -/
theorem Devices.Connected.removeGateWay {socket gone : ℤ} (h : s.Connected socket)
    (hne : socket ≠ gone) : (removeGateWay s gone).Connected socket := by
  obtain ⟨gw, hmem, rfl⟩ := List.mem_map.mp (connected_iff.mp h)
  rw [LoRaGwSv.removeGateWay]
  split
  case h_1 => exact h
  case h_2 =>
    refine connected_iff.mpr (List.mem_map_of_mem ?_)
    exact (List.mem_eraseP_of_neg (by simpa using hne)).mpr hmem

/-- A device that is there already is rewritten. -/
theorem Devices.routed_update (h : s.Routed) (ha : ∀ ed ∈ s.endDevices, ed.Apart)
    {address : UInt32} (hed : findEndDevice s address = some ed) (ha' : ed'.Apart) :
    (Devices.Routed { s with
      endDevices := Keyed.update EndDeviceInfo.address address (fun _ => ed') s.endDevices } ↔
        ed'.RoutedBy s.Connected) ∧
      ∀ ed ∈ Keyed.update EndDeviceInfo.address address (fun _ => ed') s.endDevices, ed.Apart :=
  ⟨Keyed.forall_mem_update hed h, (Keyed.forall_mem_update hed ha).mpr ha'⟩

/-- A device that is new has the gateway heard in its first slot. -/
theorem Devices.routed_new (h : s.Routed) {eds : List EndDeviceInfo}
    (hmem : ∀ x, x ∈ eds ↔ x = ed ∨ x ∈ s.endDevices) (hgw0 : ed.gw0.socket = rx.gwSocket)
    (hgw1 : ed.gw1.socket = -1) :
    Devices.Routed { s with endDevices := eds } ↔ s.Connected rx.gwSocket := by
  have hrouted : Devices.Routed { s with endDevices := eds } ↔
      ∀ x ∈ eds, x.RoutedBy s.Connected := Iff.rfl
  rw [hrouted, ← hgw0]
  constructor
  · intro hr
    exact (hr ed ((hmem ed).mpr (Or.inl rfl))).1.resolve_left (hgw0 ▸ rx.gwSocket_ne)
  · intro hlive x hx
    rcases (hmem x).mp hx with rfl | hx
    · exact ⟨Or.inr hlive, Or.inl hgw1⟩
    · exact h x hx

/-- A gateway more leaves the devices as they are. -/
theorem Devices.Routed.connect (h : s.Routed) (ha : ∀ ed ∈ s.endDevices, ed.Apart)
    (clntsocket : ℤ) :
    (addGateWay s clntsocket).Routed ∧ ∀ ed ∈ (addGateWay s clntsocket).endDevices, ed.Apart := by
  have hdevices := endDevices_addGateWay s clntsocket
  refine ⟨fun ed hed => ?_, hdevices ▸ ha⟩
  rw [hdevices] at hed
  exact (h ed hed).mono fun socket hs => Devices.connected_addGateWay.mpr (Or.inr hs)

/-- One that goes is in no slot any more, and the others are still connected. -/
theorem Devices.Routed.disconnect (h : s.Routed) (ha : ∀ ed ∈ s.endDevices, ed.Apart)
    (socket : ℤ) :
    (removeGateWay s socket).Routed ∧ ∀ ed ∈ (removeGateWay s socket).endDevices, ed.Apart := by
  have hkept := fun k (hk : s.Connected k ∧ k ≠ socket) => hk.1.removeGateWay hk.2
  generalize hdef : removeGateWay s socket = t at *
  rw [removeGateWay] at hdef
  split at hdef
  case h_1 =>
    subst hdef
    exact ⟨h, ha⟩
  case h_2 =>
    have hdrop : ∀ ed ∈ t.endDevices, ed.RoutedBy t.Connected ∧ ed.Apart := by
      rw [← hdef]
      refine List.forall_mem_map.mpr fun ed hed => ?_
      obtain ⟨hrouted, hapart⟩ := (h ed hed).drop (ha ed hed) socket
      rw [hdef]
      exact ⟨hrouted.mono hkept, hapart⟩
    exact ⟨fun ed hed => (hdrop ed hed).1, fun ed hed => (hdrop ed hed).2⟩

/-- A device that joins has the gateway in its first slot if it is new, and else may take it into
its second. -/
theorem Devices.Routed.join (h : s.Routed) (ha : ∀ ed ∈ s.endDevices, ed.Apart) (address : UInt32)
    (rx : Reception) (devNonce : Vector UInt8 2) (deui : Vector UInt8 8) :
    ((addEndDeviceInfo s address rx devNonce deui).Routed ↔
        (DeviceOp.join address rx devNonce deui).FromConnected s) ∧
      ∀ ed ∈ (addEndDeviceInfo s address rx devNonce deui).endDevices, ed.Apart := by
  rw [addEndDeviceInfo, DeviceOp.FromConnected]
  split
  case h_1 hnone =>
    refine ⟨(Devices.routed_new h (fun x => List.mem_orderedInsert _) rfl rfl).trans
      ⟨fun hc _ => hc, fun hc => hc (by simp [hnone])⟩, fun ed hed => ?_⟩
    rcases (List.mem_orderedInsert _).mp hed with rfl | hed
    · exact fun heq => absurd heq rx.gwSocket_ne
    · exact ha ed hed
  case h_2 ed hed =>
    have hmem := Keyed.mem_of_lookup hed
    obtain ⟨hiff, hapart⟩ := (h ed hmem).rejoin (ha ed hmem) rx
    obtain ⟨hrouted, haparts⟩ := Devices.routed_update h ha hed hapart
    refine ⟨?_, haparts⟩
    rw [hrouted, hiff, hed]
    simp

/-- A device that is heard does the same, and may give a slot over to a better gateway. -/
theorem Devices.Routed.data (h : s.Routed) (ha : ∀ ed ∈ s.endDevices, ed.Apart) (address : UInt32)
    (rx : Reception) (pktSize : UInt8) (seqNum : UInt32) :
    ((rxEndDeviceInfoUpdate s address rx pktSize seqNum).Routed ↔
        (DeviceOp.data address rx pktSize seqNum).FromConnected s) ∧
      ∀ ed ∈ (rxEndDeviceInfoUpdate s address rx pktSize seqNum).endDevices, ed.Apart := by
  rw [rxEndDeviceInfoUpdate, DeviceOp.FromConnected]
  split
  case h_1 hnone =>
    exact ⟨(Devices.routed_new h (fun x => List.mem_cons) rfl rfl).trans
      ⟨fun hc _ => hc, fun hc => hc (by simp [hnone])⟩,
      List.forall_mem_cons.mpr ⟨fun heq => absurd heq rx.gwSocket_ne, ha⟩⟩
  case h_2 ed hed =>
    have hmem := Keyed.mem_of_lookup hed
    obtain ⟨hiff, hapart⟩ := @EndDeviceInfo.RoutedBy.heard
      (EndDeviceInfo.setRadio
        { ed with
          totalRxNum := ed.totalRxNum + 1
          totalRxSize := ed.totalRxSize + pktSize.toUInt32
          seqNum := seqNum } rx)
      s.Connected (h ed hmem) (ha ed hmem) rx
    obtain ⟨hrouted, haparts⟩ := Devices.routed_update h ha hed hapart
    refine ⟨?_, haparts⟩
    rw [hrouted, hiff, hed]
    simp [EndDeviceInfo.Takes, EndDeviceInfo.setRadio]

/-- **One call keeps the devices routed exactly if the gateway it takes in is connected.** -/
theorem DeviceOp.routed_step (h : s.Routed) (ha : ∀ ed ∈ s.endDevices, ed.Apart) (op : DeviceOp) :
    ∃ t, op.step s = some t ∧ (t.Routed ↔ op.FromConnected s) ∧
      ∀ ed ∈ t.endDevices, ed.Apart := by
  cases op with
  | connect clntsocket =>
    obtain ⟨hrouted, hapart⟩ := h.connect ha clntsocket
    exact ⟨_, rfl, iff_of_true hrouted trivial, hapart⟩
  | disconnect socket =>
    obtain ⟨hrouted, hapart⟩ := h.disconnect ha socket
    exact ⟨_, rfl, iff_of_true hrouted trivial, hapart⟩
  | join address rx devNonce deui => exact ⟨_, rfl, h.join ha address rx devNonce deui⟩
  | data address rx pktSize seqNum => exact ⟨_, rfl, h.data ha address rx pktSize seqNum⟩

/-! ### Any run -/

/-- A frame that is written goes to the first slot of its device. -/
theorem sendFrame_route {aes : BlockCipher} {m : LoRaMac} {c : SendCall} {sent : Sent}
    (hsent : sendFrame aes s m c = some sent) {socket : ℤ} {bytes : List UInt8}
    (hwritten : sent.written = some (socket, bytes)) :
    socket ≠ -1 ∧ findGWSocket s (c.fHeader m).address = socket := by
  simp only [sendFrame] at hsent
  split_ifs at hsent with hdir hfits hroute <;> obtain rfl := Option.some.inj hsent
  · cases hwritten
  · obtain ⟨rfl, -⟩ := Prod.mk.inj (Option.some.inj hwritten)
    exact ⟨hroute, rfl⟩
  · cases hwritten

/-- **`SendFrame` only ever writes to a connected gateway.** -/
theorem sendFrame_connected (ops : List DeviceOp)
    (h : Runs.EachStep DeviceOp.step DeviceOp.FromConnected initDevices ops) :
    Runs.Always DeviceOp.step
      (fun s => ∀ (aes : BlockCipher) (m : LoRaMac) (c : SendCall) (sent : Sent) (socket : ℤ)
        (bytes : List UInt8), sendFrame aes s m c = some sent →
          sent.written = some (socket, bytes) → s.Connected socket) initDevices ops := by
  have hrouted : Runs.Always DeviceOp.step
      (fun s => s.Routed ∧ ∀ ed ∈ s.endDevices, ed.Apart) initDevices ops := by
    refine Runs.always_of_eachStep (C := DeviceOp.FromConnected) (fun s op hI hC => ?_)
      ⟨by simp [Devices.Routed, initDevices], by simp [initDevices]⟩ ops h
    obtain ⟨t, ht, hiff, hapart⟩ := DeviceOp.routed_step hI.1 hI.2 op
    exact ⟨t, ht, hiff.mpr hC, hapart⟩
  refine hrouted.imp fun s hs aes m c sent socket bytes hsent hwritten => ?_
  obtain ⟨hne, hroute⟩ := sendFrame_route hsent hwritten
  rw [findGWSocket] at hroute
  split at hroute
  case h_1 => exact absurd hroute.symm hne
  case h_2 ed hed =>
    rw [← hroute] at hne ⊢
    exact (hs.1 ed (Keyed.mem_of_lookup hed)).1.resolve_left hne

/-- Gateway 3 leaves, and the frame goes to gateway 4, which is heard better. -/
theorem sendFrame_connected_three :
    let c : SendCall := ⟨clearStack, [0x48, 0x69], 2, 1, 0, loRaDnLink, 7, 0⟩
    ∃ s sent bytes, Runs.run DeviceOp.step initDevices [.connect 3, .connect 4,
        .data 7 ⟨3, -50, 5, 1, 7, 922100, 0, 10, by decide⟩ 12 1,
        .data 7 ⟨4, -40, 5, 1, 7, 922100, 0, 10, by decide⟩ 12 2, .disconnect 3] = some s ∧
      sendFrame plainCipher s loRaMacInit c = some sent ∧ sent.written = some (4, bytes) ∧
      s.Connected 4 := by
  intro c
  obtain ⟨s, hs, hconn⟩ := (sendFrame_connected [.connect 3, .connect 4,
    .data 7 ⟨3, -50, 5, 1, 7, 922100, 0, 10, by decide⟩ 12 1,
    .data 7 ⟨4, -40, 5, 1, 7, 922100, 0, 10, by decide⟩ 12 2, .disconnect 3]
    ((Runs.eachStep_cons rfl _).mpr ⟨trivial, (Runs.eachStep_cons rfl _).mpr ⟨trivial,
      (Runs.eachStep_cons rfl _).mpr ⟨fun _ => ⟨_, rfl⟩, (Runs.eachStep_cons rfl _).mpr
        ⟨fun _ => ⟨_, rfl⟩, (Runs.eachStep_cons rfl _).mpr ⟨trivial, Runs.eachStep_nil⟩⟩⟩⟩⟩)).last
  have hwritten : ((sendFrame plainCipher s loRaMacInit c).bind Sent.written).map Prod.fst
      = some 4 := by
    obtain rfl := Option.some.inj hs
    decide +kernel
  obtain ⟨⟨_, bytes⟩, hbind, rfl⟩ := Option.map_eq_some_iff.mp hwritten
  obtain ⟨sent, hsent, hbytes⟩ := Option.bind_eq_some_iff.mp hbind
  exact ⟨s, sent, bytes, hs, hsent, hbytes,
    hconn plainCipher loRaMacInit c sent 4 bytes hsent hbytes⟩

end LoRaGwSv
