import LoRaGwSv.Server.Frames
import LoRaGwSv.Server.ScheduleRuns

/-!
# Server/Cm — a command message read back

A node reads a command message with no more than the message's own counts.  In a consistent state
the header counts what `schedule` and `smNodeSetNboSchDist` have counted in `nboDistReq`, each
record counts what `dmAddChildToNode` has counted in `nboChildren`, and the walks that write the
records and the children find just as many (`parseCm_cmBytes`).  While every assigned interval lies
in the frame its numbers fit their bytes, so they read back as they are (`cm_reads_back`).
-/

namespace LoRaGwSv

open Wire

/-- Every assigned interval lies in `1, …, 2^mac_frame_factor`. -/
def Mac.WithinFrame (p : MacParams) (s : Mac) : Prop :=
  ∀ b ∈ bookings s.SCHEDULES, 1 ≤ b.startLSI.toNat ∧
    b.startLSI.toNat + b.slotDemand.toNat - 1 ≤ 2 ^ p.macFrameFactor

instance (p : MacParams) (s : Mac) : Decidable (s.WithinFrame p) :=
  inferInstanceAs (Decidable (∀ b ∈ bookings s.SCHEDULES, _))

/-- What a record tells, when its group starts it at `startLSI`. -/
def usiRecord (NODES : MngtNodeList) (startLSI : SchNode → ℕ) (x : ℕ × SchNode) : UsiRecord where
  groupId := x.1
  nboChild := (NODES.childrenOf x.2.addr).length
  startLSI := startLSI x.2
  address := x.2.addr.toNat
  cls := x.2.cls.toNat
  children := (NODES.childrenOf x.2.addr).map fun c => (c.addr.toNat, c.cls.toNat)

variable {p : MacParams} {s : Mac}

/-! ## Reading a record

A record has the number of its children in its first byte, so it tells how long it is. -/

/-- Addresses and classes of children fit their fields. -/
theorem childrenOf_lt (h : s.NODES.Sound) (addr : UInt16) :
    ∀ c ∈ s.NODES.childrenOf addr, c.addr.toNat < 8192 ∧ c.cls.toNat < 8 := by
  intro c hc
  cases he : s.NODES.registry addr with
  | none =>
    rw [MngtNodeList.childrenOf, dmNodeGetChildList_eq, he] at hc
    exact absurd hc List.not_mem_nil
  | some e =>
    rw [childrenOf_eq he] at hc
    exact (h.registry.wellFormed _ _ he).child_lt c
      (Vector.mem_toList_iff.mp (List.mem_of_mem_filter hc))

/-- **A record reads back**, its start in eight bits. -/
theorem parseUsi_usiBytes (h : s.Consistent p) {x : ℕ × SchNode} (hx : x ∈ s.selected)
    (rest : List UInt8) :
    parseUsi (usiBytes s.NODES x ++ rest)
      = some (usiRecord s.NODES (fun n => n.startLSI.toUInt8.toNat) x, rest) := by
  obtain ⟨list, hget, hmem, -⟩ := mem_selected hx
  have hgroups := h.groups
  have hch := p.nboChannels_bounds
  have hlt := (List.getElem?_eq_some_iff.mp hget).1
  have hwf := (h.lists list (List.mem_of_getElem? hget)).wellFormed x.2 hmem
  have hle := length_childrenOf_le s.NODES x.2.addr
  have hctrl : (UInt8.ofNat (pack [(x.1, 3), ((s.NODES.childrenOf x.2.addr).length, 5)])).toNat
      = pack [(x.1, 3), ((s.NODES.childrenOf x.2.addr).length, 5)] := toNat_ofNat_pack rfl
  have hgroup := field_pack_head x.1 3 [((s.NODES.childrenOf x.2.addr).length, 5)] (by omega)
  have hnbo : field (pack [(x.1, 3), ((s.NODES.childrenOf x.2.addr).length, 5)]) 3 5
      = (s.NODES.childrenOf x.2.addr).length :=
    (field_pack_tail _ 3 0 5 _).trans (field_pack_head _ 5 _ (by omega))
  have hchildren := many_flatMap (p := parseAddr)
    (fun c hc rest => by
      obtain ⟨haddr, hcls⟩ := childrenOf_lt h.sound x.2.addr c hc
      exact parseAddr_addrFormat haddr (by rwa [UInt8.toNat_toUInt16]) rest) rest
  rw [usiBytes, parseUsi]
  simp only [List.append_assoc, List.cons_append, List.nil_append, byte_cons, Option.bind_eq_bind,
    Option.bind_some, parseAddr_addrFormat hwf.addr_lt hwf.cls_lt, hctrl, hgroup, hnbo, hchildren,
    UInt8.toNat_toUInt16]
  rfl

/-! ## Reading the message

The counts in the message are those of what has been written. -/

/-- **A command message reads back**, its numbers in eight bits. -/
theorem parseCm_cmBytes (h : s.Consistent p) (seq : UInt16) :
    parseAll parseCm (cmBytes p s seq) = some {
      seqNumber := seq
      lastLSI := s.SCHEDULES.map fun list => (smGetLastAsgLsi list).toUInt8.toNat
      nboNodesInUsi := s.selected.length
      usi := s.selected.map (usiRecord s.NODES fun n => n.startLSI.toUInt8.toNat) } := by
  have hle := usiCount_le s
  have hlast : ∀ rest, many byte p.macNboChannels
      ((s.SCHEDULES.map fun list => (smGetLastAsgLsi list).toUInt8) ++ rest)
      = some (s.SCHEDULES.map fun list => (smGetLastAsgLsi list).toUInt8, rest) := fun rest => by
    rw [← h.groups, ← List.length_map]
    exact many_byte _ rest
  have hctrl : (UInt8.ofNat (pack [(if 0 < s.usiCount then 1 else 0, 1), (s.usiCount, 4),
      (0, 3)])).toNat = pack [(if 0 < s.usiCount then 1 else 0, 1), (s.usiCount, 4), (0, 3)] :=
    toNat_ofNat_pack rfl
  have hflag := field_pack_head (if 0 < s.usiCount then 1 else 0) 1 [(s.usiCount, 4), (0, 3)]
    (by split <;> decide)
  have hcount : field (pack [(if 0 < s.usiCount then 1 else 0, 1), (s.usiCount, 4), (0, 3)]) 1 4
      = s.usiCount :=
    (field_pack_tail _ 1 0 4 _).trans (field_pack_head _ 4 _ (by omega))
  have husi := many_flatMap (fun x hx => parseUsi_usiBytes h hx) []
  rw [length_selected, List.append_nil] at husi
  rw [parseAll, cmBytes, parseCm, length_selected]
  simp only [List.append_assoc, parseHeader_header, Option.bind_eq_bind, Option.bind_some,
    readLe16_le16, hlast, List.singleton_append, byte_cons, hctrl, hflag, hcount]
  by_cases hpos : 0 < s.usiCount
  · simp only [if_pos hpos, if_true, husi, Option.bind_some, List.map_map]
    rfl
  · have hnil : s.selected = [] := List.length_eq_zero_iff.mp (by rw [length_selected]; omega)
    simp only [if_neg hpos, hnil, List.flatMap_nil, List.map_nil, List.map_map]
    rfl

/-! ## Inside the frame nothing is truncated

The start of an entry is sent in eight bits, and the frame has no more slots than eight bits can
name. -/

/-- A start within the frame is told by eight bits. -/
theorem Mac.WithinFrame.startLSI_eq (h : s.WithinFrame p) {b : SchNode}
    (hb : b ∈ bookings s.SCHEDULES) : b.startLSI.toUInt8.toNat = b.startLSI.toNat := by
  have hin := h b hb
  have hT := p.frame_le
  rw [UInt16.toNat_toUInt8]
  omega

theorem Mac.WithinFrame.lastLSI_eq (h : s.WithinFrame p) {list : SchList}
    (hlist : list ∈ s.SCHEDULES) :
    (smGetLastAsgLsi list).toUInt8.toNat = (smGetLastAsgLsi list).toNat := by
  rw [smGetLastAsgLsi]
  cases hlast : list.nodes.getLast? with
  | none => rfl
  | some n =>
    have hin := h n (mem_bookings.mpr ⟨list, hlist, List.mem_of_getLast? hlast⟩)
    have hT := p.frame_le
    have hlsi : n.lastLsi.toNat = n.slot.stop - 1 := SchNode.toNat_lastLsi hin.1 (by
      simp only [SlotLine.Slot.stop, SchNode.slot]
      omega)
    simp only [SlotLine.Slot.stop, SchNode.slot] at hlsi
    change n.lastLsi.toUInt8.toNat = n.lastLsi.toNat
    rw [UInt16.toNat_toUInt8]
    omega

/-! ## How long the message is

The size has eight bits as well, and the longest message fits them. -/

/-- **How long a command message is**: its fixed part, a byte for each channel, and the records. -/
theorem length_cmBytes (h : s.Consistent p) (seq : UInt16) :
    (cmBytes p s seq).length = 10 + p.macNboChannels +
      (s.selected.map fun x => 4 + 2 * (s.NODES.childrenOf x.2.addr).length).sum := by
  have hlen : (s.selected.flatMap (usiBytes s.NODES)).length
      = (s.selected.map fun x => 4 + 2 * (s.NODES.childrenOf x.2.addr).length).sum := by
    rw [List.length_flatMap]
    exact congrArg List.sum (List.map_congr_left fun x _ => length_usiBytes s.NODES x)
  rw [cmBytes, List.length_append, hlen]
  simp only [List.length_append, length_header, length_le16, List.length_map, h.groups,
    List.length_singleton]
  omega

/-- **A command message can be decoded back**, in every state a run reaches in which the assigned
intervals lie in the frame: the parser finds the sequence number, the last LSI of each group, and
the entries selected for distribution with their children, as many as are announced.  Its length is
the sum of its parts, too short for the cursor to wrap. -/
theorem cm_reads_back (p : MacParams) (ops : List FrameOp) {s : Mac}
    (hrun : Runs.run (FrameOp.step p) (twohopLoRaMacInit p) ops = some s)
    (hin : s.WithinFrame p) (dlMsg : MsgInfo) (seq : UInt16) (addInfo : UInt8) :
    ∃ msg s', prepareDownlinkMsgPayload p s dlMsg .dlCm seq addInfo = some (msg, addInfo, s') ∧
      parseAll parseCm msg.bytes = some {
        seqNumber := seq
        lastLSI := s.SCHEDULES.map fun list => (smGetLastAsgLsi list).toNat
        nboNodesInUsi := s.selected.length
        usi := s.selected.map (usiRecord s.NODES fun n => n.startLSI.toNat) } ∧
      s.SCHEDULES.length = p.macNboChannels ∧
      msg.size.toNat = 10 + p.macNboChannels +
        (s.selected.map fun x => 4 + 2 * (s.NODES.childrenOf x.2.addr).length).sum ∧
      10 + p.macNboChannels +
        (s.selected.map fun x => 4 + 2 * (s.NODES.childrenOf x.2.addr).length).sum < 256 := by
  have h := (inOrder_of_run hrun).consistent
  obtain ⟨w, hmsg, hw⟩ := cm_spec h dlMsg seq addInfo
  have hlast : (s.SCHEDULES.map fun list => (smGetLastAsgLsi list).toUInt8.toNat)
      = s.SCHEDULES.map fun list => (smGetLastAsgLsi list).toNat :=
    List.map_congr_left fun list hlist => hin.lastLSI_eq hlist
  have husi : s.selected.map (usiRecord s.NODES fun n => n.startLSI.toUInt8.toNat)
      = s.selected.map (usiRecord s.NODES fun n => n.startLSI.toNat) :=
    List.map_congr_left fun x hx => by
      obtain ⟨list, hget, hmem, -⟩ := mem_selected hx
      rw [usiRecord, usiRecord, hin.startLSI_eq
        (mem_bookings.mpr ⟨list, List.mem_of_getElem? hget, hmem⟩)]
  refine ⟨finishMsg w, _, hmsg, ?_, h.groups, ?_, ?_⟩
  · rw [bytes_finishMsg hw, parseCm_cmBytes h, hlast, husi]
  · rw [size_finishMsg hw, length_cmBytes h]
  · rw [← length_cmBytes h seq, ← hw.len_eq]
    exact w.len.toNat_lt

/-- A relay and its child in the default frame, scheduled for data collection. -/
theorem cm_reads_back_relay :
    ∃ s, Runs.run (FrameOp.step macDefaults) (twohopLoRaMacInit macDefaults)
        [.mac (.register (.itself (.ofBits 1 2))), .mac (.register (.listed (.ofBits 2 1) 1)),
          .mac (.schedule .dataColl)] = some s ∧
      ∃ msg s', prepareDownlinkMsgPayload macDefaults s emptyMsg .dlCm 7 0 = some (msg, 0, s') ∧
        parseAll parseCm msg.bytes = some {
          seqNumber := 7
          lastLSI := s.SCHEDULES.map fun list => (smGetLastAsgLsi list).toNat
          nboNodesInUsi := s.selected.length
          usi := s.selected.map (usiRecord s.NODES fun n => n.startLSI.toNat) } ∧
        s.SCHEDULES.length = 1 ∧
        msg.size.toNat = 10 + 1 +
          (s.selected.map fun x => 4 + 2 * (s.NODES.childrenOf x.2.addr).length).sum ∧
        10 + 1 +
          (s.selected.map fun x => 4 + 2 * (s.NODES.childrenOf x.2.addr).length).sum < 256 := by
  obtain ⟨s, hs, hin⟩ := (Option.any_eq_true (fun s : Mac => decide (s.WithinFrame macDefaults))
    (Runs.run (FrameOp.step macDefaults) (twohopLoRaMacInit macDefaults)
      [.mac (.register (.itself (.ofBits 1 2))), .mac (.register (.listed (.ofBits 2 1) 1)),
        .mac (.schedule .dataColl)])).mp (by decide +kernel)
  exact ⟨s, hs, cm_reads_back macDefaults _ hs (of_decide_eq_true hin) emptyMsg 7 0⟩

end LoRaGwSv
