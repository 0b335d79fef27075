import LoRaGwSv.Server.Frames
import LoRaGwSv.Server.Rebuilt

/-!
# Server/Announced — what the nodes learn of a new schedule

A scheduling message gives the LSI its first node starts at, and how many slots each node has; a
node adds up.  After a rebuild each group is tight, and each message lists a run of one group, so
the sums are the LSIs assigned (`announces_schedule`).
-/

namespace LoRaGwSv

open SlotLine Wire

/-- The message lists consecutive entries of a group, and adding up its slot demands gives where
each of them starts. -/
def SmMsg.Announces (sm : SmMsg) (list : SchList) : Prop :=
  ∃ batch, batch <:+: list.nodes ∧
    sm.nodes = (batch.map fun n => ((n.addr.toNat, n.cls.toNat), n.slotDemand.toNat)) ∧
    ∀ k n, batch[k]? = some n →
      sm.startLSI + ((sm.nodes.take k).map Prod.snd).sum = n.startLSI.toNat

/-- How many of the messages list the node at `addr`. -/
def announcements (sms : List SmMsg) (addr : UInt16) : ℕ :=
  sms.countP fun sm => addr.toNat ∈ sm.nodes.map fun n => n.1.1

variable {p : MacParams} {s : Mac} {S : List SchList} {list : SchList} {batch : List SchNode}
  {i T : ℕ} {NODES : MngtNodeList}

/-! ## One message

A message that lists a batch is read back by following its own counts. -/

/-- A node that is listed is read back with its class and its demand. -/
theorem SchNode.WellFormed.parseSmNode_smBytes {n : SchNode} (h : n.WellFormed)
    (rest : List UInt8) :
    parseSmNode (n.smBytes ++ rest)
      = some (((n.addr.toNat, n.cls.toNat), n.slotDemand.toNat), rest) := by
  have hdemand : n.slotDemand.toUInt8.toNat = n.slotDemand.toNat := by
    have := h.slotDemand_lt
    rw [UInt16.toNat_toUInt8]
    omega
  rw [parseSmNode, SchNode.smBytes, List.append_assoc]
  simp only [parseAddr_addrFormat h.addr_lt h.cls_lt, Option.bind_eq_bind, Option.bind_some,
    List.singleton_append, byte_cons, hdemand]
  rfl

/-- **A scheduling message reads back** as the batch it lists. -/
theorem parseSm_smBytes (p : MacParams) (NODES : MngtNodeList) (seq : UInt16) (addInfo : UInt8)
    (hi : i < 8) (hlen : batch.length < 32) (hwf : ∀ n ∈ batch, n.WellFormed) :
    ∃ sm, parseAll parseSm (smBytes p NODES seq addInfo i batch) = some sm ∧
      sm.sch2Sslot = addInfo.toNat ∧ sm.groupId = i ∧
      sm.startLSI = (firstLSI batch).toUInt8.toNat ∧
      sm.nodes = batch.map fun n => ((n.addr.toNat, n.cls.toNat), n.slotDemand.toNat) := by
  have hctrl : (UInt8.ofNat (pack [(i, 3), (batch.length, 5)])).toNat
      = pack [(i, 3), (batch.length, 5)] := toNat_ofNat_pack rfl
  have hgroup := field_pack_head i 3 [(batch.length, 5)] hi
  have hcount : field (pack [(i, 3), (batch.length, 5)]) 3 5 = batch.length :=
    (field_pack_tail _ 3 0 5 _).trans (field_pack_head _ 5 _ hlen)
  have hnodes := many_flatMap (fun n hn => (hwf n hn).parseSmNode_smBytes) []
  rw [List.append_nil] at hnodes
  rw [parseAll, smBytes, parseSm]
  simp only [List.append_assoc, parseHeader_header, Option.bind_eq_bind, Option.bind_some,
    List.cons_append, List.nil_append, byte_cons, hctrl, hgroup, hcount, hnodes]
  exact ⟨_, rfl, rfl, rfl, rfl, rfl⟩

/-! ## Adding up

A group that is tight has no hole, so the demands of all entries before one are the slots before it.
-/

/-- **In a tight group the demands before an entry add up to where it starts.** -/
theorem SchList.Tight.start_eq (h : list.Tight T) (hbatch : batch <:+: list.nodes) {k : ℕ}
    {n : SchNode} (hn : batch[k]? = some n) :
    (firstLSI batch).toNat + ((batch.take k).map fun n => n.slotDemand.toNat).sum
      = n.startLSI.toNat := by
  obtain ⟨pre, post, hnodes⟩ := hbatch
  have hslots : list.slots = pre.map SchNode.slot ++ (batch.map SchNode.slot ++
      post.map SchNode.slot) := by
    rw [slots, ← hnodes, List.map_append, List.map_append, List.append_assoc]
  have hgapless := h.gapless
  rw [hslots] at hgapless
  have hrest := hgapless.drop
  have hstart : ∀ k n, batch[k]? = some n → n.startLSI.toNat
      = 1 + load (pre.map SchNode.slot) + load ((batch.take k).map SchNode.slot) :=
    fun k n hn => by
      obtain ⟨hlt, rfl⟩ := List.getElem?_eq_some_iff.mp hn
      have hsplit : batch.map SchNode.slot = (batch.take k).map SchNode.slot ++
          batch[k].slot :: (batch.drop (k + 1)).map SchNode.slot := by
        rw [← List.map_cons, ← List.map_append, List.cons_getElem_drop_succ,
          List.take_append_drop]
      rw [hsplit, List.append_assoc, List.cons_append] at hrest
      exact hrest.start_eq
  have hload : load ((batch.take k).map SchNode.slot)
      = ((batch.take k).map fun n => n.slotDemand.toNat).sum := by
    rw [load, List.map_map]
    rfl
  obtain ⟨hlt, -⟩ := List.getElem?_eq_some_iff.mp hn
  obtain ⟨m, hm⟩ : ∃ m, batch[0]? = some m :=
    ⟨batch[0], List.getElem?_eq_getElem (Nat.zero_lt_of_lt hlt)⟩
  have hfirst : firstLSI batch = m.startLSI := by
    rw [firstLSI, List.head?_eq_getElem?, hm]
    rfl
  have hzero := hstart 0 m hm
  rw [List.take_zero, List.map_nil, load_nil, Nat.add_zero] at hzero
  rw [hfirst, hzero, hstart k n hn, hload]

/-- Where a batch of a tight group starts fits a byte. -/
theorem SchList.Tight.toNat_firstLSI (h : list.Tight (2 ^ p.macFrameFactor))
    (hbatch : batch <:+: list.nodes) : (firstLSI batch).toUInt8.toNat = (firstLSI batch).toNat := by
  cases batch with
  | nil => rfl
  | cons m batch =>
    have hm : m ∈ list.nodes := hbatch.subset List.mem_cons_self
    have hin := h.packedIn.packed.within m.slot (List.mem_map_of_mem hm)
    have hT := p.frame_le
    simp only [Slot.stop, SchNode.slot] at hin
    rw [firstLSI, List.head?_cons, Option.map_some, Option.getD_some, UInt16.toNat_toUInt8]
    omega

/-! ## All messages

The batches of the whole schedule list each entry once, as long as SCH1 has room for them. -/

/-- What a message tells of a group: which, from where on, and who. -/
abbrev SmMsg.content (sm : SmMsg) : ℕ × ℕ × List ((ℕ × ℕ) × ℕ) :=
  (sm.groupId, sm.startLSI, sm.nodes)

/-- What a message that lists a batch is to tell. -/
def batchContent (x : ℕ × List SchNode) : ℕ × ℕ × List ((ℕ × ℕ) × ℕ) :=
  (x.1, (firstLSI x.2).toUInt8.toNat,
    x.2.map fun n => ((n.addr.toNat, n.cls.toNat), n.slotDemand.toNat))

theorem exists_parsed {sent : List MsgInfo} {bs : List (ℕ × List SchNode)}
    (h : List.Forall₂ (MsgInfo.Lists p NODES) sent bs)
    (hbs : ∀ x ∈ bs, x.1 < 8 ∧ x.2.length < 32 ∧ ∀ n ∈ x.2, n.WellFormed) :
    ∃ sms : List SmMsg, sent.map (fun msg => parseAll parseSm msg.bytes) = sms.map some ∧
      sms.map SmMsg.content = bs.map batchContent := by
  induction h with
  | nil => exact ⟨[], rfl, rfl⟩
  | cons hmsg _ ih =>
    obtain ⟨⟨hi, hlen, hwf⟩, hbs⟩ := List.forall_mem_cons.mp hbs
    obtain ⟨seq, addInfo, hbytes⟩ := hmsg
    obtain ⟨sm, hparse, -, hgroup, hstart, hnodes⟩ :=
      parseSm_smBytes p NODES seq addInfo hi hlen hwf
    obtain ⟨sms, hsms, hcontent⟩ := ih hbs
    refine ⟨sm :: sms, ?_, ?_⟩
    · rw [List.map_cons, List.map_cons, hsms, hbytes, hparse]
    · rw [List.map_cons, List.map_cons, hcontent, batchContent, SmMsg.content, hgroup, hstart,
        hnodes]

/-- A node is announced once for each batch it is in. -/
theorem announcements_eq {sms : List SmMsg} {bs : List (ℕ × List SchNode)}
    (h : sms.map SmMsg.content = bs.map batchContent) (addr : UInt16) :
    announcements sms addr = bs.countP fun x => addr ∈ x.2.map SchNode.addr := by
  have hsms : announcements sms addr = (sms.map SmMsg.content).countP
      fun c => addr.toNat ∈ c.2.2.map fun n => n.1.1 := by
    rw [List.countP_map]
    rfl
  rw [hsms, h, List.countP_map]
  refine List.countP_congr fun x _ => ?_
  simp [batchContent, UInt16.toNat_inj]

/-- A batch is a piece of the list of its group, and not too long. -/
theorem mem_smBatches {x : ℕ × List SchNode} (hx : x ∈ smBatches S) :
    ∃ list, S[x.1]? = some list ∧ x.2 <:+: list.nodes ∧ x.2.length < 32 := by
  obtain ⟨q, hq, hrun, hlen⟩ := Batches.serveAll_infix hx
  rw [List.getElem?_map, Option.map_eq_some_iff] at hq
  obtain ⟨list, hlist, rfl⟩ := hq
  exact ⟨list, hlist, hrun, Nat.lt_succ_of_le hlen⟩

/-- A batch has room in a message, and its entries are well formed. -/
theorem smBatches_wellFormed {s : Mac} (h : s.Consistent p) :
    ∀ x ∈ smBatches s.SCHEDULES, x.1 < 8 ∧ x.2.length < 32 ∧ ∀ n ∈ x.2, n.WellFormed := by
  intro x hx
  obtain ⟨list, hlist, hrun, hlen⟩ := mem_smBatches hx
  have hlt := (List.getElem?_eq_some_iff.mp hlist).1
  have hgroups := h.groups
  have hch := p.nboChannels_bounds
  exact ⟨by omega, hlen, fun n hn =>
    (h.lists list (List.mem_of_getElem? hlist)).wellFormed n (hrun.subset hn)⟩

theorem nodup_smBatches (h : NoDoubleBooking S) :
    ((smBatches S).flatMap fun x => x.2.map SchNode.addr).Nodup := by
  have hfirst := Batches.serveAll_prefix twohopMaxNboNodesInSm.toNat twohopNboSlotsInSch1
    (S.map SchList.nodes)
  rw [← List.flatMap_def] at hfirst
  rw [← List.map_flatMap]
  exact h.sublist (hfirst.sublist.map SchNode.addr)

/-- Fifteen messages send everything that fits fifteen batches. -/
theorem smBatches_complete
    (h : (S.map fun list => (list.nodes.length + 30) / 31).sum ≤ twohopNboSlotsInSch1) :
    ((smBatches S).flatMap fun x => x.2.map SchNode.addr) = (bookings S).map SchNode.addr := by
  have hcount : Batches.batches twohopMaxNboNodesInSm.toNat (S.map SchList.nodes)
      = (S.map fun list => (list.nodes.length + 30) / 31).sum := by
    rw [Batches.batches, List.map_map]
    rfl
  rw [← List.map_flatMap, smBatches,
    Batches.serveAll_complete (by decide) (hcount.trans_le h), ← List.flatMap_def, bookings]

/-- **Schedule distribution announces the schedule that was computed.**  Each message lists
consecutive entries of one group so that its start and demands add up to the LSIs assigned; no node
is listed twice; and if 15 messages are enough for batches of 31, each scheduled node is listed. -/
theorem announces_schedule (p : MacParams) (s : Mac) (hsound : s.NODES.Sound)
    (hframed : s.Framed p)
    (hdemand : ∀ n ∈ s.NODES.nodes, n.genInfo.type = .onehop →
      1 ≤ n.genInfo.slotDmn.toNat ∧ n.genInfo.slotDmn.toNat ≤ 2 ^ p.macFrameFactor)
    (dlMsg : MsgInfo) :
    ∃ s₁ sent sch2Sslot s₂ sms, schedule .scheduleDist (resetSchedule s) = some s₁ ∧
      scheduleDistributionPhase p s dlMsg = some (sent, sch2Sslot, s₂) ∧
      sent.map (fun msg => parseAll parseSm msg.bytes) = sms.map some ∧
      (∀ sm ∈ sms, ∃ list, s₁.SCHEDULES[sm.groupId]? = some list ∧ sm.Announces list) ∧
      (∀ addr, announcements sms addr ≤ 1) ∧
      ((s₁.SCHEDULES.map fun list => (list.nodes.length + 30) / 31).sum ≤ 15 →
        ∀ b ∈ bookings s₁.SCHEDULES, announcements sms b.addr = 1) := by
  obtain ⟨s₁, sent, sch2Sslot, s₂, hs₁, hcons, hphase, -, -, hsent⟩ :=
    scheduleDistributionPhase_spec hsound hframed dlMsg
  obtain ⟨t, ht, htight⟩ := schedule_resetSchedule_tight hsound hframed hdemand .scheduleDist
  obtain rfl := Option.some.inj (hs₁.symm.trans ht)
  obtain ⟨sms, hsms, hcontent⟩ := exists_parsed hsent.lists (smBatches_wellFormed hcons)
  have hcount : ∀ addr, announcements sms addr
      = if addr ∈ (smBatches s₁.SCHEDULES).flatMap (fun x => x.2.map SchNode.addr) then 1
        else 0 := fun addr =>
    (announcements_eq hcontent addr).trans (Batches.countP_mem (nodup_smBatches hcons.once) addr)
  refine ⟨s₁, sent, sch2Sslot, s₂, sms, hs₁, hphase, hsms, fun sm hsm => ?_, fun addr => ?_,
    fun hroom b hb => ?_⟩
  · have hmem : sm.content ∈ (smBatches s₁.SCHEDULES).map batchContent :=
      hcontent ▸ List.mem_map_of_mem hsm
    obtain ⟨x, hx, hxsm⟩ := List.mem_map.mp hmem
    obtain ⟨hgroup, hstart, hnodes⟩ : x.1 = sm.groupId ∧ _ ∧ _ := by
      simpa only [batchContent, SmMsg.content, Prod.mk.injEq] using hxsm
    obtain ⟨list, hlist, hrun, -⟩ := mem_smBatches hx
    have hlistTight := htight.tight list (List.mem_of_getElem? hlist)
    refine ⟨list, hgroup ▸ hlist, x.2, hrun, hnodes.symm, fun k n hn => ?_⟩
    rw [← hlistTight.start_eq hrun hn, ← hstart, ← hnodes, ← List.map_take, List.map_map,
      hlistTight.toNat_firstLSI hrun]
    rfl
  · rw [hcount]
    split <;> decide
  · rw [hcount, smBatches_complete hroom, if_pos (List.mem_map_of_mem hb)]

/-- A relay with a child and a node of class 3 in the default frame. -/
theorem announces_schedule_two :
    ∃ s, Runs.run (FrameOp.step macDefaults) (twohopLoRaMacInit macDefaults)
        [.mac (.register (.itself (.ofBits 1 2))), .mac (.register (.listed (.ofBits 2 1) 1)),
          .mac (.register (.itself (.ofBits 3 3)))] = some s ∧
      ∃ s₁ sent sch2Sslot s₂ sms, schedule .scheduleDist (resetSchedule s) = some s₁ ∧
        scheduleDistributionPhase macDefaults s emptyMsg = some (sent, sch2Sslot, s₂) ∧
        sent.map (fun msg => parseAll parseSm msg.bytes) = sms.map some ∧
        (∀ sm ∈ sms, ∃ list, s₁.SCHEDULES[sm.groupId]? = some list ∧ sm.Announces list) ∧
        (∀ addr, announcements sms addr ≤ 1) ∧
        ((s₁.SCHEDULES.map fun list => (list.nodes.length + 30) / 31).sum ≤ 15 →
          ∀ b ∈ bookings s₁.SCHEDULES, announcements sms b.addr = 1) := by
  obtain ⟨s, hs, hdemand⟩ := (Option.any_eq_true (fun s : Mac => decide
      (∀ n ∈ s.NODES.nodes, n.genInfo.type = .onehop →
        1 ≤ n.genInfo.slotDmn.toNat ∧ n.genInfo.slotDmn.toNat ≤ 2 ^ macDefaults.macFrameFactor))
    (Runs.run (FrameOp.step macDefaults) (twohopLoRaMacInit macDefaults)
      [.mac (.register (.itself (.ofBits 1 2))), .mac (.register (.listed (.ofBits 2 1) 1)),
        .mac (.register (.itself (.ofBits 3 3)))])).mp (by decide +kernel)
  have hcons := (inOrder_of_run hs).consistent
  exact ⟨s, hs, announces_schedule macDefaults s hcons.sound hcons.framed
    (of_decide_eq_true hdemand) emptyMsg⟩

end LoRaGwSv
