import LoRaGwSv.Server.Announced

/-!
# Server/Sch2 — the slots of SCH2

Relays pass the schedule on in SCH2, the `j`-th relay of a scheduling message in the slot that
message names plus `j - 1`.  The slot is a counter of eight bits that goes through all messages of a
phase (`SmTrain`), so each relay has a slot of its own as long as there are at most 255 of them
(`ownSlots_phase_iff`).
-/

namespace LoRaGwSv

open Wire

/-- The node listed is a relay of NODES. -/
def ListsRelay (NODES : MngtNodeList) (node : (ℕ × ℕ) × ℕ) : Prop :=
  ∃ n ∈ NODES.nodes, n.addr.toNat = node.1.1 ∧ 0 < n.nboChildren

instance (NODES : MngtNodeList) (node : (ℕ × ℕ) × ℕ) : Decidable (ListsRelay NODES node) :=
  inferInstanceAs (Decidable (∃ _ ∈ _, _))

/-- How many relays a message lists. -/
def SmMsg.nboListed (NODES : MngtNodeList) (sm : SmMsg) : ℕ :=
  sm.nodes.countP fun node => ListsRelay NODES node

/-- The slots the relays of the messages get, in the order they are listed. -/
def sch2Slots (NODES : MngtNodeList) (sms : List SmMsg) : List ℕ :=
  sms.flatMap fun sm => (List.range (sm.nboListed NODES)).map fun j => sm.sch2Sslot + j

/-- **Each relay listed gets its own slot of SCH2**: `R` distinct slots from `1` to `R`, and `R`
slots are waited for.  `sch2Sslot` is the counter after the last message. -/
structure OwnSlots (NODES : MngtNodeList) (sms : List SmMsg) (sch2Sslot : UInt8) : Prop where
  nodup : (sch2Slots NODES sms).Nodup
  inside : ∀ slot ∈ sch2Slots NODES sms, 1 ≤ slot ∧ slot ≤ (sch2Slots NODES sms).length
  nboSch2Slot : (sch2Sslot - 1).toNat = (sch2Slots NODES sms).length

/-- How many of the entries the scheduling messages have room for are relays. -/
def nboRelaysSent (s : Mac) : ℕ :=
  nboRelaysIn s.NODES ((smBatches s.SCHEDULES).flatMap Prod.snd)

variable {p : MacParams} {NODES : MngtNodeList} {sms : List SmMsg} {a last : UInt8}
  {sent : List MsgInfo} {xs : List (ℕ × List SchNode)}

/-! ## What the messages tell

The counter goes from message to message in eight bits. -/

/-- A relay is a node of the list that has children. -/
theorem dmIsRelayNode_iff (hd : NODES.Distinct) (addr : UInt16) :
    dmIsRelayNode NODES addr = true ↔ ∃ n ∈ NODES.nodes, n.addr = addr ∧ 0 < n.nboChildren := by
  rw [dmIsRelayNode]
  constructor
  · intro h
    split at h
    case h_1 => exact absurd h (by decide)
    case h_2 n hn =>
      exact ⟨n, Keyed.mem_of_lookup hn, Keyed.key_of_lookup hn, of_decide_eq_true h⟩
  · rintro ⟨n, hn, rfl, hpos⟩
    rw [show getNodeReferenceByAddress NODES n.addr = some n from Keyed.lookup_self hd hn]
    exact decide_eq_true hpos

/-- A message lists as many relays as its batch has. -/
theorem nboListed_eq (hd : NODES.Distinct) {sm : SmMsg} {batch : List SchNode}
    (h : sm.nodes = batch.map fun n => ((n.addr.toNat, n.cls.toNat), n.slotDemand.toNat)) :
    sm.nboListed NODES = nboRelaysIn NODES batch := by
  rw [SmMsg.nboListed, h, List.countP_map, nboRelaysIn]
  refine List.countP_congr fun n _ => ?_
  rw [Function.comp_apply, decide_eq_true_iff, dmIsRelayNode_iff hd]
  simp only [ListsRelay, UInt16.toNat_inj]

/-- **The messages of a train read back with their slots**: while the counter has not wrapped, one
after the other from the first. -/
theorem SmTrain.parsed (hd : NODES.Distinct) (h : SmTrain p NODES a sent xs last)
    (hxs : ∀ x ∈ xs, x.1 < 8 ∧ x.2.length < 32 ∧ ∀ n ∈ x.2, n.WellFormed) :
    ∃ sms : List SmMsg, sent.map (fun msg => parseAll parseSm msg.bytes) = sms.map some ∧
      (sch2Slots NODES sms).length = nboRelaysIn NODES (xs.flatMap Prod.snd) ∧
      last = a + UInt8.ofNat (nboRelaysIn NODES (xs.flatMap Prod.snd)) ∧
      ∀ k, a = UInt8.ofNat k → k + nboRelaysIn NODES (xs.flatMap Prod.snd) ≤ 256 →
        sch2Slots NODES sms = List.range' k (nboRelaysIn NODES (xs.flatMap Prod.snd)) := by
  induction h with
  | nil a => exact ⟨[], rfl, rfl, by simp [nboRelaysIn], fun k _ _ => rfl⟩
  | @cons a last msg sent x xs seq hmsg htail ih =>
    obtain ⟨⟨hi, hlen, hwf⟩, hxs⟩ := List.forall_mem_cons.mp hxs
    obtain ⟨sm, hparse, hslot, -, -, hnodes⟩ := parseSm_smBytes p NODES seq a hi hlen hwf
    obtain ⟨sms, hsms, hlength, hlast, hslots⟩ := ih hxs
    have hlisted := nboListed_eq hd hnodes
    have hcons : sch2Slots NODES (sm :: sms)
        = (List.range (sm.nboListed NODES)).map (fun j => sm.sch2Sslot + j)
          ++ sch2Slots NODES sms := List.flatMap_cons
    have hcount : nboRelaysIn NODES ((x :: xs).flatMap Prod.snd)
        = nboRelaysIn NODES x.2 + nboRelaysIn NODES (xs.flatMap Prod.snd) := by
      rw [List.flatMap_cons, nboRelaysIn, List.countP_append]
      rfl
    refine ⟨sm :: sms, ?_, ?_, ?_, fun k hk hle => ?_⟩
    · rw [List.map_cons, List.map_cons, hsms, hmsg, hparse]
    · rw [hcons, List.length_append, List.length_map, List.length_range, hlength, hlisted, hcount]
    · rw [hlast, hcount, UInt8.ofNat_add, UInt8.add_assoc]
    · rw [hcount] at hle ⊢
      have hrest := hslots (k + nboRelaysIn NODES x.2) (by rw [hk, UInt8.ofNat_add]) (by omega)
      rw [hcons, hrest, hlisted, ← List.range'_append_1]
      congr 1
      rcases Nat.eq_zero_or_pos (nboRelaysIn NODES x.2) with hzero | hpos
      · rw [hzero]
        rfl
      · -- a slot is taken, so the counter is below 256 here
        have hval : sm.sch2Sslot = k := by
          rw [hslot, hk, UInt8.toNat_ofNat']
          omega
        rw [hval, List.range'_eq_map_range]

/-- **When the counter holds**: 255 relays still have a slot each, one more and it is back at the
start. -/
theorem SmTrain.ownSlots_iff (hd : NODES.Distinct) (h : SmTrain p NODES 1 sent xs last)
    (hxs : ∀ x ∈ xs, x.1 < 8 ∧ x.2.length < 32 ∧ ∀ n ∈ x.2, n.WellFormed) :
    ∃ sms : List SmMsg, sent.map (fun msg => parseAll parseSm msg.bytes) = sms.map some ∧
      (OwnSlots NODES sms last ↔ nboRelaysIn NODES (xs.flatMap Prod.snd) ≤ 255) := by
  obtain ⟨sms, hsms, hlength, hlast, hslots⟩ := h.parsed hd hxs
  have hwaited : (last - 1).toNat = nboRelaysIn NODES (xs.flatMap Prod.snd) % 256 := by
    rw [hlast, UInt8.add_comm, UInt8.add_sub_cancel, UInt8.toNat_ofNat']
  refine ⟨sms, hsms, fun hown => ?_, fun hle => ?_⟩
  · have := hown.nboSch2Slot
    rw [hwaited, hlength] at this
    omega
  · have hrange := hslots 1 rfl (by omega)
    refine ⟨?_, fun slot hslot => ?_, by rw [hwaited, hlength]; omega⟩
    · rw [hrange]
      exact List.nodup_range'
    · rw [hlength]
      rw [hrange, List.mem_range'_1] at hslot
      omega

/-! ## A crowd of relays

With seven channels, long frames and the smallest demands more relays are announced than the counter
can tell.  Node 8000 is in the child tables of all of them, as it has registered with one after the
other. -/

/-- Seven channels and frames of 128 slots. -/
def crowdedParams : MacParams :=
  { macDefaults with
    macFrameFactor := 7
    macNboChannels := 7
    frameFactor_bounds := by decide
    nboChannels_bounds := by decide }

/-- A relay of class 0 with node 8000 as its child. -/
def crowdedRelay (i : ℕ) : MngtNode :=
  { createNewNode ⟨UInt16.ofNat (i + 1), 0, 3, .onehop⟩ 0 with
    nboChildren := 1
    children := #v[⟨8000, 0, 1⟩, ⟨0, 0, 0⟩] }

/-- Node 8000 and `k` relays that have had it as their child. -/
def crowdedMac (k : ℕ) : Mac :=
  { twohopLoRaMacInit crowdedParams with
    NODES :=
      { nodes := createNewNode ⟨8000, 0, 1, .twohop⟩ 1 :: (List.range k).map crowdedRelay
        size := UInt32.ofNat (k + 1)
        nboSchReq := UInt32.ofNat (k + 1)
        sort := true } }

/-- A list of well-formed entries with distinct addresses and no child missing is sound. -/
theorem sound_of_entries (hd : NODES.Distinct) (hwf : ∀ n ∈ NODES.nodes, n.WellFormed)
    (hclosed : ∀ n ∈ NODES.nodes, ∀ c ∈ n.children, c.addr ≠ 0 →
      ∃ m ∈ NODES.nodes, m.addr = c.addr) :
    NODES.Sound where
  distinct := hd
  registry :=
    { keyed := fun a e he => by
        obtain ⟨n, -, rfl, rfl⟩ := exists_mem_of_registry he
        rfl
      closed := fun a e he c hc hc0 => by
        obtain ⟨n, hn, -, rfl⟩ := exists_mem_of_registry he
        obtain ⟨m, hm, haddr⟩ := hclosed n hn c hc hc0
        rw [← haddr, hd.registry_self hm]
        rfl
      wellFormed := fun a e he => by
        obtain ⟨n, hn, -, rfl⟩ := exists_mem_of_registry he
        have h := hwf n hn
        exact ⟨h.addr_lt, h.cls_lt, h.child_lt, h.nboChildren_eq, h.cell_unique⟩ }

/-- The addresses of the crowd begin at 1. -/
theorem toNat_addr_crowdedRelay {i : ℕ} (hi : i < 256) : (crowdedRelay i).addr.toNat = i + 1 := by
  rw [show (crowdedRelay i).addr = UInt16.ofNat (i + 1) from rfl, UInt16.toNat_ofNat']
  omega

/-- The first of them is well formed, by looking at it. -/
theorem wellFormed_crowdedRelay_zero : (crowdedRelay 0).WellFormed :=
  ⟨by decide, by decide, by decide, by decide, by decide⟩

/-- The others differ in their address only. -/
theorem wellFormed_crowdedRelay {i : ℕ} (hi : i < 256) : (crowdedRelay i).WellFormed where
  addr_lt := by
    rw [toNat_addr_crowdedRelay hi]
    omega
  cls_lt := wellFormed_crowdedRelay_zero.cls_lt
  child_lt := wellFormed_crowdedRelay_zero.child_lt
  nboChildren_eq := wellFormed_crowdedRelay_zero.nboChildren_eq
  cell_unique := wellFormed_crowdedRelay_zero.cell_unique

theorem sound_crowdedMac {k : ℕ} (hk : k ≤ 256) : (crowdedMac k).NODES.Sound := by
  have hrelay : ∀ n ∈ (crowdedMac k).NODES.nodes, n = createNewNode ⟨8000, 0, 1, .twohop⟩ 1 ∨
      ∃ i < 256, n = crowdedRelay i := fun n hn => by
    rcases List.mem_cons.mp hn with rfl | hn
    · exact Or.inl rfl
    · obtain ⟨i, hi, rfl⟩ := List.mem_map.mp hn
      exact Or.inr ⟨i, lt_of_lt_of_le (List.mem_range.mp hi) hk, rfl⟩
  refine sound_of_entries ?_ (fun n hn => ?_) fun n hn c hc hc0 => ?_
  · have hinj : ((List.range k).map fun i => (crowdedRelay i).addr).Nodup := by
      refine List.nodup_range.map_on fun i hi j hj h => ?_
      have := congrArg UInt16.toNat h
      rw [toNat_addr_crowdedRelay (lt_of_lt_of_le (List.mem_range.mp hi) hk),
        toNat_addr_crowdedRelay (lt_of_lt_of_le (List.mem_range.mp hj) hk)] at this
      omega
    refine List.nodup_cons.mpr ⟨fun hmem => ?_, by rwa [List.map_map]⟩
    obtain ⟨n, hn, haddr⟩ := List.mem_map.mp hmem
    obtain ⟨i, hi, rfl⟩ := List.mem_map.mp hn
    have hi := lt_of_lt_of_le (List.mem_range.mp hi) hk
    have := congrArg UInt16.toNat haddr
    rw [toNat_addr_crowdedRelay hi] at this
    have : i + 1 = 8000 := this
    omega
  · obtain rfl | ⟨i, hi, rfl⟩ := hrelay n hn
    · exact MngtNode.Fresh.wellFormed
        ⟨rfl, rfl, rfl, rfl, by decide, by decide, by decide, fun _ => by decide⟩
    · exact wellFormed_crowdedRelay hi
  · obtain rfl | ⟨i, -, rfl⟩ := hrelay n hn
    · exact absurd (congrArg Child.addr (mem_noChildren.mp hc)) hc0
    · refine ⟨_, List.mem_cons_self, ?_⟩
      have hcells : ∀ c ∈ (crowdedRelay 0).children, c.addr ≠ 0 → (8000 : UInt16) = c.addr := by
        decide
      exact hcells c hc hc0

/-- With 256 relays announced no slot of SCH2 is waited for. -/
theorem not_ownSlots_crowded :
    (crowdedMac 256).NODES.Sound ∧ (crowdedMac 256).Framed crowdedParams ∧
      ∃ s₁ sent sch2Sslot s₂ sms,
        schedule .scheduleDist (resetSchedule (crowdedMac 256)) = some s₁ ∧
        scheduleDistributionPhase crowdedParams (crowdedMac 256) emptyMsg
          = some (sent, sch2Sslot, s₂) ∧
        sent.map (fun msg => parseAll parseSm msg.bytes) = sms.map some ∧
        ¬ OwnSlots s₁.NODES sms sch2Sslot := by
  have hframed : (crowdedMac 256).Framed crowdedParams := framed_twohopLoRaMacInit crowdedParams
  obtain ⟨s₁, sent, sch2Sslot, s₂, hs₁, hcons, hphase, -, -, hsent⟩ :=
    scheduleDistributionPhase_spec (sound_crowdedMac le_rfl) hframed emptyMsg
  obtain ⟨sms, hsms, hiff⟩ := hsent.ownSlots_iff hcons.sound.distinct (smBatches_wellFormed hcons)
  have hcount : (schedule .scheduleDist (resetSchedule (crowdedMac 256))).any
      (fun s₁ => 255 < nboRelaysSent s₁) = true := by decide +kernel
  rw [hs₁, Option.any_some, decide_eq_true_iff] at hcount
  exact ⟨sound_crowdedMac le_rfl, hframed, s₁, sent, sch2Sslot, s₂, sms, hs₁, hphase, hsms,
    fun hown => absurd (hiff.mp hown) (Nat.not_le.mpr hcount)⟩

/-! ## Any population -/

/-- **Each relay announced gets its own slot of SCH2 exactly if at most 255 relays are
announced.** -/
theorem ownSlots_phase_iff (p : MacParams) (s : Mac) (hsound : s.NODES.Sound)
    (hframed : s.Framed p) (dlMsg : MsgInfo) :
    ∃ s₁ sent sch2Sslot s₂ sms, schedule .scheduleDist (resetSchedule s) = some s₁ ∧
      scheduleDistributionPhase p s dlMsg = some (sent, sch2Sslot, s₂) ∧
      sent.map (fun msg => parseAll parseSm msg.bytes) = sms.map some ∧
      (OwnSlots s₁.NODES sms sch2Sslot ↔ nboRelaysSent s₁ ≤ 255) := by
  obtain ⟨s₁, sent, sch2Sslot, s₂, hs₁, hcons, hphase, -, -, hsent⟩ :=
    scheduleDistributionPhase_spec hsound hframed dlMsg
  obtain ⟨sms, hsms, hiff⟩ := hsent.ownSlots_iff hcons.sound.distinct (smBatches_wellFormed hcons)
  exact ⟨s₁, sent, sch2Sslot, s₂, sms, hs₁, hphase, hsms, hiff⟩

/-- Forty relays, more than a message lists, and each has its slot. -/
theorem ownSlots_phase_iff_crowded :
    ∃ s₁ sent sch2Sslot s₂ sms,
      schedule .scheduleDist (resetSchedule (crowdedMac 40)) = some s₁ ∧
      scheduleDistributionPhase crowdedParams (crowdedMac 40) emptyMsg
        = some (sent, sch2Sslot, s₂) ∧
      sent.map (fun msg => parseAll parseSm msg.bytes) = sms.map some ∧
      OwnSlots s₁.NODES sms sch2Sslot ∧ nboRelaysSent s₁ = 40 := by
  obtain ⟨s₁, sent, sch2Sslot, s₂, sms, hs₁, hphase, hsms, hiff⟩ :=
    ownSlots_phase_iff crowdedParams (crowdedMac 40) (sound_crowdedMac (by decide))
      (framed_twohopLoRaMacInit crowdedParams) emptyMsg
  have hcount : (schedule .scheduleDist (resetSchedule (crowdedMac 40))).any
      (fun s₁ => nboRelaysSent s₁ = 40) = true := by decide +kernel
  rw [hs₁, Option.any_some, decide_eq_true_iff] at hcount
  exact ⟨s₁, sent, sch2Sslot, s₂, sms, hs₁, hphase, hsms, hiff.mpr (by omega), hcount⟩

end LoRaGwSv
