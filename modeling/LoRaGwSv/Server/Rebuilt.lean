import LoRaGwSv.Server.Inserted
import LoRaGwSv.Server.ScheduleRuns

/-!
# Server/Rebuilt — a schedule made from nothing has no holes

After a reset nobody is booked and nobody is marked scheduled.  From there `schedule` books only
nodes that have no slots yet, so giving up the old slots of a node changes nothing, and first fit
can only append: each group is `Tight`, its intervals following one another from slot 1
(`schedule_resetSchedule_tight`).
-/

namespace LoRaGwSv

open Function SlotLine

/-- The entries of a group follow one another from slot 1, inside the frame. -/
structure SchList.Tight (T : ℕ) (list : SchList) : Prop where
  packedIn : list.PackedIn T
  gapless : Gapless 1 list.slots

variable {T : ℕ} {list : SchList} {p : MacParams} {phase : OperationPhase} {s t t' : Mac}
  {n : MngtNode} {addr : UInt16}

/-! ## One group

In a group without holes the first free run is the one behind the last entry. -/

theorem SchList.PackedIn.tight_of_nil (h : list.nboTotSlots.toNat = T) (hnil : list.nodes = []) :
    list.Tight T where
  packedIn := ⟨h, by rw [slots, hnil]; exact packed_nil T⟩
  gapless := by
    rw [slots, hnil]
    trivial

/-- **In a tight group a node is scheduled right behind the last one**, or not at all. -/
theorem SchList.Tight.smScheduleOneNode (hT : T ≤ 65535) (h : list.Tight T) {node : SchNode}
    (hd : 0 < node.slotDemand.toNat) (hdT : node.slotDemand.toNat ≤ T) :
    (smScheduleOneNode list node).2.Tight T := by
  refine ⟨h.packedIn.smScheduleOneNode hT hd hdT, ?_⟩
  have hfit := @firstFit_smAssignLsiToNode list node.slotDemand
    (by rw [h.packedIn.nboTotSlots]; exact hT)
    (by rw [h.packedIn.nboTotSlots]; exact h.packedIn.packed) hd
    fun _ => by rw [h.packedIn.nboTotSlots]; exact hdT
  rw [h.gapless.firstFit hd] at hfit
  rcases smScheduleOneNode_cases list node with ⟨-, heq⟩ | ⟨hne, heq⟩
  · rw [heq]
    exact h.gapless
  · split at hfit
    case isFalse => exact absurd (UInt16.toNat_inj.mp hfit) hne
    case isTrue =>
      have hend : SchNode.slot { node with startLSI := smAssignLsiToNode list node.slotDemand }
          = ⟨1 + load list.slots, node.slotDemand.toNat⟩ := by
        rw [SchNode.slot, hfit, Option.getD_some]
      rw [heq, slots, smAddNodeToScheduleList, map_slot_orderedInsert, hend,
        orderedInsert_eq_concat h.gapless.start_le]
      exact gapless_concat h.gapless rfl

/-! ## All groups

A node that is not marked has no slots where only marked ones are booked, so giving up its slots
makes no hole. -/

/-- Each group is tight, only scheduled nodes are booked, and no one-hop node wants more than the
frame has. -/
structure Mac.Tight (p : MacParams) (s : Mac) : Prop where
  tight : ∀ list ∈ s.SCHEDULES, list.Tight (2 ^ p.macFrameFactor)
  scheduled : ∀ b ∈ bookings s.SCHEDULES, s.NODES.scheduled b.addr = true
  demand : ∀ addr e, s.NODES.registry addr = some e → e.genInfo.type = .onehop →
    1 ≤ e.genInfo.slotDmn.toNat ∧ e.genInfo.slotDmn.toNat ≤ 2 ^ p.macFrameFactor

/-- Giving up slots one does not have changes nothing. -/
theorem removeNodeFromSchedule_eq_self (h : ∀ b ∈ bookings s.SCHEDULES, b.addr ≠ addr) :
    removeNodeFromSchedule s addr = s := by
  have hlist : ∀ list ∈ s.SCHEDULES, smRemoveOneNode list addr = list := fun list hlist => by
    have hnone : Keyed.lookup SchNode.addr addr list.nodes = none :=
      Keyed.lookup_eq_none.mpr fun b hb => h b (mem_bookings.mpr ⟨list, hlist, hb⟩)
    rw [smRemoveOneNode, hnone]
  rw [removeNodeFromSchedule, List.map_congr_left hlist, List.map_id']

/-- Where only scheduled nodes are booked, a node that is not has no slots to give up. -/
theorem removeNodeFromSchedule_of_schFlag (hcons : t.Consistent p)
    (hscheduled : ∀ b ∈ bookings t.SCHEDULES, t.NODES.scheduled b.addr = true)
    (hn : n ∈ t.NODES.nodes) (hflag : n.schFlag = false) : removeNodeFromSchedule t n.addr = t :=
  removeNodeFromSchedule_eq_self fun b hb heq => absurd
    ((hscheduled b hb).symm.trans (heq ▸ scheduled_of_schFlag hcons.sound.distinct hn hflag))
    (by decide)

/-- A turn books nobody without marking it. -/
theorem scheduled_turn (hcons : t.Consistent p)
    (hscheduled : ∀ b ∈ bookings t.SCHEDULES, t.NODES.scheduled b.addr = true)
    (hturn : Turn phase t n t') :
    ∀ b ∈ bookings t'.SCHEDULES, t'.NODES.scheduled b.addr = true := by
  cases hturn with
  | refused => exact fun b hb => hscheduled b ((mem_bookings_remove hcons.once).mp hb).1
  | booked hgroup hne hsch hsound hreg =>
    obtain ⟨hself, hother⟩ := scheduled_booked hreg
    intro b hb
    rcases (mem_bookings_booked hcons.once hgroup hsch).mp hb with rfl | ⟨hb, hne'⟩
    · exact hself
    · rw [hother _ hne']
      exact hscheduled b hb

/-- **A turn of `schedule` leaves no hole**: what it books goes behind what is there. -/
theorem Mac.Tight.turn (h : t.Tight p) (hcons : t.Consistent p) (hn : n ∈ t.NODES.nodes)
    (honehop : n.genInfo.type = .onehop) (hflag : n.schFlag = false) (hturn : Turn phase t n t') :
    t'.Tight p := by
  have hself := removeNodeFromSchedule_of_schFlag hcons h.scheduled hn hflag
  have hscheduled := scheduled_turn hcons h.scheduled hturn
  have hentry := hcons.sound.distinct.registry_self hn
  cases hturn with
  | refused => rwa [hself]
  | booked hgroup hne hsch hsound hreg =>
    have hmem := List.mem_of_getElem? (hself ▸ hgroup)
    have hdemand := h.demand _ _ hentry honehop
    have hbyte : (n.schNode phase).slotDemand.toNat = n.genInfo.slotDmn.toNat :=
      UInt8.toNat_toUInt16 _
    refine ⟨fun list' hlist' => ?_, hscheduled, fun addr e he htype => ?_⟩
    · rw [hsch, hself] at hlist'
      rcases List.mem_or_eq_of_mem_set hlist' with hlist' | rfl
      · exact h.tight list' hlist'
      · have hfits := @SchList.Tight.smScheduleOneNode _ _ (p.frame_le.trans (by decide))
          (h.tight _ hmem) (n.schNode phase) (hbyte ▸ hdemand.1) (hbyte ▸ hdemand.2)
        rcases smScheduleOneNode_cases _ (n.schNode phase) with ⟨hzero, -⟩ | ⟨-, heq⟩
        · exact absurd hzero hne
        · rwa [heq] at hfits
    · rw [hreg, update_apply] at he
      split at he
      case isTrue =>
        obtain rfl := Option.some.inj he
        exact hdemand
      case isFalse => exact h.demand addr e he htype

/-- **Scheduling from nothing leaves every group tight.** -/
theorem schedule_resetSchedule_tight (hsound : s.NODES.Sound) (hframed : s.Framed p)
    (hdemand : ∀ n ∈ s.NODES.nodes, n.genInfo.type = .onehop →
      1 ≤ n.genInfo.slotDmn.toNat ∧ n.genInfo.slotDmn.toNat ≤ 2 ^ p.macFrameFactor)
    (phase : OperationPhase) :
    ∃ s', schedule phase (resetSchedule s) = some s' ∧ s'.Tight p := by
  have hcons := consistent_resetSchedule hsound hframed
  have htight : (resetSchedule s).Tight p := by
    refine ⟨fun list hlist => ?_, fun b hb => ?_, fun addr e he htype => ?_⟩
    · refine SchList.PackedIn.tight_of_nil (hcons.framed.nboTotSlots hlist) ?_
      obtain ⟨list, -, rfl⟩ := List.mem_map.mp hlist
      rfl
    · rw [resetSchedule, clearSchedule, bookings_clear] at hb
      exact absurd hb List.not_mem_nil
    · obtain ⟨m, hm, -, rfl⟩ := exists_mem_of_registry he
      obtain ⟨n, hn, rfl⟩ := List.mem_map.mp hm
      exact hdemand n hn htype
  obtain ⟨s', hs', -, htight'⟩ := schedule_rule (I := fun t => t.Consistent p ∧ t.Tight p)
    (fun t i ht => by
      obtain ⟨t', ht', rfl | ⟨n, hn, honehop, hflag, hturn⟩⟩ :=
        scheduleStep_cases ht.1.sound phase i
      · exact ⟨t', ht', ht⟩
      · exact ⟨t', ht', ht.1.turn hn honehop hturn, ht.2.turn ht.1 hn honehop hflag hturn⟩)
    ⟨hcons, htight⟩
  exact ⟨s', hs', htight'⟩

end LoRaGwSv
