import LoRaGwSv.Machinery.Runs
import LoRaGwSv.Machinery.SlotLine
import LoRaGwSv.Server.ScheduleMngt

/-!
# Server/ScheduleRuns — what a schedule list looks like after any history

A history of one group is a run of the operations of `schedule_mngt.h` (`SmOp`) from
`smInitSchedule`.  Read as runs of slots (`SchNode.slot`), the entries stay packed in the frame
(`SlotLine.Packed`): the allocator is first fit on that line (`firstFit_smAssignLsiToNode`), and the
insertion puts the entry where the allocator found room for it.
-/

namespace LoRaGwSv

open SlotLine

/-- The slots an entry is assigned. -/
def SchNode.slot (n : SchNode) : Slot := ⟨n.startLSI.toNat, n.slotDemand.toNat⟩

/-- The entries of a list, as runs of slots. -/
abbrev SchList.slots (list : SchList) : List Slot := list.nodes.map SchNode.slot

/-- The LSIs assigned to an entry: `[startLSI, startLSI + slotDemand - 1]`. -/
def SchNode.lsis (n : SchNode) : Finset ℕ :=
  Finset.Icc n.startLSI.toNat (n.startLSI.toNat + n.slotDemand.toNat - 1)

/-- The slots of an entry are the cells of its run. -/
theorem SchNode.lsis_eq_cells {n : SchNode} (h : 0 < n.slotDemand.toNat) :
    n.lsis = n.slot.cells := by
  ext x
  simp only [lsis, Slot.cells, Slot.stop, slot, Finset.mem_Icc, Finset.mem_Ico]
  omega

/-- **No slot of the frame is assigned twice.** -/
structure SlotExclusive (T : ℕ) (nodes : List SchNode) : Prop where
  ascending : nodes.Pairwise fun a b => a.startLSI < b.startLSI
  inside : ∀ n ∈ nodes, 1 ≤ n.startLSI.toNat ∧ 1 ≤ n.slotDemand.toNat ∧
    n.startLSI.toNat + n.slotDemand.toNat - 1 ≤ T
  disjoint : nodes.Pairwise fun a b => Disjoint a.lsis b.lsis

/-! ## The allocator is first fit

Inside a frame of sixteen bits no LSI is cut, so the loop compares true numbers. -/

/-- The last LSI of an entry inside a 16-bit frame, without wrap-around. -/
theorem SchNode.toNat_lastLsi {n : SchNode} (hs : 1 ≤ n.startLSI.toNat)
    (h : n.slot.stop ≤ 65536) : n.lastLsi.toNat = n.slot.stop - 1 := by
  simp only [Slot.stop, slot] at h ⊢
  have hstart := n.startLSI.toNat_lt
  have hdemand := n.slotDemand.toNat_lt
  rw [lastLsi, UInt16.toNat_sub, UInt16.toNat_add, UInt16.toNat_one]
  omega

theorem SchNode.lastLsi_eq {n : SchNode} {T : ℕ} (hT : T ≤ 65535)
    (hn : 1 ≤ n.slot.start ∧ 0 < n.slot.len ∧ n.slot.stop ≤ T + 1) :
    n.lastLsi.toNat = n.slot.stop - 1 := toNat_lastLsi hn.1 (by omega)

/-- **On a packed list the loop is first fit**, by induction over the list. -/
theorem firstFit_smAssignLsiToNodeLoop {nboTotSlots : UInt32} {demandSlot : UInt16}
    (hT : nboTotSlots.toNat ≤ 65535) (hd : 0 < demandSlot.toNat) :
    ∀ {curNode : SchNode} {rest : List SchNode},
      Packed nboTotSlots.toNat ((curNode :: rest).map SchNode.slot) →
      (smAssignLsiToNodeLoop nboTotSlots demandSlot curNode rest).toNat
        = (firstFit nboTotSlots.toNat demandSlot.toNat curNode.slot.stop
            (rest.map SchNode.slot)).getD 0 := by
  intro curNode rest
  induction rest generalizing curNode with
  | nil =>
    intro hp
    have hcur := hp.within curNode.slot (by simp)
    have hlast := curNode.lastLsi_eq hT hcur
    have hroom : demandSlot.toUInt32 ≤ nboTotSlots - curNode.lastLsi.toUInt32 ↔
        curNode.slot.stop + demandSlot.toNat ≤ nboTotSlots.toNat + 1 := by
      have hstop : 1 < curNode.slot.stop := by simp only [Slot.stop]; omega
      have hlt := nboTotSlots.toNat_lt
      rw [UInt32.le_iff_toNat_le, UInt32.toNat_sub, UInt16.toNat_toUInt32, UInt16.toNat_toUInt32,
        hlast]
      omega
    rw [smAssignLsiToNodeLoop, List.map_nil, firstFit]
    by_cases h : curNode.slot.stop + demandSlot.toNat ≤ nboTotSlots.toNat + 1
    · rw [if_pos (hroom.mpr h), if_pos h, UInt16.toNat_add, UInt16.toNat_one, hlast,
        Option.getD_some]
      simp only [Slot.stop, SchNode.slot] at *
      omega
    · rw [if_neg (mt hroom.mp h), if_neg h]
      rfl
  | cons next rest ih =>
    intro hp
    have hcur := hp.within curNode.slot (by simp)
    have hnext := hp.within next.slot (by simp)
    have hlast := curNode.lastLsi_eq hT hcur
    have hroom : (demandSlot.toNat : ℤ) < (next.startLSI.toNat : ℤ) - curNode.lastLsi.toNat ↔
        curNode.slot.stop + demandSlot.toNat ≤ next.slot.start := by
      rw [hlast]
      simp only [Slot.stop, SchNode.slot] at *
      omega
    rw [smAssignLsiToNodeLoop, List.map_cons, firstFit]
    by_cases h : curNode.slot.stop + demandSlot.toNat ≤ next.slot.start
    · rw [if_pos (hroom.mpr h), if_pos h, UInt16.toNat_add, UInt16.toNat_one, hlast,
        Option.getD_some]
      simp only [Slot.stop, SchNode.slot] at *
      have := next.startLSI.toNat_lt
      omega
    · rw [if_neg (mt hroom.mp h), if_neg h]
      exact ih hp.tail

/-- **The LSI assigned is the first that fits**, for a demand the empty frame has room for; the
source does not compare the demand with the frame when the list is empty. -/
theorem firstFit_smAssignLsiToNode {list : SchList} {demandSlot : UInt16}
    (hT : list.nboTotSlots.toNat ≤ 65535) (hp : Packed list.nboTotSlots.toNat list.slots)
    (hd : 0 < demandSlot.toNat)
    (hdT : list.nodes = [] → demandSlot.toNat ≤ list.nboTotSlots.toNat) :
    (smAssignLsiToNode list demandSlot).toNat
      = (firstFit list.nboTotSlots.toNat demandSlot.toNat 1 list.slots).getD 0 := by
  rw [smAssignLsiToNode, SchList.slots]
  cases hnodes : list.nodes with
  | nil =>
    have := hdT hnodes
    rw [List.map_nil, firstFit, if_pos (by omega)]
    rfl
  | cons head rest =>
    rw [SchList.slots, hnodes] at hp
    have hroom : demandSlot < head.startLSI ↔ 1 + demandSlot.toNat ≤ head.slot.start := by
      rw [UInt16.lt_iff_toNat_lt]
      simp only [SchNode.slot]
      omega
    rw [List.map_cons, firstFit]
    by_cases h : 1 + demandSlot.toNat ≤ head.slot.start
    · rw [if_pos h, Option.getD_some]
      simp only [hroom.mpr h, if_true]
      rfl
    · simp only [if_neg h, if_neg (mt hroom.mp h)]
      exact firstFit_smAssignLsiToNodeLoop hT hd hp

/-! ## Each operation keeps the list packed -/

/-- The frame a schedule list divides, and the runs in it. -/
structure SchList.PackedIn (T : ℕ) (list : SchList) : Prop where
  nboTotSlots : list.nboTotSlots.toNat = T
  packed : Packed T list.slots

theorem SchList.packedIn_init {T : UInt32} : (smInitSchedule T).PackedIn T.toNat :=
  ⟨rfl, packed_nil _⟩

variable {T : ℕ} {list : SchList}

theorem SchList.PackedIn.smClearSchedule (h : list.PackedIn T) :
    (smClearSchedule list).PackedIn T := ⟨h.nboTotSlots, packed_nil _⟩

/-- Taking an entry out keeps a list packed. -/
theorem SchList.PackedIn.smRemoveOneNode (h : list.PackedIn T) (addr : UInt16) :
    (smRemoveOneNode list addr).PackedIn T := by
  refine ⟨by rw [nboTotSlots_smRemoveOneNode, h.nboTotSlots], h.packed.sublist ?_⟩
  rw [slots, slots, nodes_smRemoveOneNode]
  exact (Keyed.erase_sublist _ _).map _

/-- The distribution counters are not part of a slot. -/
theorem slots_smNodeSetNboSchDist (list : SchList) (addr : UInt16) (k : UInt8) :
    (smNodeSetNboSchDist list addr k).slots = list.slots := by
  rw [SchList.slots, SchList.slots, nodes_smNodeSetNboSchDist]
  exact Keyed.map_update fun _ _ => rfl

theorem SchList.PackedIn.smNodeSetNboSchDist (h : list.PackedIn T) (addr : UInt16) (k : UInt8) :
    (smNodeSetNboSchDist list addr k).PackedIn T :=
  ⟨by rw [nboTotSlots_smNodeSetNboSchDist, h.nboTotSlots],
    by rw [slots_smNodeSetNboSchDist]; exact h.packed⟩

/-- Walking the nodes by `startLSI` is walking their slots by start. -/
theorem map_slot_orderedInsert (l : List SchNode) (n : SchNode) :
    (l.orderedInsert SchNode.StartsBefore n).map SchNode.slot
      = (l.map SchNode.slot).orderedInsert StartsBefore n.slot :=
  List.map_orderedInsert _ _ _ _ _ (fun _ _ => UInt16.lt_iff_toNat_lt)
    (fun _ _ => UInt16.lt_iff_toNat_lt)

/-- **So does scheduling a node**, whatever slot it gets. -/
theorem SchList.PackedIn.smScheduleOneNode (hT : T ≤ 65535) (h : list.PackedIn T) {node : SchNode}
    (hd : 0 < node.slotDemand.toNat) (hdT : node.slotDemand.toNat ≤ T) :
    (smScheduleOneNode list node).2.PackedIn T := by
  have hfit := @firstFit_smAssignLsiToNode list node.slotDemand (by rw [h.nboTotSlots]; exact hT)
    (by rw [h.nboTotSlots]; exact h.packed) hd fun _ => by rw [h.nboTotSlots]; exact hdT
  rw [h.nboTotSlots] at hfit
  rcases smScheduleOneNode_cases list node with ⟨-, heq⟩ | ⟨hne, heq⟩
  · rw [heq]
    exact h
  · rw [heq]
    refine ⟨h.nboTotSlots, ?_⟩
    rw [slots, smAddNodeToScheduleList, map_slot_orderedInsert]
    cases hff : firstFit T node.slotDemand.toNat 1 list.slots with
    | none =>
      rw [hff, Option.getD_none] at hfit
      exact absurd (UInt16.toNat_inj.mp hfit) hne
    | some s =>
      rw [hff, Option.getD_some] at hfit
      have hfits := (firstFit_fits h.packed le_rfl hd
        (fun x hx => (h.packed.within x hx).1) hff).2
      refine h.packed.insert ?_ hd
      rw [SchNode.slot]
      simpa only [hfit] using hfits

/-! ## Reading a packed list -/

/-- In a packed list no slot is given out twice. -/
theorem SchList.PackedIn.slotExclusive (h : list.PackedIn T) :
    SlotExclusive T list.nodes := by
  have hin : ∀ n ∈ list.nodes, 1 ≤ n.slot.start ∧ 0 < n.slot.len ∧ n.slot.stop ≤ T + 1 :=
    fun n hn => h.packed.within _ (List.mem_map_of_mem hn)
  refine ⟨?_, fun n hn => ?_, ?_⟩
  · exact (List.pairwise_map.mp h.packed.ascending).imp fun hab => UInt16.lt_iff_toNat_lt.mpr hab
  · have := hin n hn
    simp only [Slot.stop, SchNode.slot] at this
    omega
  · refine (List.pairwise_map.mp h.packed.disjoint).imp_of_mem fun {a b} ha hb hab => ?_
    rwa [SchNode.lsis_eq_cells (hin a ha).2.1, SchNode.lsis_eq_cells (hin b hb).2.1]

/-- The LSIs assigned to the nodes of a list. -/
def SchList.assigned (list : SchList) : Set ℕ := {lsi | ∃ n ∈ list.nodes, lsi ∈ n.lsis}

/-- **`smGetLastAsgLsi` reads the largest assigned LSI off a packed list.** -/
theorem SchList.PackedIn.isGreatest_smGetLastAsgLsi (hT : T ≤ 65535) (h : list.PackedIn T)
    (hne : list.nodes ≠ []) : IsGreatest list.assigned (smGetLastAsgLsi list).toNat := by
  obtain ⟨init, n, hnodes⟩ := (List.eq_nil_or_concat' list.nodes).resolve_left hne
  have hlast : smGetLastAsgLsi list = n.lastLsi := by
    rw [smGetLastAsgLsi, hnodes, List.getLast?_concat]
  have hp : Packed T (init.map SchNode.slot ++ [n.slot]) := by
    have := h.packed
    rwa [slots, hnodes, List.map_append] at this
  have hn := hp.within n.slot (by simp)
  have hval : (smGetLastAsgLsi list).toNat = n.slot.stop - 1 := by
    rw [hlast, SchNode.lastLsi_eq hT hn]
  have hmem : ∀ m ∈ list.nodes, m = n ∨ m.slot.stop ≤ n.slot.start := fun m hm => by
    rcases List.mem_append.mp (hnodes ▸ hm) with hm | hm
    · exact Or.inr ((List.pairwise_append.mp hp.sep).2.2 _ (List.mem_map_of_mem hm) _ (by simp))
    · exact Or.inl (List.mem_singleton.mp hm)
  constructor
  · refine ⟨n, by rw [hnodes]; simp, ?_⟩
    rw [hval, SchNode.lsis, Finset.mem_Icc]
    simp only [Slot.stop, SchNode.slot] at *
    omega
  · rintro x ⟨m, hm, hx⟩
    have hle := (Finset.mem_Icc.mp hx).2
    rw [hval]
    rcases hmem m hm with rfl | hstop
    · exact hle
    · simp only [Slot.stop, SchNode.slot] at *
      omega

/-! ## Histories of a group

Any order of requests, removals, settings and clearings, from a list that has just been initialised.
-/

/-- One call on a schedule list. -/
inductive SmOp
  | scheduleOneNode (node : SchNode)
  | removeOneNode (addr : UInt16)
  | nodeSetNboSchDist (addr : UInt16) (nboSchDist : UInt8)
  | clearSchedule
deriving DecidableEq, Repr

/-- The list a call leaves. -/
def SmOp.step (list : SchList) : SmOp → Option SchList
  | .scheduleOneNode node => some (smScheduleOneNode list node).2
  | .removeOneNode addr => some (smRemoveOneNode list addr)
  | .nodeSetNboSchDist addr nboSchDist => some (smNodeSetNboSchDist list addr nboSchDist)
  | .clearSchedule => some (smClearSchedule list)

/-- A request asks for at least one slot and no more than the frame has. -/
def SmOp.Admitted (T : ℕ) : SmOp → Prop
  | .scheduleOneNode node => 1 ≤ node.slotDemand.toNat ∧ node.slotDemand.toNat ≤ T
  | _ => True

instance (T : ℕ) : ∀ op : SmOp, Decidable (op.Admitted T)
  | .scheduleOneNode _ => inferInstanceAs (Decidable (_ ∧ _))
  | .removeOneNode _ | .nodeSetNboSchDist _ _ | .clearSchedule => inferInstanceAs (Decidable True)

theorem SchList.PackedIn.step (hT : T ≤ 65535) (h : list.PackedIn T) {op : SmOp}
    (hop : op.Admitted T) : ∃ list', op.step list = some list' ∧ list'.PackedIn T := by
  cases op with
  | scheduleOneNode node => exact ⟨_, rfl, h.smScheduleOneNode hT hop.1 hop.2⟩
  | removeOneNode addr => exact ⟨_, rfl, h.smRemoveOneNode addr⟩
  | nodeSetNboSchDist addr k => exact ⟨_, rfl, h.smNodeSetNboSchDist addr k⟩
  | clearSchedule => exact ⟨_, rfl, h.smClearSchedule⟩

/-- **Slot exclusivity of a schedule group**, in every state of every history whose requests fit the
frame; and `smGetLastAsgLsi` reads the largest LSI assigned there. -/
theorem slotExclusive_run (T : UInt32) (hT : T.toNat ≤ 65535) (ops : List SmOp)
    (hops : ∀ op ∈ ops, op.Admitted T.toNat) :
    Runs.Always SmOp.step
      (fun list => SlotExclusive T.toNat list.nodes ∧
        (list.nodes = [] → smGetLastAsgLsi list = 0) ∧
        (list.nodes ≠ [] → IsGreatest list.assigned (smGetLastAsgLsi list).toNat))
      (smInitSchedule T) ops := by
  have hrun : Runs.Always SmOp.step (SchList.PackedIn T.toNat)
      (smInitSchedule T) ops :=
    Runs.always_of_inv (fun _ _ h hop => h.step hT hop) SchList.packedIn_init ops hops
  refine hrun.imp fun list h => ⟨h.slotExclusive, fun hnil => ?_,
    h.isGreatest_smGetLastAsgLsi hT⟩
  rw [smGetLastAsgLsi, hnil]
  rfl

/-- Three joins and two leaves of an eight-slot frame: the last join fills the hole at the head. -/
theorem slotExclusive_run_eight :
    Runs.Always SmOp.step
      (fun list => SlotExclusive 8 list.nodes ∧
        (list.nodes = [] → smGetLastAsgLsi list = 0) ∧
        (list.nodes ≠ [] → IsGreatest list.assigned (smGetLastAsgLsi list).toNat))
      (smInitSchedule 8)
      [.scheduleOneNode ⟨1, 1, 0, 2, 1⟩, .scheduleOneNode ⟨2, 2, 0, 4, 1⟩, .removeOneNode 1,
        .nodeSetNboSchDist 2 0, .scheduleOneNode ⟨3, 0, 0, 1, 3⟩, .removeOneNode 2] :=
  slotExclusive_run 8 (by decide) _ (by decide)

end LoRaGwSv
