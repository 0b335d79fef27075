import LoRaGwSv.Machinery.Descending
import LoRaGwSv.Machinery.Greedy
import LoRaGwSv.Server.Rebuilt

/-!
# Server/Loads — how evenly the groups are loaded

`nboAsgSlots` of a group is what its entries demand, and they are walked by `startLSI`
(`SchList.Held`), through every call.  The group tried for a node is the least loaded one
(`isLeastAt_getIndexOfLowestLoadSch`), so a schedule made from nothing loads the groups evenly
(`schedule_balanced`).
-/

namespace LoRaGwSv

open Function Greedy SlotLine Weighted

/-- The entries are in the order of `startLSI`, and the slots assigned are counted. -/
structure SchList.Held (list : SchList) : Prop where
  ascending : list.nodes.Pairwise fun a b => a.startLSI.toNat ≤ b.startLSI.toNat
  nboAsgSlots_eq : list.nboAsgSlots.toNat = load list.slots

/-- The largest demand booked, `0` if none. -/
def maxDemand (S : List SchList) : ℕ := ((bookings S).map fun b => b.slotDemand.toNat).foldr max 0

variable {list : SchList} {node : SchNode} {S : List SchList} {addr : UInt16}

/-! ## One group

The counter of the slots assigned is what the entries demand. -/

/-- The order of the runs does not matter for their load. -/
theorem load_perm {l l' : List Slot} (h : l.Perm l') : load l = load l' := (h.map Slot.len).sum_eq

/-- Sixteen bits of address, and eight of demand, are few enough for the counter. -/
theorem load_slots_lt {nodes : List SchNode} (hlen : nodes.length ≤ 65536)
    (hdemand : ∀ n ∈ nodes, n.slotDemand.toNat < 256) :
    load (nodes.map SchNode.slot) ≤ 65536 * 255 := by
  have hsum := List.sum_le_card_nsmul ((nodes.map SchNode.slot).map Slot.len) 255 (by
    simp only [List.map_map, List.forall_mem_map]
    exact fun n hn => Nat.le_of_lt_succ (hdemand n hn))
  rw [List.length_map, List.length_map, smul_eq_mul] at hsum
  exact hsum.trans (Nat.mul_le_mul_right 255 hlen)

theorem held_smInitSchedule (T : UInt32) : (smInitSchedule T).Held := ⟨List.Pairwise.nil, rfl⟩

theorem held_smClearSchedule (list : SchList) : (smClearSchedule list).Held :=
  ⟨List.Pairwise.nil, rfl⟩

theorem SchList.Held.smRemoveOneNode (h : list.Held) (addr : UInt16) :
    (smRemoveOneNode list addr).Held := by
  refine ⟨?_, ?_⟩
  · rw [nodes_smRemoveOneNode]
    exact h.ascending.sublist (Keyed.erase_sublist _ _)
  · have hnodes := nodes_smRemoveOneNode list addr
    rw [slots, hnodes]
    rw [LoRaGwSv.smRemoveOneNode]
    split
    case h_1 hnone =>
      rw [Keyed.erase_eq_self hnone]
      exact h.nboAsgSlots_eq
    case h_2 curNode hcur =>
      have hload := load_perm ((Keyed.perm_cons_erase hcur).map SchNode.slot)
      rw [List.map_cons, load_cons, ← SchList.slots, ← h.nboAsgSlots_eq] at hload
      have hlen : curNode.slot.len = curNode.slotDemand.toUInt32.toNat :=
        (UInt16.toNat_toUInt32 _).symm
      have hlt := list.nboAsgSlots.toNat_lt
      simp only [UInt32.toNat_sub]
      omega

/-- Inserting by `startLSI` keeps the order of `startLSI`. -/
theorem SchList.Held.smAddNodeToScheduleList (h : list.Held) (hlist : ∀ n ∈ list.nodes, n.Placed)
    (hlen : list.nodes.length ≤ 65536) (hnode : node.slotDemand.toNat < 256) :
    (smAddNodeToScheduleList list node).Held := by
  refine ⟨?_, ?_⟩
  · exact Descending.orderedInsert (w := fun n : SchNode => OrderDual.toDual n.startLSI.toNat)
      (r := SchNode.StartsBefore) (fun _ _ => UInt16.lt_iff_toNat_lt) h.ascending node
  · have hload := load_perm ((List.perm_orderedInsert SchNode.StartsBefore node list.nodes).map
      SchNode.slot)
    rw [List.map_cons, load_cons, ← SchList.slots, ← h.nboAsgSlots_eq] at hload
    have hle := load_slots_lt hlen fun n hn => (hlist n hn).slotDemand_lt
    rw [← SchList.slots, ← h.nboAsgSlots_eq] at hle
    have hnodelen : node.slot.len = node.slotDemand.toNat := rfl
    rw [slots, LoRaGwSv.smAddNodeToScheduleList]
    simp only [UInt32.toNat_add, UInt16.toNat_toUInt32]
    omega

/-! ## The group tried -/

/-- The loop keeps what it has found: from the groups passed, the first least loaded one. -/
theorem isLeastAt_lowestLoadLoop : ∀ (rest pre : List SchList) (index : ℕ) (least : SchList),
    IsLeastAt (fun list : SchList => list.nboAsgSlots.toNat) pre index least →
    ∃ list, IsLeastAt (fun list : SchList => list.nboAsgSlots.toNat) (pre ++ rest)
      (lowestLoadLoop pre.length index least.nboAsgSlots rest) list := by
  intro rest
  induction rest with
  | nil =>
    intro pre index least h
    exact ⟨least, by rwa [List.append_nil]⟩
  | cons next rest ih =>
    intro pre index least h
    have hlen : pre.length + 1 = (pre ++ [next]).length := by simp
    have hindex : index < pre.length := (List.getElem?_eq_some_iff.mp h.get).1
    rw [lowestLoadLoop, ← List.singleton_append, ← List.append_assoc]
    split
    case isTrue hlt =>
      have hlt := UInt32.lt_iff_toNat_lt.mp hlt
      rw [hlen]
      refine ih (pre ++ [next]) pre.length next ⟨by simp, fun y hy => ?_, fun j hj y hy => ?_⟩
      · rcases List.mem_append.mp hy with hy | hy
        · exact hlt.le.trans (h.le y hy)
        · rw [List.mem_singleton.mp hy]
      · rw [List.getElem?_append_left hj] at hy
        exact hlt.trans_le (h.le y (List.mem_of_getElem? hy))
    case isFalse hge =>
      have hge := UInt32.not_lt.mp hge
      rw [hlen]
      refine ih (pre ++ [next]) index least ⟨?_, fun y hy => ?_, fun j hj y hy => ?_⟩
      · rw [List.getElem?_append_left hindex]
        exact h.get
      · rcases List.mem_append.mp hy with hy | hy
        · exact h.le y hy
        · rw [List.mem_singleton.mp hy]
          exact UInt32.le_iff_toNat_le.mp hge
      · rw [List.getElem?_append_left (hj.trans hindex)] at hy
        exact h.lt j hj y hy

/-- **The group tried is the first least loaded one.** -/
theorem isLeastAt_getIndexOfLowestLoadSch (hS : S ≠ []) :
    ∃ list, IsLeastAt (fun list : SchList => list.nboAsgSlots.toNat) S
      (getIndexOfLowestLoadSch S) list := by
  obtain ⟨list, lists, rfl⟩ := List.exists_cons_of_ne_nil hS
  have hfirst : IsLeastAt (fun list : SchList => list.nboAsgSlots.toNat) [list] 0 list :=
    ⟨rfl, fun y hy => by rw [List.mem_singleton.mp hy], fun j hj => absurd hj (Nat.not_lt_zero j)⟩
  have hself : ¬ list.nboAsgSlots < list.nboAsgSlots := UInt32.lt_irrefl _
  rw [getIndexOfLowestLoadSch, lowestLoadLoop, if_neg hself]
  exact isLeastAt_lowestLoadLoop lists [list] 0 list hfirst

/-! ## All groups

Only the group that is tried gains an entry. -/

variable {p : MacParams} {phase : OperationPhase} {s s' t t' : Mac} {n : MngtNode}

/-- A turn keeps every group in the order and count it is in. -/
theorem held_turn (hcons : t.Consistent p) (hheld : ∀ list ∈ t.SCHEDULES, list.Held)
    (hturn : Turn phase t n t') : ∀ list ∈ t'.SCHEDULES, list.Held := by
  have hrem := hcons.removeNodeFromSchedule n.addr
  have hremheld : ∀ list ∈ (removeNodeFromSchedule t n.addr).SCHEDULES, list.Held :=
    List.forall_mem_map.mpr fun list hlist => (hheld list hlist).smRemoveOneNode n.addr
  cases hturn with
  | refused => exact hremheld
  | booked hgroup hne hsch =>
    have hmem := List.mem_of_getElem? hgroup
    intro list' hlist'
    rw [hsch] at hlist'
    rcases List.mem_or_eq_of_mem_set hlist' with hlist' | rfl
    · exact hremheld list' hlist'
    · refine (hremheld _ hmem).smAddNodeToScheduleList
        (fun b hb => ((hrem.lists _ hmem).wellFormed b hb).placed) (hrem.length_nodes_le hmem) ?_
      have hlt := n.genInfo.slotDmn.toNat_lt
      rwa [MngtNode.schNode, UInt8.toNat_toUInt16]

/-- **`schedule` keeps every group in order and counted.** -/
theorem held_schedule (hcons : s.Consistent p) (hheld : ∀ list ∈ s.SCHEDULES, list.Held)
    (h : schedule phase s = some s') : ∀ list ∈ s'.SCHEDULES, list.Held := by
  obtain ⟨t, ht, -, ht'⟩ := schedule_rule (I := fun t : Mac => t.Consistent p ∧
      ∀ list ∈ t.SCHEDULES, list.Held) (fun t i ht => by
    obtain ⟨t', ht', rfl | ⟨n, hn, honehop, -, hturn⟩⟩ := scheduleStep_cases ht.1.sound phase i
    · exact ⟨t', ht', ht⟩
    · exact ⟨t', ht', ht.1.turn hn honehop hturn, held_turn ht.1 ht.2 hturn⟩) ⟨hcons, hheld⟩
  exact Option.some.inj (ht.symm.trans h) ▸ ht'

/-- **One node is tried in the least loaded group**, its old slots given up. -/
theorem scheduleOneNode_least (hS : s.SCHEDULES ≠ []) (phase : OperationPhase) (n : MngtNode) :
    ∃ group list, IsLeastAt (fun list : SchList => list.nboAsgSlots.toNat)
        (removeNodeFromSchedule s n.addr).SCHEDULES group list ∧
      scheduleOneNode s phase n = ((smScheduleOneNode list (n.schNode phase)).1,
        { removeNodeFromSchedule s n.addr with
          SCHEDULES := (removeNodeFromSchedule s n.addr).SCHEDULES.set group
            (smScheduleOneNode list (n.schNode phase)).2 }) := by
  have hne : (removeNodeFromSchedule s n.addr).SCHEDULES ≠ [] := by
    rw [removeNodeFromSchedule]
    simpa using hS
  obtain ⟨list, hleast⟩ := isLeastAt_getIndexOfLowestLoadSch hne
  refine ⟨_, list, hleast, ?_⟩
  rw [scheduleOneNode]
  dsimp only
  rw [hleast.get]

theorem scheduleStep_groups (hS : t.SCHEDULES ≠ []) {i : ℕ} (h : scheduleStep phase t i = some t') :
    t'.SCHEDULES = t.SCHEDULES ∨ ∃ n ∈ t.NODES.nodes, n.schFlag = false ∧
      ∃ group list, IsLeastAt (fun list : SchList => list.nboAsgSlots.toNat)
        (removeNodeFromSchedule t n.addr).SCHEDULES group list ∧
        t'.SCHEDULES = (removeNodeFromSchedule t n.addr).SCHEDULES.set group
          (smScheduleOneNode list (n.schNode phase)).2 := by
  rw [scheduleStep] at h
  split at h
  case h_1 => exact Or.inl (by rw [← Option.some.inj h])
  case h_2 n hn =>
    split at h
    case isFalse => exact Or.inl (by rw [← Option.some.inj h])
    case isTrue hdue =>
      obtain ⟨group, list, hleast, heq⟩ := scheduleOneNode_least hS phase n
      refine Or.inr ⟨n, List.mem_of_getElem? hn, hdue.2, group, list, hleast, ?_⟩
      rw [heq] at h
      dsimp only at h
      split at h
      · obtain ⟨NODES, -, rfl⟩ := Option.map_eq_some_iff.mp h
        rfl
      · rw [← Option.some.inj h]

theorem Mac.Consistent.groups_ne_nil (h : s.Consistent p) : s.SCHEDULES ≠ [] := fun hnil => by
  have hgroups := h.groups
  have hpos := p.nboChannels_bounds.1
  rw [hnil, List.length_nil] at hgroups
  omega

/-! ## A schedule made from nothing

The group that gains an entry was the least loaded one, so it comes to be at most that entry above
any other. -/

/-- A maximum is below what all are below. -/
theorem foldr_max_le_iff {l : List ℕ} {D : ℕ} : l.foldr max 0 ≤ D ↔ ∀ x ∈ l, x ≤ D := by
  induction l with
  | nil => simp
  | cons x l ih => rw [List.foldr_cons, max_le_iff, ih, List.forall_mem_cons]

theorem maxDemand_le_iff {D : ℕ} :
    maxDemand S ≤ D ↔ ∀ b ∈ bookings S, b.slotDemand.toNat ≤ D := by
  rw [maxDemand, foldr_max_le_iff, List.forall_mem_map]

/-- The groups are loaded evenly, and only scheduled nodes are booked. -/
structure Mac.Even (s : Mac) : Prop where
  scheduled : ∀ b ∈ bookings s.SCHEDULES, s.NODES.scheduled b.addr = true
  held : ∀ list ∈ s.SCHEDULES, list.Held
  balanced : Balanced (fun list : SchList => list.nboAsgSlots.toNat) (maxDemand s.SCHEDULES)
    s.SCHEDULES

/-- **A turn keeps the loads even**: the node it tries has no slots to give up, and the least loaded
group takes it or not. -/
theorem Mac.Even.step (h : t.Even) (hcons : t.Consistent p) (hS : t.SCHEDULES ≠ []) {i : ℕ}
    (hstep : scheduleStep phase t i = some t') : t'.Even := by
  obtain ⟨u, hu, rfl | ⟨n, hn, honehop, hflag, hturn⟩⟩ := scheduleStep_cases hcons.sound phase i
  · rwa [← Option.some.inj (hu.symm.trans hstep)]
  obtain rfl : u = t' := Option.some.inj (hu.symm.trans hstep)
  have hheld := held_turn hcons h.held hturn
  refine ⟨scheduled_turn hcons h.scheduled hturn, hheld, ?_⟩
  rcases scheduleStep_groups hS hstep with hsame | ⟨n', hn', hflag', group, list, hleast, hsch⟩
  · rw [hsame]
    exact h.balanced
  rw [removeNodeFromSchedule_of_schFlag hcons h.scheduled hn' hflag'] at hleast hsch
  have hmem := List.mem_of_getElem? hleast.get
  rcases smScheduleOneNode_cases list (n'.schNode phase) with ⟨-, heq⟩ | ⟨-, heq⟩
  · obtain ⟨hlt, rfl⟩ := List.getElem?_eq_some_iff.mp hleast.get
    rw [hsch, heq, List.set_getElem_self]
    exact h.balanced
  · set node : SchNode := { n'.schNode phase with
      startLSI := smAssignLsiToNode list (n'.schNode phase).slotDemand }
    have hperm := bookings_add hleast.get node
    rw [heq] at hsch
    rw [← hsch] at hperm
    have hmax := maxDemand_le_iff.mp (le_refl (maxDemand u.SCHEDULES))
    have hnew : (smAddNodeToScheduleList list node).Held := by
      refine hheld _ ?_
      rw [hsch]
      exact List.mem_of_getElem?
        (List.getElem?_set_self (List.getElem?_eq_some_iff.mp hleast.get).1)
    have hload : (smAddNodeToScheduleList list node).nboAsgSlots.toNat
        = list.nboAsgSlots.toNat + node.slotDemand.toNat := by
      have hins := load_perm ((List.perm_orderedInsert SchNode.StartsBefore node list.nodes).map
        SchNode.slot)
      rw [hnew.nboAsgSlots_eq, (h.held list hmem).nboAsgSlots_eq, Nat.add_comm]
      exact hins
    have hold : Balanced (fun list : SchList => list.nboAsgSlots.toNat) (maxDemand u.SCHEDULES)
        t.SCHEDULES := h.balanced.mono (maxDemand_le_iff.mpr fun b hb =>
      hmax b (hperm.symm.subset (List.mem_cons_of_mem _ hb)))
    have hadd := hold.add hleast (hmax node (hperm.symm.subset List.mem_cons_self)) hload
    rwa [hsch] at hadd ⊢

/-- **After a reset, `schedule` leaves no two groups with loads that differ by more than the largest
demand booked.** -/
theorem schedule_balanced (hsound : s.NODES.Sound) (hframed : s.Framed p) :
    ∃ s', schedule .scheduleDist (resetSchedule s) = some s' ∧
      ∀ list ∈ s'.SCHEDULES, ∀ list' ∈ s'.SCHEDULES,
        list.nboAsgSlots.toNat ≤ list'.nboAsgSlots.toNat + maxDemand s'.SCHEDULES := by
  have hcons := consistent_resetSchedule hsound hframed
  have heven : (resetSchedule s).Even := by
    refine ⟨fun b hb => ?_, fun list hlist => ?_, fun list hlist list' hlist' => ?_⟩
    · rw [resetSchedule, clearSchedule, bookings_clear] at hb
      exact absurd hb List.not_mem_nil
    · obtain ⟨list, -, rfl⟩ := List.mem_map.mp hlist
      exact held_smClearSchedule list
    · obtain ⟨list, -, rfl⟩ := List.mem_map.mp hlist
      exact Nat.zero_le _
  obtain ⟨s', hs', -, heven'⟩ := schedule_rule (I := fun t : Mac => t.Consistent p ∧ t.Even)
    (fun t i ht => by
      obtain ⟨t', ht', rfl | ⟨n, hn, honehop, -, hturn⟩⟩ :=
        scheduleStep_cases ht.1.sound .scheduleDist i
      · exact ⟨t', ht', ht⟩
      · exact ⟨t', ht', ht.1.turn hn honehop hturn,
          ht.2.step ht.1 ht.1.groups_ne_nil ht'⟩) ⟨hcons, heven⟩
  exact ⟨s', hs', heven'.balanced⟩

/-- A frame of four slots, on two channels. -/
def fourSlots : MacParams := ⟨2, 60, 80, 2, by decide, by decide, by decide, by decide⟩

/-- A node that demands two slots and two that demand one. -/
theorem schedule_balanced_three :
    ∃ s, Runs.run MacOp.step (twohopLoRaMacInit fourSlots)
        [.register (.itself (.ofBits 1 1)), .register (.itself (.ofBits 2 0)),
          .register (.itself (.ofBits 3 0))] = some s ∧
      ∃ s', schedule .scheduleDist (resetSchedule s) = some s' ∧
        ∀ list ∈ s'.SCHEDULES, ∀ list' ∈ s'.SCHEDULES,
          list.nboAsgSlots.toNat ≤ list'.nboAsgSlots.toNat + maxDemand s'.SCHEDULES := by
  obtain ⟨s, hs, hcons⟩ := Runs.Always.last (Runs.always_of_inv
    (fun _ op h (_ : True) => h.step op) (consistent_twohopLoRaMacInit fourSlots)
    [MacOp.register (.itself (.ofBits 1 1)), .register (.itself (.ofBits 2 0)),
      .register (.itself (.ofBits 3 0))] fun _ _ => trivial)
  exact ⟨s, hs, schedule_balanced hcons.sound hcons.framed⟩

end LoRaGwSv
