import LoRaGwSv.Server.Booking
import LoRaGwSv.Server.Downlink

/-!
# Server/Distribute — counting down what has still to be distributed

A message that carries an entry takes one off its `nboSchDist` (`carry`).  Carrying several entries
of one group, one after the other, does so for each of them and for nothing else
(`nodes_foldl_carry`), and keeps NODES and the schedule consistent.
-/

namespace LoRaGwSv

/-- An entry once a message has carried it. -/
def SchNode.carried (n : SchNode) : SchNode := { n with nboSchDist := n.nextNboSchDist.toUInt16 }

/-- What carrying an entry does to its group. -/
abbrev carry (list : SchList) (n : SchNode) : SchList :=
  smNodeSetNboSchDist list n.addr n.nextNboSchDist

/-- An entry once the entries of `sel` are carried. -/
def SchNode.carriedIn (sel : List SchNode) (n : SchNode) : SchNode :=
  if n.addr ∈ sel.map SchNode.addr then n.carried else n

variable {list : SchList} {n : SchNode} {sel : List SchNode} {S : List SchList}

/-! ## One entry

A counter of eight bits is counted down and never below zero. -/

@[simp] theorem SchNode.addr_carried (n : SchNode) : n.carried.addr = n.addr := rfl

@[simp] theorem SchNode.addr_carriedIn (sel : List SchNode) (n : SchNode) :
    (n.carriedIn sel).addr = n.addr := by
  rw [carriedIn]
  split <;> rfl

/-- Each of the entries selected is carried. -/
theorem map_carriedIn_self (sel : List SchNode) :
    sel.map (SchNode.carriedIn sel) = sel.map SchNode.carried :=
  List.map_congr_left fun _ hn => if_pos (List.mem_map_of_mem hn)

theorem map_carriedIn_of_disjoint {l : List SchNode}
    (h : List.Disjoint (l.map SchNode.addr) (sel.map SchNode.addr)) :
    l.map (SchNode.carriedIn sel) = l := by
  have hsame : ∀ n ∈ l, n.carriedIn sel = n := fun n hn => if_neg (h (List.mem_map_of_mem hn))
  rw [List.map_congr_left hsame, List.map_id']

/-- An entry that is pending has been carried less often than it should. -/
theorem SchNode.pending_iff : n.Pending ↔ 0 < n.nboSchDist.toNat := UInt16.lt_iff_toNat_lt

/-- **One less is to be distributed**: so few that eight bits hold it. -/
theorem SchNode.WellFormed.toNat_nextNboSchDist (h : n.WellFormed) :
    n.nextNboSchDist.toNat = n.nboSchDist.toNat - 1 := by
  have hle := h.nboSchDist_le
  have hbyte : n.nboSchDist.toUInt8.toNat = n.nboSchDist.toNat := by
    rw [UInt16.toNat_toUInt8]
    omega
  rw [nextNboSchDist]
  split
  case isTrue hne =>
    have hpos : n.nboSchDist.toNat ≠ 0 := fun h0 =>
      hne (UInt8.toNat_inj.mp (hbyte.trans h0))
    rw [UInt8.toNat_sub, hbyte, UInt8.toNat_one]
    omega
  case isFalse heq =>
    have hzero : n.nboSchDist.toNat = 0 := by
      rw [← hbyte, Decidable.of_not_not heq]
      rfl
    rw [hbyte, hzero]

/-- Carrying counts down by one, and stops at zero. -/
theorem SchNode.WellFormed.toNat_carried (h : n.WellFormed) :
    n.carried.nboSchDist.toNat = n.nboSchDist.toNat - 1 :=
  (UInt8.toNat_toUInt16 _).trans h.toNat_nextNboSchDist

/-- An entry that has been carried is well formed. -/
theorem SchNode.WellFormed.carried (h : n.WellFormed) : n.carried.WellFormed :=
  ⟨h.addr_lt, h.cls_lt, h.startLSI_ne, h.slotDemand_lt, h.startLSI_of_zero, by
    have := h.nboSchDist_le
    rw [h.toNat_carried]
    omega⟩

/-- Carrying an entry keeps the count of its group right. -/
theorem SchList.Sound.carry (h : list.Sound)
    (hn : Keyed.lookup SchNode.addr n.addr list.nodes = some n) : (carry list n).Sound := by
  have hwf := h.wellFormed n (Keyed.mem_of_lookup hn)
  have hnext := hwf.toNat_nextNboSchDist
  refine ⟨fun x hx => ?_, ?_⟩
  · rw [nodes_smNodeSetNboSchDist, Keyed.update_eq_of_lookup hn] at hx
    rcases Keyed.mem_update hx with hx | ⟨y, hy, rfl⟩
    · exact h.wellFormed x hx
    · exact hwf.carried
  · have hcount := Keyed.countP_update (f := fun _ => n.carried)
      (p := fun x => x.Pending) hn
    have hzero : n.nextNboSchDist = 0 ↔ n.nextNboSchDist.toNat = 0 := UInt8.toNat_inj.symm
    have hpos : 0 < n.nextNboSchDist ↔ 0 < n.nextNboSchDist.toNat := UInt8.lt_iff_toNat_lt
    have hdist : n.nboSchDist = 0 ↔ n.nboSchDist.toNat = 0 := UInt16.toNat_inj.symm
    have hlt := list.nboDistReq.toNat_lt
    simp only [SchNode.pending_iff, hwf.toNat_carried, decide_eq_true_eq] at hcount
    have hreq := h.nboDistReq_eq
    simp only [SchNode.pending_iff] at hreq
    rw [LoRaGwSv.carry, nodes_smNodeSetNboSchDist, Keyed.update_eq_of_lookup hn,
      smNodeSetNboSchDist, hn]
    simp only [UInt16.lt_iff_toNat_lt, hzero, hpos, hdist, hnext]
    change _ = List.countP (fun x => decide (0 < x.nboSchDist.toNat))
      (Keyed.update SchNode.addr n.addr (fun _ => n.carried) list.nodes)
    rw [if_neg (by omega), show UInt16.toNat 0 = 0 from rfl]
    by_cases hone : n.nboSchDist.toNat = 1
    · rw [if_pos (by omega), if_neg (by omega)] at hcount
      rw [if_pos (by omega), UInt32.toNat_sub, UInt32.toNat_one]
      omega
    · rw [if_neg (by omega)]
      split at hcount <;> split at hcount <;> omega

/-! ## Several entries of a group

The entries carried have different addresses, so carrying one does not touch another. -/

/-- **Carrying entries of one group** takes one off each of them and leaves the others alone. -/
theorem nodes_foldl_carry (hl : (list.nodes.map SchNode.addr).Nodup)
    (hsel : (sel.map SchNode.addr).Nodup) (hmem : ∀ n ∈ sel, n ∈ list.nodes) :
    (sel.foldl carry list).nodes = list.nodes.map (SchNode.carriedIn sel) := by
  induction sel generalizing list with
  | nil =>
    rw [List.foldl_nil]
    exact (List.map_id list.nodes).symm.trans
      (List.map_congr_left fun _ _ => (if_neg (by simp)).symm)
  | cons n sel ih =>
    obtain ⟨hn, hsel⟩ := List.nodup_cons.mp (List.map_cons ▸ hsel)
    have hlookup := Keyed.lookup_self hl (hmem n List.mem_cons_self)
    have hone : (carry list n).nodes
        = list.nodes.map fun y => if y.addr = n.addr then y.carried else y := by
      rw [carry, nodes_smNodeSetNboSchDist, Keyed.update_eq_of_lookup hlookup]
      exact Keyed.update_eq_map (f := SchNode.carried) hl (hmem n List.mem_cons_self)
    have haddr : (carry list n).nodes.map SchNode.addr = list.nodes.map SchNode.addr := by
      rw [hone, List.map_map]
      refine List.map_congr_left fun y _ => ?_
      rw [Function.comp_apply]
      split <;> rfl
    rw [List.foldl_cons, ih (haddr ▸ hl) hsel fun x hx => ?_, hone, List.map_map]
    · refine List.map_congr_left fun y hy => ?_
      rw [Function.comp_apply]
      by_cases hy' : y.addr = n.addr
      · have hsel' : y.carried.addr ∉ sel.map SchNode.addr := by rwa [SchNode.addr_carried, hy']
        have hcons : y.addr ∈ (n :: sel).map SchNode.addr := List.mem_cons.mpr (Or.inl hy')
        rw [if_pos hy', SchNode.carriedIn, SchNode.carriedIn, if_neg hsel', if_pos hcons]
      · have hcons : y.addr ∈ (n :: sel).map SchNode.addr ↔ y.addr ∈ sel.map SchNode.addr := by
          rw [List.map_cons, List.mem_cons, or_iff_right hy']
        rw [if_neg hy']
        exact if_congr hcons.symm rfl rfl
    · rw [hone]
      have hne : x.addr ≠ n.addr := fun h => hn (h ▸ List.mem_map_of_mem hx)
      exact List.mem_map.mpr ⟨x, hmem x (List.mem_cons_of_mem n hx), if_neg hne⟩

@[simp] theorem nboTotSlots_foldl_carry (sel : List SchNode) (list : SchList) :
    (sel.foldl carry list).nboTotSlots = list.nboTotSlots := by
  induction sel generalizing list with
  | nil => rfl
  | cons n sel ih => exact (ih _).trans (nboTotSlots_smNodeSetNboSchDist _)

/-- Carrying entries keeps a group's count right. -/
theorem SchList.Sound.foldl_carry (h : list.Sound) (hl : (list.nodes.map SchNode.addr).Nodup)
    (hsel : (sel.map SchNode.addr).Nodup) (hmem : ∀ n ∈ sel, n ∈ list.nodes) :
    (sel.foldl LoRaGwSv.carry list).Sound := by
  induction sel generalizing list with
  | nil => exact h
  | cons n sel ih =>
    obtain ⟨hn, hsel'⟩ := List.nodup_cons.mp (List.map_cons ▸ hsel)
    have hmem' := hmem n List.mem_cons_self
    have hone : (LoRaGwSv.carry list n).nodes = list.nodes.map (SchNode.carriedIn [n]) :=
      @nodes_foldl_carry list [n] hl (List.nodup_singleton _)
        fun x hx => List.mem_singleton.mp hx ▸ hmem'
    refine ih (h.carry (Keyed.lookup_self hl hmem')) ?_ hsel' fun x hx => ?_
    · rw [hone, List.map_map]
      exact (congrArg List.Nodup (List.map_congr_left fun y _ => y.addr_carriedIn [n])).mpr hl
    · rw [hone]
      have hne : x.addr ≠ n.addr := fun heq => hn (heq ▸ List.mem_map_of_mem hx)
      exact List.mem_map.mpr ⟨x, hmem x (List.mem_cons_of_mem n hx),
        if_neg fun hx' => hne (List.mem_singleton.mp hx')⟩

end LoRaGwSv
