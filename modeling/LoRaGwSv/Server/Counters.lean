import LoRaGwSv.Server.Booking
import LoRaGwSv.Server.ScheduleRuns

/-!
# Server/Counters — what the counters of a schedule list count

A schedule list carries its length, the slots its entries demand and the number of entries still to
be distributed, in counters of 32 bits that every operation moves up or down.  **They are right
modulo `2 ^ 32` in every state**, and exact where the addresses of the entries are distinct
(`counted_run`).  They are not exact in every state: nothing compares what is requested with what is
assigned already, and each counter wraps around when it is asked for long enough
(`not_exact_wrapped`).
-/

namespace LoRaGwSv

/-- The slots the entries demand together. -/
def totalDemand (nodes : List SchNode) : ℕ := (nodes.map fun n => n.slotDemand.toNat).sum

/-- The number of entries still to be distributed. -/
def pendingCount (nodes : List SchNode) : ℕ := nodes.countP fun n => n.Pending

/-- **Each counter is what it counts.** -/
structure SchList.Exact (list : SchList) : Prop where
  nboNode_eq : list.nboNode.toNat = list.nodes.length
  nboAsgSlots_eq : list.nboAsgSlots.toNat = totalDemand list.nodes
  nboDistReq_eq : list.nboDistReq.toNat = pendingCount list.nodes

/-- Each counter is what it counts, as far as 32 bits can tell. -/
structure SchList.Counted (list : SchList) : Prop where
  nboNode_eq : list.nboNode.toNat = list.nodes.length % 2 ^ 32
  nboAsgSlots_eq : list.nboAsgSlots.toNat = totalDemand list.nodes % 2 ^ 32
  nboDistReq_eq : list.nboDistReq.toNat = pendingCount list.nodes % 2 ^ 32

/-- A request is for a schedule that has to be distributed. -/
def SmOp.Distributes : SmOp → Prop
  | .scheduleOneNode node => 0 < node.nboSchDist
  | _ => True

instance : ∀ op : SmOp, Decidable op.Distributes
  | .scheduleOneNode _ => inferInstanceAs (Decidable (_ < _))
  | .removeOneNode _ | .nodeSetNboSchDist _ _ | .clearSchedule => inferInstanceAs (Decidable True)

variable {list : SchList} {node : SchNode} {nodes nodes' : List SchNode}

/-! ## What is counted -/

@[simp] theorem totalDemand_cons :
    totalDemand (node :: nodes) = node.slotDemand.toNat + totalDemand nodes := List.sum_cons

theorem totalDemand_perm (h : nodes.Perm nodes') : totalDemand nodes = totalDemand nodes' :=
  (h.map fun n : SchNode => n.slotDemand.toNat).sum_eq

@[simp] theorem pendingCount_cons :
    pendingCount (node :: nodes) = pendingCount nodes + if node.Pending then 1 else 0 := by
  rw [pendingCount, List.countP_cons, pendingCount]
  simp only [decide_eq_true_eq]

theorem pendingCount_perm (h : nodes.Perm nodes') : pendingCount nodes = pendingCount nodes' :=
  h.countP_eq _

/-- There are no more of them than entries. -/
theorem pendingCount_le : pendingCount nodes ≤ nodes.length := List.countP_le_length

theorem totalDemand_le : totalDemand nodes ≤ nodes.length * 65535 := by
  have hsum := List.sum_le_card_nsmul (nodes.map fun n => n.slotDemand.toNat) 65535 (by
    simp only [List.forall_mem_map]
    exact fun n _ => Nat.le_of_lt_succ n.slotDemand.toNat_lt)
  rwa [List.length_map, smul_eq_mul] at hsum

/-- **Counts modulo 2³² are exact as long as what they count is below that.** -/
theorem SchList.Counted.exact (h : list.Counted) (hlen : list.nodes.length < 2 ^ 32)
    (hsum : totalDemand list.nodes < 2 ^ 32) : list.Exact where
  nboNode_eq := h.nboNode_eq.trans (Nat.mod_eq_of_lt hlen)
  nboAsgSlots_eq := h.nboAsgSlots_eq.trans (Nat.mod_eq_of_lt hsum)
  nboDistReq_eq := h.nboDistReq_eq.trans (Nat.mod_eq_of_lt (pendingCount_le.trans_lt hlen))

/-- Sixteen bits of address, and sixteen of demand, are few enough for every counter. -/
theorem SchList.Counted.exact_of_nodup (h : list.Counted)
    (hnodup : (list.nodes.map SchNode.addr).Nodup) : list.Exact := by
  have hlen := length_le_of_nodup hnodup
  have hsum := @totalDemand_le list.nodes
  exact h.exact (by omega) (by omega)

/-! ## One operation

Each operation changes the counters by as much as what they count, modulo 2³². -/

theorem counted_smInitSchedule (T : UInt32) : (smInitSchedule T).Counted := ⟨rfl, rfl, rfl⟩

theorem counted_smClearSchedule (list : SchList) : (smClearSchedule list).Counted := ⟨rfl, rfl, rfl⟩

/-- Adding an entry that is to be distributed keeps the counts. -/
theorem SchList.Counted.smAddNodeToScheduleList (h : list.Counted) (hp : node.Pending) :
    (smAddNodeToScheduleList list node).Counted := by
  have hperm := List.perm_orderedInsert SchNode.StartsBefore node list.nodes
  refine ⟨?_, ?_, ?_⟩
  · simp only [LoRaGwSv.smAddNodeToScheduleList]
    rw [UInt32.toNat_add, h.nboNode_eq, hperm.length_eq, List.length_cons, UInt32.toNat_one]
    omega
  · simp only [LoRaGwSv.smAddNodeToScheduleList]
    rw [UInt32.toNat_add, h.nboAsgSlots_eq, totalDemand_perm hperm, totalDemand_cons,
      UInt16.toNat_toUInt32]
    omega
  · simp only [LoRaGwSv.smAddNodeToScheduleList]
    rw [UInt32.toNat_add, h.nboDistReq_eq, pendingCount_perm hperm, pendingCount_cons, if_pos hp,
      UInt32.toNat_one]
    omega

theorem SchList.Counted.smScheduleOneNode (h : list.Counted) (hp : node.Pending) :
    (smScheduleOneNode list node).2.Counted := by
  rcases smScheduleOneNode_cases list node with ⟨-, heq⟩ | ⟨-, heq⟩
  · rw [heq]
    exact h
  · rw [heq]
    exact h.smAddNodeToScheduleList hp

theorem SchList.Counted.smRemoveOneNode (h : list.Counted) (addr : UInt16) :
    (smRemoveOneNode list addr).Counted := by
  rw [LoRaGwSv.smRemoveOneNode]
  split
  case h_1 => exact h
  case h_2 curNode hcur =>
    have hperm := Keyed.perm_cons_erase hcur
    have hlen := hperm.length_eq
    have hsum := totalDemand_perm hperm
    have hcount := pendingCount_perm hperm
    rw [List.length_cons] at hlen
    rw [totalDemand_cons] at hsum
    rw [pendingCount_cons] at hcount
    have hdemand := curNode.slotDemand.toNat_lt
    refine ⟨?_, ?_, ?_⟩
    · simp only [UInt32.toNat_sub, h.nboNode_eq, hlen, UInt32.toNat_one]
      omega
    · simp only [UInt32.toNat_sub, h.nboAsgSlots_eq, hsum, UInt16.toNat_toUInt32]
      omega
    · by_cases hp : curNode.Pending
      · rw [if_pos hp] at hcount
        simp only [if_pos hp, UInt32.toNat_sub, h.nboDistReq_eq, hcount, UInt32.toNat_one]
        omega
      · rw [if_neg hp, Nat.add_zero] at hcount
        simp only [if_neg hp, h.nboDistReq_eq, hcount]

/-- What a rewritten entry changes of the count of pending ones. -/
theorem pendingCount_update {curNode : SchNode} {addr : UInt16} {f : SchNode → SchNode}
    (hcur : Keyed.lookup SchNode.addr addr nodes = some curNode) :
    pendingCount (Keyed.update SchNode.addr addr f nodes) + (if curNode.Pending then 1 else 0)
      = pendingCount nodes + if (f curNode).Pending then 1 else 0 := by
  have hcount := Keyed.countP_update (f := f) (p := fun n : SchNode => n.Pending) hcur
  rw [pendingCount, pendingCount]
  simpa only [decide_eq_true_eq] using hcount

theorem SchList.Counted.smNodeSetNboSchDist (h : list.Counted) (addr : UInt16) (k : UInt8) :
    (smNodeSetNboSchDist list addr k).Counted := by
  rw [LoRaGwSv.smNodeSetNboSchDist]
  split
  case h_1 => exact h
  case h_2 curNode hcur =>
    have hcount := pendingCount_update (f := fun n => { n with nboSchDist := k.toUInt16 }) hcur
    have hk : (0 : UInt16) < k.toUInt16 ↔ 0 < k := by
      rw [UInt16.lt_iff_toNat_lt, UInt8.lt_iff_toNat_lt, UInt8.toNat_toUInt16]
      rfl
    have hk0 : k = 0 ↔ ¬ 0 < k := by rw [UInt8.pos_iff_ne_zero, not_not]
    have hcur0 : curNode.nboSchDist = 0 ↔ ¬ curNode.Pending := by
      rw [SchNode.Pending, UInt16.pos_iff_ne_zero, not_not]
    refine ⟨?_, ?_, ?_⟩
    · exact h.nboNode_eq.trans (by rw [Keyed.length_update])
    · have hsum : totalDemand (Keyed.update SchNode.addr addr
          (fun n => { n with nboSchDist := k.toUInt16 }) list.nodes) = totalDemand list.nodes :=
        congrArg List.sum (Keyed.map_update fun _ _ => rfl)
      exact h.nboAsgSlots_eq.trans (by rw [hsum])
    · have hreq := h.nboDistReq_eq
      simp only [hk] at hcount
      simp only [hk0, hcur0]
      -- the counter moves where the entry stops or starts to be pending
      by_cases hp : curNode.Pending <;> by_cases hkp : 0 < k <;>
        simp only [hp, hkp, not_true_eq_false, not_false_eq_true, and_true, and_false, if_true,
          if_false, UInt32.toNat_add, UInt32.toNat_sub, UInt32.toNat_one, hreq] at hcount ⊢ <;>
        omega

/-! ## Every run -/

/-- **Each operation keeps the counts.** -/
theorem SchList.Counted.step (h : list.Counted) {op : SmOp} (hop : op.Distributes) :
    ∃ list', op.step list = some list' ∧ list'.Counted := by
  cases op with
  | scheduleOneNode node => exact ⟨_, rfl, h.smScheduleOneNode hop⟩
  | removeOneNode addr => exact ⟨_, rfl, h.smRemoveOneNode addr⟩
  | nodeSetNboSchDist addr k => exact ⟨_, rfl, h.smNodeSetNboSchDist addr k⟩
  | clearSchedule => exact ⟨_, rfl, counted_smClearSchedule list⟩

/-- **The counters count modulo `2 ^ 32`, in every state of every run**, and exactly where no
address has two entries. -/
theorem counted_run (T : UInt32) (ops : List SmOp) (hops : ∀ op ∈ ops, op.Distributes) :
    Runs.Always SmOp.step
      (fun list => list.Counted ∧ ((list.nodes.map SchNode.addr).Nodup → list.Exact))
      (smInitSchedule T) ops :=
  (Runs.always_of_inv (fun _ _ h hop => h.step hop) (counted_smInitSchedule T) ops hops).imp
    fun _ h => ⟨h, h.exact_of_nodup⟩

/-- Two nodes with one address, one of them removed and the other settled. -/
theorem counted_run_five :
    Runs.Always SmOp.step
      (fun list => list.Counted ∧ ((list.nodes.map SchNode.addr).Nodup → list.Exact))
      (smInitSchedule 8)
      [.scheduleOneNode ⟨1, 1, 0, 2, 1⟩, .scheduleOneNode ⟨1, 2, 0, 4, 3⟩, .removeOneNode 1,
        .nodeSetNboSchDist 1 0, .clearSchedule] :=
  counted_run 8 _ (by decide)

/-! ## Half of the address space at a time -/

/-- An entry of `2 ^ 15` slots. -/
def halfEntry (startLSI : UInt16) : SchNode := ⟨1, 0, startLSI, 32768, 1⟩

/-- Behind an entry that ends at LSI 65536 the allocator goes on with LSI 1. -/
theorem smAssignLsiToNodeLoop_half (k : ℕ) :
    smAssignLsiToNodeLoop 65536 32768 (halfEntry 1)
      (List.replicate k (halfEntry 1) ++ [halfEntry 32769]) = 1 := by
  induction k with
  | zero => decide
  | succ k ih =>
    rw [List.replicate_succ, List.cons_append, smAssignLsiToNodeLoop, if_neg (by decide)]
    exact ih

/-- An entry at slot 1 goes before those that are there. -/
theorem orderedInsert_half (k : ℕ) :
    (List.replicate k (halfEntry 1) ++ [halfEntry 32769]).orderedInsert SchNode.StartsBefore
      (halfEntry 1) = List.replicate (k + 1) (halfEntry 1) ++ [halfEntry 32769] := by
  induction k with
  | zero => decide
  | succ k ih =>
    rw [List.replicate_succ, List.cons_append, List.orderedInsert_cons, if_neg (by decide), ih]
    rfl

/-- A request for `2 ^ 15` slots is always granted, from LSI 1 on. -/
theorem smScheduleOneNode_half {k : ℕ} (hT : list.nboTotSlots = 65536)
    (hnodes : list.nodes = List.replicate (k + 1) (halfEntry 1) ++ [halfEntry 32769]) :
    (smScheduleOneNode list (halfEntry 0)).2.nboTotSlots = 65536 ∧
      (smScheduleOneNode list (halfEntry 0)).2.nodes
        = List.replicate (k + 2) (halfEntry 1) ++ [halfEntry 32769] := by
  have hlsi : smAssignLsiToNode list (halfEntry 0).slotDemand = 1 := by
    rw [smAssignLsiToNode, hnodes, List.replicate_succ, List.cons_append]
    simp only [hT]
    exact (if_neg (by decide)).trans (smAssignLsiToNodeLoop_half k)
  rcases smScheduleOneNode_cases list (halfEntry 0) with ⟨hzero, -⟩ | ⟨-, heq⟩
  · rw [hlsi] at hzero
    exact absurd hzero (by decide)
  · rw [heq, hlsi]
    refine ⟨hT, ?_⟩
    rw [smAddNodeToScheduleList, hnodes]
    exact orderedInsert_half (k + 1)

/-- By induction over the calls: each puts one more entry of 32768 slots at slot 1. -/
theorem run_half (n : ℕ) {k : ℕ} (hT : list.nboTotSlots = 65536)
    (hnodes : list.nodes = List.replicate (k + 1) (halfEntry 1) ++ [halfEntry 32769]) :
    ∃ list', Runs.run SmOp.step list (List.replicate n (.scheduleOneNode (halfEntry 0)))
      = some list' ∧
        list'.nodes = List.replicate (k + 1 + n) (halfEntry 1) ++ [halfEntry 32769] := by
  induction n generalizing list k with
  | zero => exact ⟨list, rfl, hnodes⟩
  | succ n ih =>
    obtain ⟨hT', hnodes'⟩ := smScheduleOneNode_half hT hnodes
    rw [List.replicate_succ, Runs.run_cons rfl]
    obtain ⟨list', hrun, hlist'⟩ := ih hT' hnodes'
    exact ⟨list', hrun, by rw [hlist', Nat.add_right_comm, Nat.add_assoc]⟩

/-- What `n + 2` requests from the start are refuted by. -/
theorem not_always_half (n : ℕ) {Q : SchList → Prop} (hQ : ∀ list : SchList,
      list.nodes = List.replicate (n + 1) (halfEntry 1) ++ [halfEntry 32769] → ¬ Q list) :
    ¬ Runs.Always SmOp.step Q (smInitSchedule 65536)
      (List.replicate (n + 2) (.scheduleOneNode (halfEntry 0))) := by
  intro H
  obtain ⟨list, hrun, hlist⟩ := H.last
  rw [List.replicate_succ, List.replicate_succ, Runs.run_cons rfl, Runs.run_cons rfl] at hrun
  obtain ⟨list', hrun', hnodes⟩ := @run_half (smScheduleOneNode
    (smScheduleOneNode (smInitSchedule 65536) (halfEntry 0)).2 (halfEntry 0)).2 n 0 rfl rfl
  obtain rfl := Option.some.inj (hrun.symm.trans hrun')
  rw [Nat.zero_add, Nat.add_comm] at hnodes
  exact hQ list hnodes hlist

theorem totalDemand_half (k : ℕ) :
    totalDemand (List.replicate k (halfEntry 1) ++ [halfEntry 32769]) = (k + 1) * 32768 := by
  rw [totalDemand, List.map_append, List.map_replicate, List.sum_append, List.sum_replicate,
    smul_eq_mul, Nat.succ_mul]
  rfl

/-- How many of them are to be distributed. -/
theorem pendingCount_half (k : ℕ) :
    pendingCount (List.replicate k (halfEntry 1) ++ [halfEntry 32769]) = k + 1 := by
  rw [pendingCount, List.countP_append, List.countP_replicate, if_pos (by decide)]
  rfl

/-- **Every counter wraps around**: `nboAsgSlots` is 0 after `2 ^ 17` requests of `2 ^ 15` slots
each, the two others are after `2 ^ 32` of them. -/
theorem not_exact_wrapped : SmOp.Distributes (.scheduleOneNode (halfEntry 0)) ∧
    ¬ Runs.Always SmOp.step (fun list => list.nboAsgSlots.toNat = totalDemand list.nodes)
      (smInitSchedule 65536) (List.replicate 131072 (.scheduleOneNode (halfEntry 0))) ∧
    ¬ Runs.Always SmOp.step (fun list => list.nboNode.toNat = list.nodes.length)
      (smInitSchedule 65536) (List.replicate 4294967296 (.scheduleOneNode (halfEntry 0))) ∧
    ¬ Runs.Always SmOp.step (fun list => list.nboDistReq.toNat = pendingCount list.nodes)
      (smInitSchedule 65536) (List.replicate 4294967296 (.scheduleOneNode (halfEntry 0))) := by
  refine ⟨by decide, not_always_half 131070 fun list hnodes h => ?_,
    not_always_half 4294967294 fun list hnodes h => ?_,
    not_always_half 4294967294 fun list hnodes h => ?_⟩
  · have hlt := list.nboAsgSlots.toNat_lt
    rw [h, hnodes, totalDemand_half] at hlt
    omega
  · have hlt := list.nboNode.toNat_lt
    rw [h, hnodes, List.length_append, List.length_replicate, List.length_singleton] at hlt
    omega
  · have hlt := list.nboDistReq.toNat_lt
    rw [h, hnodes, pendingCount_half] at hlt
    omega

end LoRaGwSv
