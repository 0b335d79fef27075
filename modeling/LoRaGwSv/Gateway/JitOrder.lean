import LoRaGwSv.Gateway.Airtime
import LoRaGwSv.Machinery.Sorting

/-!
# Gateway/JitOrder — the order of the just-in-time queue

`compare` looks at the seconds first.  In case of a tie it compares microseconds with seconds, so it
knows two places for each second (`JitNode.rank`) and answers the same both ways for two packets at
one place.  The queue is in transmit order as long as no two packets share a place
(`inTransmitOrder_run`), whatever the sorting routine does with those that do.
-/

namespace LoRaGwSv

open Timeval

/-- The place of a packet in the order of `compare`. -/
def JitNode.rank (node : JitNode) : ℤ :=
  2 * node.tx_timestamp.tv_sec
    + if node.tx_timestamp.tv_usec > node.tx_timestamp.tv_sec then 1 else 0

/-- The time of `p` is not after that of `q`. -/
def JitNode.NotAfter (p q : JitNode) : Prop :=
  timercmp p.tx_timestamp q.tx_timestamp (· ≤ ·) = true

instance : DecidableRel JitNode.NotAfter := fun _ _ => inferInstanceAs (Decidable (_ = true))

/-- **The packets stand in the order of their times**, so node 0 is the earliest. -/
structure JitQueue.InTransmitOrder (queue : JitQueue) : Prop where
  ascending : queue.packets.Pairwise JitNode.NotAfter
  earliest : ∀ node ∈ queue.packets, (queue.nodes.getD 0 zeroNode).NotAfter node

/-- The queue holds the nodes of `l`, each at a place after those before it. -/
structure JitQueue.Ranked (queue : JitQueue) (l : List JitNode) : Prop where
  filled : ∃ rest, queue.Filled l rest
  ranked : l.Pairwise fun p q => p.rank < q.rank

variable {libs : JitLibs} {clock : Clock} {queue queue' : JitQueue} {l l' rest : List JitNode}
  {p q : JitNode} {i : ℕ}

/-! ## The comparison

With the seconds of today the microseconds of every packet are below them, so all packets of one
second have one place. -/

/-- **`compare` tells two packets apart exactly if they have different places.** -/
theorem before_compare_iff : Sorting.Before compare p q ↔
    p.rank < q.rank := by
  rw [Sorting.Before, compare, compare, JitNode.rank, JitNode.rank]
  split_ifs <;> omega

/-- The comparison sees the seconds, and on which side of the seconds the microseconds are. -/
theorem rank_eq_iff : p.rank = q.rank ↔
    p.tx_timestamp.tv_sec = q.tx_timestamp.tv_sec ∧
      (p.tx_timestamp.tv_usec > q.tx_timestamp.tv_sec ↔
        q.tx_timestamp.tv_usec > q.tx_timestamp.tv_sec) := by
  rw [JitNode.rank, JitNode.rank]
  split_ifs <;> omega

/-- What it ranks lower it puts first, and that is not later. -/
theorem notAfter_of_rank_lt (h : p.rank < q.rank) : p.NotAfter q := by
  rw [JitNode.rank, JitNode.rank] at h
  rw [JitNode.NotAfter, timercmp]
  split_ifs at h ⊢ <;> exact decide_eq_true (by omega)

theorem JitNode.NotAfter.refl (p : JitNode) : p.NotAfter p := by
  rw [JitNode.NotAfter, timercmp, if_pos rfl]
  exact decide_eq_true le_rfl

/-! ## The queue

The sorting routine puts no packet before another that the comparison puts after it.  Where places
differ this leaves one order only. -/

theorem ranked_jitQueueInit : jitQueueInit.Ranked [] :=
  ⟨⟨_, JitQueue.holds_iff_filled.mp holds_jitQueueInit⟩, List.Pairwise.nil⟩

/-- A ranked queue is in the order of transmission. -/
theorem JitQueue.Ranked.inTransmitOrder (h : queue.Ranked l) : queue.InTransmitOrder := by
  obtain ⟨rest, hfilled⟩ := h.filled
  have hascending := h.ranked.imp fun hlt => notAfter_of_rank_lt hlt
  refine ⟨hfilled.packets.symm ▸ hascending, fun node hnode => ?_⟩
  rw [hfilled.packets] at hnode
  rw [hfilled.nodes_eq]
  cases l with
  | nil => exact absurd hnode List.not_mem_nil
  | cons p l =>
    rcases List.mem_cons.mp hnode with rfl | hnode
    · exact JitNode.NotAfter.refl _
    · exact List.rel_of_pairwise_cons hascending hnode

/-- What is sorted and has distinct places comes out ranked. -/
theorem JitQueue.Filled.ranked (hsorts : Sorting.Sorts libs.qsort_r)
    (h : queue.Filled (libs.qsort_r compare l) rest)
    (hnodup : (l.map JitNode.rank).Nodup) :
    queue.Ranked (libs.qsort_r compare l) :=
  ⟨⟨rest, h⟩, hsorts.pairwise_key (fun _ _ => before_compare_iff.mpr) hnodup⟩

/-- No two packets of it have the same rank. -/
theorem JitQueue.Ranked.nodup (h : queue.Ranked l) :
    (l.map JitNode.rank).Nodup :=
  List.pairwise_map.mpr (h.ranked.imp LT.lt.ne)

/-- A node is replaced, wherever it is, and the queue is ranked as before. -/
theorem JitQueue.Ranked.jitReplaceNode (hsorts : Sorting.Sorts libs.qsort_r) (h : queue.Ranked l)
    (hne : l ≠ []) (hi : i < jitQueueMax) :
    ∃ queue' l', jitReplaceNode libs queue i = some queue' ∧ queue'.Ranked l' ∧
      l'.length + 1 = l.length := by
  obtain ⟨rest, hfilled⟩ := h.filled
  rcases Nat.lt_or_ge i l.length with hlt | hge
  · obtain ⟨queue', l₁, hqueue', hperm, hfilled'⟩ :=
      @JitQueue.Filled.jitReplaceNode libs _ _ _ _ hfilled hlt
    have hnodup : (l₁.map JitNode.rank).Nodup :=
      (hperm.map _).nodup_iff.mpr (h.nodup.sublist ((List.eraseIdx_sublist l i).map _))
    refine ⟨queue', _, hqueue', hfilled'.ranked hsorts hnodup, ?_⟩
    rw [(libs.qsort_r_perm compare l₁).length_eq, hperm.length_eq, List.length_eraseIdx_of_lt hlt]
    exact Nat.sub_add_cancel hlt.pos
  · obtain ⟨init, x, rfl⟩ := List.eq_nil_or_concat l |>.resolve_left hne
    rw [List.concat_eq_append] at hfilled h hge ⊢
    rw [List.length_append, List.length_singleton] at hge
    obtain ⟨queue', rest', hqueue', hfilled'⟩ :=
      @JitQueue.Filled.jitReplaceNode_past libs _ _ _ _ _ hfilled hge hi
    have hnodup : (init.map JitNode.rank).Nodup :=
      h.nodup.sublist ((List.sublist_append_left init [x]).map _)
    refine ⟨queue', _, hqueue', hfilled'.ranked hsorts hnodup, ?_⟩
    rw [(libs.qsort_r_perm compare init).length_eq, List.length_append, List.length_singleton]

/-- A purge sorts again whenever it has taken a packet out. -/
theorem JitQueue.Ranked.jitPurge (hsorts : Sorting.Sorts libs.qsort_r) (h : queue.Ranked l)
    (hi : i ≤ 1) (ticks : ℕ) :
    ∃ queue' ticks' l', jitPurge libs clock l.length i queue ticks = some (queue', ticks') ∧
      queue'.Ranked l' := by
  generalize hn : l.length = n
  induction n generalizing queue l i ticks with
  | zero => exact ⟨queue, ticks, l, rfl, h⟩
  | succ n ih =>
    rw [LoRaGwSv.jitPurge]
    split
    case h_1 => exact ⟨_, _, l, rfl, h⟩
    case h_2 j ticks' hscan =>
      obtain ⟨-, hj, -⟩ := jitFindOutdated_some hscan
      obtain ⟨rest, hfilled⟩ := h.filled
      have hlen := hfilled.length_eq
      obtain ⟨queue₁, l₁, hqueue₁, h₁, hlen₁⟩ := JitQueue.Ranked.jitReplaceNode hsorts h
        (List.ne_nil_of_length_eq_add_one hn) (show j < jitQueueMax by omega)
      rw [hqueue₁, Option.bind_some]
      exact ih h₁ le_rfl ticks' (by omega)

theorem JitQueue.Ranked.jitPeek (hsorts : Sorting.Sorts libs.qsort_r) (h : queue.Ranked l)
    (ticks : ℕ) :
    ∃ queue' idx ticks' l', jitPeek libs clock queue ticks = some (queue', idx, ticks') ∧
      queue'.Ranked l' := by
  obtain ⟨rest, hfilled⟩ := h.filled
  obtain ⟨queue', ticks', l', hpurge, hranked⟩ :=
    @JitQueue.Ranked.jitPurge libs clock _ _ _ hsorts h (Nat.zero_le 1) ticks
  rw [LoRaGwSv.jitPeek, hfilled.num_eq, hpurge, Option.map_some]
  exact ⟨_, _, _, l', rfl, hranked⟩

/-- **A packet whose place is free is sorted in.** -/
theorem JitQueue.Ranked.jitEnqueue (hsorts : Sorting.Sorts libs.qsort_r) (h : queue.Ranked l)
    (hroom : l.length ≠ jitQueueMax) (time : Timeval) (packet : LgwPktTx) (pkt_type : JitPktType)
    (ticks : ℕ)
    (hfree : Admitted libs clock queue time packet ticks →
      ∀ node ∈ l, node.rank ≠ (newNode libs time packet pkt_type).rank) :
    ∃ err queue' ticks' l', jitEnqueue libs clock queue time packet pkt_type ticks
      = some (err, queue', ticks') ∧ queue'.Ranked l' := by
  obtain ⟨rest, hfilled⟩ := h.filled
  obtain ⟨x, rest, rfl⟩ : ∃ x rest', rest = x :: rest' := by
    have hlen := hfilled.length_eq
    exact List.exists_cons_of_length_pos (by omega)
  obtain ⟨err, queue', ticks', henqueue, -, rfl | ⟨hadmitted, hfilled'⟩⟩ :=
    @JitQueue.Filled.jitEnqueue libs clock _ _ _ _ hfilled time packet pkt_type ticks
  · exact ⟨err, queue', ticks', l, henqueue, h⟩
  · refine ⟨err, queue', ticks', _, henqueue, hfilled'.ranked hsorts ?_⟩
    rw [List.map_append, List.nodup_append]
    refine ⟨h.nodup, List.nodup_singleton _, ?_⟩
    rintro _ hr _ hs rfl
    obtain ⟨node, hnode, hrank⟩ := List.mem_map.mp hr
    exact hfree hadmitted node hnode (hrank.trans (List.mem_singleton.mp hs))

/-! ## Any sequence of calls -/

/-- A call of `jit_enqueue`, `jit_peek` or `jit_dequeue`, the last with any index. -/
inductive JitCall
  | enqueue (time : Timeval) (packet : LgwPktTx) (pkt_type : JitPktType)
  | peek
  | dequeue (index : ℤ)

/-- A call made while no other is. -/
def JitCall.step (libs : JitLibs) (clock : Clock) (s : JitState) : JitCall → Option JitState
  | .enqueue time packet pkt_type => (JitOp.enqueue time packet pkt_type).step libs clock s
  | .peek => JitOp.peek.step libs clock s
  | .dequeue index =>
    if index < 0 ∨ index ≥ jitQueueMax then some s
    else if jitQueueIsEmpty s.queue then some s
    else (jitDequeue libs s.queue index.toNat).map fun (_, queue) => { s with queue := queue }

/-- **What keeps the queue in order**: a packet that is let in is told apart from those queued.
None of them is of the same second, unless the microseconds of exactly one are above it. -/
def JitCall.ToldApart (libs : JitLibs) (clock : Clock) (s : JitState) : JitCall → Prop
  | .enqueue time packet _ =>
    jitQueueIsFull s.queue = false → Admitted libs clock s.queue time packet s.ticks →
      ∀ node ∈ s.queue.packets, node.tx_timestamp.tv_sec = time.tv_sec →
        ¬ (node.tx_timestamp.tv_usec > time.tv_sec ↔ time.tv_usec > time.tv_sec)
  | .peek => True
  | .dequeue _ => True

instance Admitted.decidable (libs : JitLibs) (clock : Clock) (queue : JitQueue) (time : Timeval)
    (packet : LgwPktTx) (ticks : ℕ) : Decidable (Admitted libs clock queue time packet ticks) :=
  decidable_of_iff (_ ∧ _ ∧ _) ⟨fun h => ⟨h.1, h.2.1, h.2.2⟩, fun h => ⟨h.1, h.2, h.3⟩⟩

instance (libs : JitLibs) (clock : Clock) (s : JitState) (call : JitCall) :
    Decidable (call.ToldApart libs clock s) :=
  match call with
  | .enqueue _ _ _ => inferInstanceAs (Decidable (_ → _ → ∀ node ∈ _, _ → _))
  | .peek => isTrue trivial
  | .dequeue _ => isTrue trivial

/-- **Each call keeps the queue ranked**, as long as a packet that is admitted can be told apart. -/
theorem JitQueue.Ranked.step (hsorts : Sorting.Sorts libs.qsort_r) {s : JitState}
    (h : s.queue.Ranked l) {call : JitCall} (hcall : call.ToldApart libs clock s) :
    ∃ t, call.step libs clock s = some t ∧ ∃ l', t.queue.Ranked l' := by
  obtain ⟨rest, hfilled⟩ := h.filled
  cases call with
  | enqueue time packet pkt_type =>
    rw [JitCall.step, JitOp.step]
    split
    case isTrue => exact ⟨s, rfl, l, h⟩
    case isFalse hfull =>
      have hfree : Admitted libs clock s.queue time packet s.ticks →
          ∀ node ∈ l, node.rank ≠ (newNode libs time packet pkt_type).rank := by
        intro hadmitted node hnode hrank
        obtain ⟨hsec, husec⟩ := rank_eq_iff.mp hrank
        exact hcall (Bool.not_eq_true _ ▸ hfull) hadmitted node
          (hfilled.packets.symm ▸ hnode) hsec husec
      obtain ⟨err, queue', ticks', l', henqueue, hranked⟩ := JitQueue.Ranked.jitEnqueue hsorts h
        (hfilled.jitQueueIsFull_iff.not.mp hfull) time packet pkt_type s.ticks hfree
      rw [henqueue]
      exact ⟨_, rfl, l', hranked⟩
  | peek =>
    rw [JitCall.step, JitOp.step]
    split
    case isTrue => exact ⟨s, rfl, l, h⟩
    case isFalse =>
      obtain ⟨queue', idx, ticks', l', hpeek, hranked⟩ :=
        @JitQueue.Ranked.jitPeek libs clock _ _ hsorts h s.ticks
      rw [hpeek]
      exact ⟨_, rfl, l', hranked⟩
  | dequeue index =>
    rw [JitCall.step]
    split
    case isTrue => exact ⟨s, rfl, l, h⟩
    case isFalse hindex =>
      split
      case isTrue => exact ⟨s, rfl, l, h⟩
      case isFalse hempty =>
        have hmax : jitQueueMax = 32 := rfl
        obtain ⟨queue', l', hqueue', hranked, -⟩ := JitQueue.Ranked.jitReplaceNode hsorts h
          (hfilled.jitQueueIsEmpty_iff.not.mp hempty) (show index.toNat < jitQueueMax by omega)
        rw [jitDequeue, hqueue']
        exact ⟨_, rfl, l', hranked⟩

/-- **The queue is in transmit order as long as packets are told apart**, whatever is called and
whatever the clock tells. -/
theorem inTransmitOrder_run (libs : JitLibs) (hsorts : Sorting.Sorts libs.qsort_r) (clock : Clock)
    (calls : List JitCall)
    (hcalls : Runs.EachStep (JitCall.step libs clock) (JitCall.ToldApart libs clock) JitState.init
      calls) :
    Runs.Always (JitCall.step libs clock) (fun s => s.queue.InTransmitOrder) JitState.init
      calls := by
  have hstep : ∀ s call, (∃ l, JitQueue.Ranked (JitState.queue s) l) →
      JitCall.ToldApart libs clock s call →
      ∃ t, JitCall.step libs clock s call = some t ∧ ∃ l, t.queue.Ranked l := by
    rintro s call ⟨l, h⟩ hcall
    exact h.step hsorts hcall
  refine (Runs.always_of_eachStep hstep ⟨[], ranked_jitQueueInit⟩ calls hcalls).imp ?_
  rintro s ⟨l, h⟩
  exact h.inTransmitOrder

/-- Insertion sort stands in for `qsort_r`. -/
theorem sorts_someLibs : Sorting.Sorts someLibs.qsort_r := Sorting.sorts_insertionSort

/-- A clock that stands still one second before a round number. -/
def roundClock : Clock := .fixed ⟨1699999999, 0⟩ (by decide)

/-- Packets of two seconds, the later one first. -/
theorem inTransmitOrder_run_two : Runs.Always (JitCall.step someLibs roundClock)
    (fun s => s.queue.InTransmitOrder) JitState.init
    [.enqueue ⟨1700000001, 0⟩ zeroPkt .downlink, .enqueue ⟨1700000000, 200000⟩ zeroPkt .downlink,
      .peek, .dequeue 1, .dequeue 0] :=
  inTransmitOrder_run someLibs sorts_someLibs roundClock _
    (Runs.eachStep_of_checkEach _ (by decide +kernel))

/-- **Two slots of one second**: the packet at 0 ms stays behind the one at 200 ms. -/
theorem not_inTransmitOrder_slots : Sorting.Sorts someLibs.qsort_r ∧
    ¬ Runs.Always (JitCall.step someLibs roundClock) (fun s => s.queue.InTransmitOrder)
      JitState.init
      [.enqueue ⟨1700000000, 200000⟩ zeroPkt .downlink,
        .enqueue ⟨1700000000, 0⟩ zeroPkt .downlink] :=
  ⟨sorts_someLibs, Runs.not_always_of_last _ (fun _ h => h.ascending) (by decide +kernel)⟩

end LoRaGwSv
