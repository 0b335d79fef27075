import LoRaGwSv.Gateway.JitOrder

/-!
# Gateway/JitPeek — what a peek purges

With the clock standing still and a sorting routine that keeps the queue in transmit order, the
missed packets stand in front.  The purge finds the first, and goes on behind node 0; from then on
it leaves one missed packet standing (`jitPurge_fixed`).  So a peek purges what it should if at most
one packet is missed, and another is left to look at (`peeksCleanly_iff`).
-/

namespace LoRaGwSv

open Timeval

/-- The time of the packet has passed. -/
def JitNode.missed (now : Timeval) (node : JitNode) : Bool :=
  timercmp now node.tx_timestamp (· > ·)

/-- What a peek gives back: its error, the queue, `*pkt_idx`, and the clock readings so far. -/
structure JitPeeked where
  err : JitError
  queue : JitQueue
  pkt_idx : ℤ
  ticks : ℕ
deriving DecidableEq

/-- A call of `jit_peek` made while no other is. -/
def jitPeekCall (libs : JitLibs) (clock : Clock) (queue : JitQueue) (pkt_idx : ℤ) (ticks : ℕ) :
    Option JitPeeked :=
  if jitQueueIsEmpty queue then some ⟨.empty, queue, pkt_idx, ticks⟩
  else (jitPeek libs clock queue ticks).map fun (queue, pkt_idx, ticks) =>
    ⟨.ok, queue, pkt_idx, ticks⟩

/-- A packet is left, and the earliest is less than 500 µs ahead. -/
def JitQueue.Ready (queue : JitQueue) (now : Timeval) : Prop :=
  ∃ node ∈ queue.packets, (∀ other ∈ queue.packets, node.NotAfter other) ∧
    node.tx_timestamp.micros < now.micros + 500

/-- **The peek has purged the missed packets and no others**, and gives the index of a packet that
is ready. -/
structure JitPeeked.Cleanly (r : JitPeeked) (queue : JitQueue) (now : Timeval) : Prop where
  kept : r.queue.packets.Perm (queue.packets.filter fun node => ¬ node.missed now)
  selected : r.err = .ok ∧ r.pkt_idx = 0 ↔ r.queue.Ready now
  unselected : ¬ r.queue.Ready now → r.pkt_idx = -1

/-- **What a peek needs to purge cleanly**: at most one packet is missed, and it is not the only
one, or the clock is before the epoch.  An empty queue leaves `*pkt_idx` as it was. -/
structure JitQueue.Purgeable (queue : JitQueue) (now : Timeval) (pkt_idx : ℤ) : Prop where
  one : queue.packets.countP (JitNode.missed now) ≤ 1
  others : queue.packets.length = 1 → queue.packets.countP (JitNode.missed now) = 1 →
    now.micros ≤ -500
  idle : queue.packets = [] → pkt_idx = -1

variable {libs : JitLibs} {now : Timeval} {hnow : now.Normalised} {queue queue' : JitQueue}
  {l l₁ rest : List JitNode} {p q x : JitNode} {n j ticks ticks' : ℕ}

/-! ## Missed packets

In a queue that is in order the missed packets stand in front of the others, and taking one out
leaves it so. -/

/-- A packet that is not after one that is missed is missed, too. -/
theorem JitNode.NotAfter.missed (h : p.NotAfter q) (hq : q.missed now = true) :
    p.missed now = true := by
  rw [JitNode.NotAfter, timercmp] at h
  rw [JitNode.missed, timercmp] at hq ⊢
  split_ifs at h hq ⊢ <;> rw [decide_eq_true_iff] at * <;> omega

/-- Packets of which neither is after the other are for the same time. -/
theorem JitNode.NotAfter.micros_eq (h : p.NotAfter q) (h' : q.NotAfter p) :
    p.tx_timestamp.micros = q.tx_timestamp.micros := by
  rw [JitNode.NotAfter, timercmp] at h h'
  rw [micros, micros]
  split_ifs at h h' <;> rw [decide_eq_true_iff] at * <;> omega

/-- Taking a missed packet away makes one less of them, and keeps the others. -/
theorem missed_eraseIdx (hperm : l₁.Perm (l.eraseIdx j)) (hj : j < l.length)
    (hmissed : l[j].missed now = true) :
    l.countP (JitNode.missed now) = l₁.countP (JitNode.missed now) + 1 ∧
      (l₁.filter fun node => ¬ node.missed now).Perm (l.filter fun node => ¬ node.missed now) := by
  have hl : l.Perm (l[j] :: l₁) :=
    (List.getElem_cons_eraseIdx_perm hj).symm.trans (hperm.symm.cons _)
  constructor
  · rw [hl.countP_eq, List.countP_cons_of_pos hmissed]
  · refine ((hl.filter _).trans ?_).symm
    rw [List.filter_cons_of_neg (by simp [hmissed])]

/-- If a packet behind node 0 is missed, node 0 is. -/
theorem two_le_countP_missed (hsorted : l.Pairwise JitNode.NotAfter) (hpos : 0 < j)
    (hj : j < l.length) (hmissed : l[j].missed now = true) :
    2 ≤ l.countP (JitNode.missed now) := by
  cases l with
  | nil => exact absurd hj (Nat.not_lt_zero j)
  | cons p l =>
    obtain ⟨k, rfl⟩ := Nat.exists_eq_add_one.mpr hpos
    have hk : k < l.length := Nat.lt_of_succ_lt_succ hj
    have hmem : l[k] ∈ l := List.getElem_mem hk
    have hp := (List.rel_of_pairwise_cons hsorted hmem).missed hmissed
    rw [List.countP_cons_of_pos hp]
    exact Nat.succ_le_succ (List.countP_pos_iff.mpr ⟨_, hmem, hmissed⟩)

/-! ## The purge

The loop starts at node 0.  Once it has dropped a packet it sets its index to 0 and counts it up, so
it never looks at node 0 again: what stands there next stays, missed or not. -/

/-- What the purge of `l` leaves: `l'`, in order, with all that is not missed. -/
structure JitQueue.Purged (queue : JitQueue) (now : Timeval) (l l' : List JitNode) : Prop where
  filled : ∃ rest, queue.Filled l' rest
  sorted : l'.Pairwise JitNode.NotAfter
  fresh : (l'.filter fun node => ¬ node.missed now).Perm (l.filter fun node => ¬ node.missed now)

/-- Taking a missed packet out, with a routine that restores the order. -/
theorem JitQueue.Filled.jitReplaceNode_missed
    (hsort : ∀ l, (libs.qsort_r compare l).Pairwise JitNode.NotAfter) (h : queue.Filled l rest)
    (hj : j < l.length) (hmissed : l[j].missed now = true) :
    ∃ queue' l', LoRaGwSv.jitReplaceNode libs queue j = some queue' ∧
      queue'.Filled l' (zeroNode :: rest) ∧ queue'.Purged now l l' ∧ l'.length + 1 = l.length ∧
      l.countP (JitNode.missed now) = l'.countP (JitNode.missed now) + 1 := by
  obtain ⟨queue', l₁, hqueue', hperm, hfilled⟩ :=
    @JitQueue.Filled.jitReplaceNode libs _ _ _ _ h hj
  have hperm := (libs.qsort_r_perm compare l₁).trans hperm
  obtain ⟨hcount, hfresh⟩ := missed_eraseIdx hperm hj hmissed
  refine ⟨queue', _, hqueue', hfilled, ⟨⟨_, hfilled⟩, hsort l₁, hfresh⟩, ?_, hcount⟩
  rw [hperm.length_eq, List.length_eraseIdx_of_lt hj, Nat.sub_add_cancel hj.pos]

/-- The search finds no missed packet where there is none. -/
theorem JitQueue.Filled.countP_of_scan (h : queue.Filled l rest) {i : ℕ}
    (hscan : jitFindOutdated (.fixed now hnow) queue.nodes (l.length - i) i ticks
      = (none, ticks')) : (l.drop i).countP (JitNode.missed now) = 0 := by
  refine List.countP_eq_zero.mpr fun node hnode hmissed => ?_
  obtain ⟨k, hk, rfl⟩ := List.getElem_of_mem hnode
  rw [List.length_drop] at hk
  rw [List.getElem_drop] at hmissed
  refine jitFindOutdated_none hscan k hk ?_
  rw [h.getD_nodes (by omega)]
  exact hmissed

theorem JitQueue.Filled.missed_of_scan (h : queue.Filled l rest) {i : ℕ} (hi : i ≤ l.length)
    (hscan : jitFindOutdated (.fixed now hnow) queue.nodes (l.length - i) i ticks
      = (some j, ticks')) : i ≤ j ∧ ∃ hj : j < l.length, l[j].missed now = true := by
  obtain ⟨hij, hj, _, _, _, hout⟩ := jitFindOutdated_some hscan
  have hj : j < l.length := by omega
  rw [h.getD_nodes hj] at hout
  exact ⟨hij, hj, hout⟩

/-- **Behind node 0 the purge stops at one missed packet**, if there is one. -/
theorem jitPurge_behind (hsort : ∀ l, (libs.qsort_r compare l).Pairwise JitNode.NotAfter)
    (h : queue.Filled l rest) (hsorted : l.Pairwise JitNode.NotAfter) (hne : l ≠ [])
    (ticks : ℕ) :
    ∃ queue' ticks' l', jitPurge libs (.fixed now hnow) l.length 1 queue ticks
        = some (queue', ticks') ∧ queue'.Purged now l l' ∧ l' ≠ [] ∧
      l'.countP (JitNode.missed now) = min 1 (l.countP (JitNode.missed now)) := by
  generalize hn : l.length = n
  induction n generalizing queue l rest ticks with
  | zero => exact absurd (List.length_eq_zero_iff.mp hn) hne
  | succ n ih =>
    rw [jitPurge]
    split
    case h_1 ticks' hscan =>
      refine ⟨queue, ticks', l, rfl, ⟨⟨rest, h⟩, hsorted, List.Perm.refl _⟩, hne, ?_⟩
      rw [← hn] at hscan
      have hbehind := h.countP_of_scan hscan
      -- node 0 is not looked at, and no other is missed
      obtain ⟨p, l, rfl⟩ := List.exists_cons_of_ne_nil hne
      rw [List.drop_succ_cons, List.drop_zero] at hbehind
      rw [List.countP_cons, hbehind]
      split <;> rfl
    case h_2 j ticks' hscan =>
      rw [← hn] at hscan
      obtain ⟨hpos, hj, hmissed⟩ := h.missed_of_scan (by omega) hscan
      have htwo := two_le_countP_missed hsorted hpos hj hmissed
      obtain ⟨queue₁, l₁, hqueue₁, h₁, hpurged₁, hlen₁, hcount₁⟩ :=
        h.jitReplaceNode_missed hsort hj hmissed
      have hne₁ : l₁ ≠ [] := List.ne_nil_of_length_pos (by omega)
      obtain ⟨queue₂, ticks₂, l₂, hpurge, hpurged₂, hne₂, hcount₂⟩ :=
        ih h₁ hpurged₁.sorted hne₁ ticks' (by omega)
      rw [hqueue₁, Option.bind_some]
      refine ⟨queue₂, ticks₂, l₂, hpurge, ?_, hne₂, by omega⟩
      exact ⟨hpurged₂.filled, hpurged₂.sorted, hpurged₂.fresh.trans hpurged₁.fresh⟩

/-- **The purge leaves a missed packet if there are two**, and a wiped node 0 if it leaves none. -/
theorem jitPurge_fixed (hsort : ∀ l, (libs.qsort_r compare l).Pairwise JitNode.NotAfter)
    (h : queue.Filled l rest) (hsorted : l.Pairwise JitNode.NotAfter) (hne : l ≠ [])
    (ticks : ℕ) :
    ∃ queue' ticks' l', jitPurge libs (.fixed now hnow) l.length 0 queue ticks
        = some (queue', ticks') ∧ queue'.Purged now l l' ∧
      (l' = [] → queue'.nodes.getD 0 zeroNode = zeroNode) ∧
      l'.countP (JitNode.missed now) = min 1 (l.countP (JitNode.missed now) - 1) := by
  obtain ⟨n, hn⟩ := Nat.exists_eq_add_one.mpr (List.length_pos_iff.mpr hne)
  rw [hn, jitPurge]
  split
  case h_1 ticks' hscan =>
    rw [← hn] at hscan
    have hnone := h.countP_of_scan hscan
    rw [List.drop_zero] at hnone
    refine ⟨queue, ticks', l, rfl, ⟨⟨rest, h⟩, hsorted, List.Perm.refl _⟩, fun hnil => ?_, ?_⟩
    · exact absurd hnil hne
    · rw [hnone]
      rfl
  case h_2 j ticks' hscan =>
    rw [← hn] at hscan
    obtain ⟨-, hj, hmissed⟩ := h.missed_of_scan (Nat.zero_le _) hscan
    obtain ⟨queue₁, l₁, hqueue₁, h₁, hpurged₁, hlen₁, hcount₁⟩ :=
      h.jitReplaceNode_missed hsort hj hmissed
    obtain rfl : n = l₁.length := by omega
    rw [hqueue₁, Option.bind_some, hcount₁, Nat.add_sub_cancel]
    rcases eq_or_ne l₁ [] with rfl | hne₁
    · refine ⟨queue₁, ticks', [], rfl, hpurged₁, fun _ => ?_, rfl⟩
      rw [h₁.nodes_eq]
      rfl
    · obtain ⟨queue₂, ticks₂, l₂, hpurge, hpurged₂, hne₂, hcount₂⟩ :=
        jitPurge_behind hsort h₁ hpurged₁.sorted hne₁ ticks'
      refine ⟨queue₂, ticks₂, l₂, hpurge, ?_, fun hnil => absurd hnil hne₂, hcount₂⟩
      exact ⟨hpurged₂.filled, hpurged₂.sorted, hpurged₂.fresh.trans hpurged₁.fresh⟩

/-! ## The peek

What the purge leaves decides both parts of the result: if a missed packet is left it stands at node
0, and is the one that is looked at. -/

theorem jitPeek_of_purge (hpurge : jitPurge libs (.fixed now hnow) queue.num_pkt.toNat 0 queue ticks
      = some (queue', ticks')) :
    jitPeek libs (.fixed now hnow) queue ticks = some (queue',
      if (queue'.nodes.getD 0 zeroNode).tx_timestamp.micros < now.micros + 500 then 0 else -1,
      ticks' + 1) := by
  have hsub := micros_timersub (queue'.nodes.getD 0 zeroNode).tx_timestamp now
  have hlt : (timersub (queue'.nodes.getD 0 zeroNode).tx_timestamp now).micros
        < txDeviationThreshold
      ↔ (queue'.nodes.getD 0 zeroNode).tx_timestamp.micros < now.micros + 500 := by
    rw [hsub, show txDeviationThreshold = 500 from rfl]
    omega
  rw [jitPeek, hpurge, Option.map_some]
  exact congrArg (fun idx => some (queue', idx, ticks' + 1)) (if_congr hlt rfl rfl)

theorem JitQueue.Filled.ready_iff (h : queue.Filled (x :: l) rest)
    (hsorted : (x :: l).Pairwise JitNode.NotAfter) :
    queue.Ready now ↔
      (queue.nodes.getD 0 zeroNode).tx_timestamp.micros < now.micros + 500 := by
  rw [JitQueue.Ready, h.packets, h.nodes_eq]
  have hfirst : ∀ other ∈ x :: l, x.NotAfter other := by
    rw [List.forall_mem_cons]
    exact ⟨.refl x, fun other => List.rel_of_pairwise_cons hsorted⟩
  constructor
  · rintro ⟨node, hnode, hall, hlt⟩
    exact (hall x List.mem_cons_self).micros_eq (hfirst node hnode) ▸ hlt
  · exact fun hlt => ⟨x, List.mem_cons_self, hfirst, hlt⟩

/-- An empty queue has nothing that is ready. -/
theorem JitQueue.not_ready_of_nil (h : queue.packets = []) : ¬ queue.Ready now := by
  rintro ⟨node, hnode, -⟩
  exact absurd (h ▸ hnode) List.not_mem_nil

/-- What is left is what is not missed, if that leaves no missed packet. -/
theorem JitQueue.Purged.perm_iff {l' : List JitNode} (h : queue.Purged now l l') :
    l'.Perm (l.filter fun node => ¬ node.missed now) ↔ l'.countP (JitNode.missed now) = 0 := by
  constructor
  · intro hperm
    rw [hperm.countP_eq]
    exact List.countP_eq_zero.mpr fun node hnode => by simpa using (List.mem_filter.mp hnode).2
  · intro hzero
    have hall : ∀ node ∈ l', decide ¬ node.missed now = true := fun node hnode =>
      decide_eq_true (List.countP_eq_zero.mp hzero node hnode)
    have hfresh := h.fresh
    rwa [List.filter_eq_self.mpr hall] at hfresh

/-- The purge leaves nothing exactly if all packets are missed, and that is one. -/
theorem JitQueue.Purged.eq_nil_iff {l' : List JitNode} (h : queue.Purged now l l') (hne : l ≠ [])
    (hone : l.countP (JitNode.missed now) ≤ 1) (hzero : l'.countP (JitNode.missed now) = 0) :
    l' = [] ↔ l.length = 1 ∧ l.countP (JitNode.missed now) = 1 := by
  have hpos : 0 < l.length := List.length_pos_iff.mpr hne
  have hlen := (h.perm_iff.mpr hzero).length_eq
  have hsplit := List.length_eq_countP_add_countP (JitNode.missed now) (l := l)
  rw [← List.countP_eq_length_filter] at hlen
  rw [← List.length_eq_zero_iff]
  constructor <;> intro <;> omega

/-- A peek into a queue that is not empty. -/
theorem jitPeekCall_of_ne_nil (hsort : ∀ l, (libs.qsort_r compare l).Pairwise JitNode.NotAfter)
    (h : queue.Filled l rest) (hsorted : l.Pairwise JitNode.NotAfter) (hne : l ≠ [])
    (pkt_idx : ℤ) (ticks : ℕ) :
    ∃ queue' ticks' l', jitPeekCall libs (.fixed now hnow) queue pkt_idx ticks = some ⟨.ok, queue',
        if (queue'.nodes.getD 0 zeroNode).tx_timestamp.micros < now.micros + 500 then 0 else -1,
        ticks'⟩ ∧
      queue'.Purged now l l' ∧ (l' = [] → queue'.nodes.getD 0 zeroNode = zeroNode) ∧
      l'.countP (JitNode.missed now) = min 1 (l.countP (JitNode.missed now) - 1) := by
  obtain ⟨queue', ticks', l', hpurge, hpurged, hnil, hcount⟩ :=
    @jitPurge_fixed libs now hnow _ _ _ hsort h hsorted hne ticks
  rw [← h.num_eq] at hpurge
  refine ⟨queue', ticks' + 1, l', ?_, hpurged, hnil, hcount⟩
  rw [jitPeekCall, if_neg (h.jitQueueIsEmpty_iff.not.mpr hne), jitPeek_of_purge hpurge,
    Option.map_some]

/-- What the peek finds at node 0 tells whether a packet is ready. -/
theorem JitQueue.Purged.ready_iff {l' : List JitNode} (h : queue.Purged now l l')
    (hwiped : l' = [] →
      ¬ (queue.nodes.getD 0 zeroNode).tx_timestamp.micros < now.micros + 500) :
    queue.Ready now ↔
      (queue.nodes.getD 0 zeroNode).tx_timestamp.micros < now.micros + 500 := by
  obtain ⟨rest, hfilled⟩ := h.filled
  cases l' with
  | nil =>
    exact ⟨fun hready => absurd hready (JitQueue.not_ready_of_nil hfilled.packets),
      fun hlt => absurd hlt (hwiped rfl)⟩
  | cons x l' => exact hfilled.ready_iff h.sorted

/-- An empty queue is left as it is, and so is `*pkt_idx`. -/
theorem cleanly_empty_iff (hnil : queue.packets = []) (pkt_idx : ℤ) (ticks : ℕ) :
    JitPeeked.Cleanly ⟨.empty, queue, pkt_idx, ticks⟩ queue now ↔
      queue.Purgeable now pkt_idx := by
  have hready := @JitQueue.not_ready_of_nil now _ hnil
  constructor
  · intro hclean
    exact ⟨by simp [hnil], by simp [hnil], fun _ => hclean.unselected hready⟩
  · intro hfits
    refine ⟨by simp [hnil], ?_, fun _ => hfits.idle hnil⟩
    exact ⟨fun hok => absurd (show JitError.empty = .ok from hok.1) (by decide),
      fun hyes => absurd hyes hready⟩

/-- What is left of a queue that was not empty. -/
theorem JitQueue.Purged.cleanly_iff {l' : List JitNode} (h : queue'.Purged now queue.packets l')
    (hne : queue.packets ≠ [])
    (hwiped : l' = [] → queue'.nodes.getD 0 zeroNode = zeroNode)
    (hcount : l'.countP (JitNode.missed now)
      = min 1 (queue.packets.countP (JitNode.missed now) - 1)) (pkt_idx : ℤ) (ticks : ℕ) :
    JitPeeked.Cleanly ⟨.ok, queue',
      if (queue'.nodes.getD 0 zeroNode).tx_timestamp.micros < now.micros + 500 then 0 else -1,
      ticks⟩ queue now ↔ queue.Purgeable now pkt_idx := by
  obtain ⟨rest, hfilled⟩ := h.filled
  have hepoch : zeroNode.tx_timestamp.micros = 0 := rfl
  constructor
  · intro hclean
    have hzero : l'.countP (JitNode.missed now) = 0 := by
      rw [← h.perm_iff, ← hfilled.packets]
      exact hclean.kept
    refine ⟨by omega, fun hlength hone => ?_, fun hnil => absurd hnil hne⟩
    -- the queue is empty now, and node 0 is not ahead of the clock
    have hnil := (h.eq_nil_iff hne hone.le hzero).mpr ⟨hlength, hone⟩
    have hidx := hclean.unselected (JitQueue.not_ready_of_nil (hfilled.packets.trans hnil))
    dsimp only at hidx
    rw [hwiped hnil, hepoch] at hidx
    split at hidx
    case isTrue => exact absurd hidx (by decide)
    case isFalse => omega
  · intro hfits
    have hone := hfits.one
    have hzero : l'.countP (JitNode.missed now) = 0 := by omega
    have hready := h.ready_iff fun hnil => by
      obtain ⟨hlength, hone⟩ := (h.eq_nil_iff hne hone hzero).mp hnil
      have hbefore := hfits.others hlength hone
      rw [hwiped hnil, hepoch]
      omega
    refine ⟨?_, ?_, fun hnot => if_neg (hready.not.mp hnot)⟩
    · rw [hfilled.packets]
      exact h.perm_iff.mpr hzero
    · rw [hready]
      split
      case isTrue hlt => exact ⟨fun _ => hlt, fun _ => ⟨rfl, rfl⟩⟩
      case isFalse hlt =>
        exact ⟨fun hok => absurd (show (-1 : ℤ) = 0 from hok.2) (by decide),
          fun hlt' => absurd hlt' hlt⟩

/-- **A peek purges the missed packets and no others, and selects the earliest if it is due,
exactly if at most one packet is missed** and it is not alone. -/
theorem peeksCleanly_iff (libs : JitLibs)
    (hsort : ∀ l, (libs.qsort_r compare l).Pairwise JitNode.NotAfter) (queue : JitQueue)
    (hlen : queue.nodes.length = jitQueueMax) (hnum : queue.num_pkt.toNat ≤ jitQueueMax)
    (hsorted : queue.packets.Pairwise JitNode.NotAfter) (now : Timeval) (hnow : now.Normalised)
    (pkt_idx : ℤ) (ticks : ℕ) :
    (∃ r, jitPeekCall libs (.fixed now hnow) queue pkt_idx ticks = some r ∧ r.Cleanly queue now) ↔
      queue.Purgeable now pkt_idx := by
  have h := JitQueue.filled_packets hlen hnum
  have hcall : ∀ r, jitPeekCall libs (.fixed now hnow) queue pkt_idx ticks = some r →
      ((∃ r, jitPeekCall libs (.fixed now hnow) queue pkt_idx ticks = some r ∧
        r.Cleanly queue now) ↔ r.Cleanly queue now) := by
    intro r hr
    rw [hr]
    constructor
    · rintro ⟨_, hr', hclean⟩
      exact Option.some.inj hr' ▸ hclean
    · exact fun hclean => ⟨r, rfl, hclean⟩
  rcases eq_or_ne queue.packets [] with hnil | hne
  · rw [hcall ⟨.empty, queue, pkt_idx, ticks⟩
      (by rw [jitPeekCall, if_pos (h.jitQueueIsEmpty_iff.mpr hnil)])]
    exact cleanly_empty_iff hnil pkt_idx ticks
  · obtain ⟨queue', ticks', l', hpeek, hpurged, hwiped, hcount⟩ :=
      @jitPeekCall_of_ne_nil libs now hnow _ _ _ hsort h hsorted hne pkt_idx ticks
    rw [hcall _ hpeek]
    exact hpurged.cleanly_iff hne hwiped hcount pkt_idx ticks'

/-! ## Queues with missed packets -/

/-- A queue of packets at the given times. -/
def queueAt (times : List Timeval) : JitQueue :=
  ⟨UInt8.ofNat times.length, (times.map fun time => { zeroNode with tx_timestamp := time })
    ++ List.replicate (jitQueueMax - times.length) zeroNode⟩

/-- A routine that sorts by the times. -/
def timeLibs : JitLibs :=
  { someLibs with
    qsort_r := fun _ l => l.insertionSort JitNode.NotAfter
    qsort_r_perm := fun _ l => List.perm_insertionSort _ l }

/-- Sorting by the whole time puts no packet before one that is earlier. -/
theorem notAfter_timeLibs (l : List JitNode) :
    (timeLibs.qsort_r compare l).Pairwise JitNode.NotAfter := by
  refine @List.pairwise_insertionSort _ _ _ ⟨fun p q => ?_⟩ ⟨fun p q r hpq hqr => ?_⟩ l
  · rw [JitNode.NotAfter, JitNode.NotAfter, timercmp, timercmp]
    split_ifs <;> rw [decide_eq_true_iff, decide_eq_true_iff] <;> omega
  · rw [JitNode.NotAfter, timercmp] at *
    split_ifs at * <;> rw [decide_eq_true_iff] at * <;> omega

/-- One packet is missed, and another is due in half a second. -/
theorem peeksCleanly_iff_one :
    ∃ r, jitPeekCall timeLibs (.fixed ⟨1700000000, 500000⟩ (by decide))
      (queueAt [⟨1700000000, 0⟩, ⟨1700000001, 0⟩]) 0 0 = some r ∧
      r.Cleanly (queueAt [⟨1700000000, 0⟩, ⟨1700000001, 0⟩]) ⟨1700000000, 500000⟩ :=
  (peeksCleanly_iff timeLibs notAfter_timeLibs _ (by decide) (by decide) (by decide +kernel) _ _ 0
    0).mpr ⟨by decide +kernel, by decide +kernel, by decide +kernel⟩

/-- **Two packets are missed**: one of them stays. -/
theorem not_peeksCleanly_two :
    (∀ l, (timeLibs.qsort_r compare l).Pairwise JitNode.NotAfter) ∧
    (queueAt [⟨1700000000, 0⟩, ⟨1700000001, 0⟩]).packets.Pairwise JitNode.NotAfter ∧
    ¬ ∃ r, jitPeekCall timeLibs (.fixed ⟨1700000005, 0⟩ (by decide))
      (queueAt [⟨1700000000, 0⟩, ⟨1700000001, 0⟩]) (-1) 0 = some r ∧
      r.Cleanly (queueAt [⟨1700000000, 0⟩, ⟨1700000001, 0⟩]) ⟨1700000005, 0⟩ := by
  refine ⟨notAfter_timeLibs, by decide +kernel, ?_⟩
  rintro ⟨r, hr, hclean⟩
  have hleft : (jitPeekCall timeLibs (.fixed ⟨1700000005, 0⟩ (by decide))
      (queueAt [⟨1700000000, 0⟩, ⟨1700000001, 0⟩]) (-1) 0).all
        (fun r => r.queue.packets.length = 1) = true := by decide +kernel
  rw [hr, Option.all_some, decide_eq_true_iff, hclean.kept.length_eq] at hleft
  exact absurd hleft (by decide +kernel)

end LoRaGwSv
