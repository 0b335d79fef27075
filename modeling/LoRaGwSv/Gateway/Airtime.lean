import LoRaGwSv.Gateway.Jitqueue
import Mathlib.Data.List.Sort

/-!
# Gateway/Airtime — queued packets do not overlap on air

A packet is let into the just-in-time queue if it is far enough from every other (`Apart`); what
happens to the queue afterwards only permutes it or takes packets away.  The difference of two times
is cut down to 32 bits before it is compared, which can only make it smaller (`lowMicros_le`).
-/

namespace LoRaGwSv

open Timeval

/-- **No two queued packets overlap on air.** -/
structure JitQueue.NoOverlap (queue : JitQueue) : Prop where
  num_pkt_le : queue.num_pkt.toNat ≤ 32
  apart : ∀ i j p q, i < queue.num_pkt.toNat → j < queue.num_pkt.toNat → i ≠ j →
    queue.nodes[i]? = some p → queue.nodes[j]? = some q →
    p.tx_timestamp.micros ≤ q.tx_timestamp.micros →
    (q.pre_delay.toNat + p.post_delay.toNat + 1000 : ℤ)
      < q.tx_timestamp.micros - p.tx_timestamp.micros

/-- Two packets are far enough from each other. -/
def JitNode.Apart (p q : JitNode) : Prop :=
  (p.tx_timestamp.micros ≤ q.tx_timestamp.micros →
    (q.pre_delay.toNat + p.post_delay.toNat + 1000 : ℤ)
      < q.tx_timestamp.micros - p.tx_timestamp.micros) ∧
  (q.tx_timestamp.micros ≤ p.tx_timestamp.micros →
    (p.pre_delay.toNat + q.post_delay.toNat + 1000 : ℤ)
      < p.tx_timestamp.micros - q.tx_timestamp.micros)

/-- A node as `jit_enqueue` fills it in: its delays add up without overflow. -/
structure JitNode.WellFormed (node : JitNode) : Prop where
  normalised : node.tx_timestamp.Normalised
  pre_delay_eq : node.pre_delay.toNat = 11500
  post_delay_lt : node.post_delay.toNat < 4000000000

/-- What the queue is at any time. -/
structure JitQueue.Spaced (queue : JitQueue) (l : List JitNode) : Prop where
  holds : queue.Holds l
  wellFormed : ∀ node ∈ l, node.WellFormed
  apart : l.Pairwise JitNode.Apart

variable {libs : JitLibs} {clock : Clock} {queue queue' : JitQueue} {l l' : List JitNode}
  {p q : JitNode}

/-! ## The collision test

Two packets that do not collide are apart by more than the start delay of the later one, the time on
air of the earlier one and the margin.  Their difference is compared in 32 bits.  Cut down it can
only be smaller, so the test may see a collision where there is none, but not the other way round.
-/

/-- Which of the two comes first does not matter. -/
theorem JitNode.Apart.symm (h : p.Apart q) : q.Apart p := ⟨h.2, h.1⟩

/-- **Cutting a difference down to 32 bits never makes it larger.** -/
theorem lowMicros_le {t : Timeval} (h : 0 ≤ t.micros) : (lowMicros t : ℤ) ≤ t.micros := by
  rw [micros] at h
  rw [lowMicros, micros]
  omega

/-- The delays of two packets and the margin add up without overflow. -/
theorem JitNode.WellFormed.toNat_delays (hp : p.WellFormed) (hq : q.WellFormed) :
    (q.pre_delay + p.post_delay + txMarginDelay).toNat
      = q.pre_delay.toNat + p.post_delay.toNat + 1000 := by
  have hpre := hq.pre_delay_eq
  have hpost := hp.post_delay_lt
  rw [UInt32.toNat_add, UInt32.toNat_add, show txMarginDelay.toNat = 1000 from rfl]
  omega

/-- One direction of the test: a difference above the delays keeps two packets apart. -/
theorem apart_of_lt (hp : p.WellFormed) (hq : q.WellFormed)
    (hle : p.tx_timestamp.micros ≤ q.tx_timestamp.micros)
    (hlow : (q.pre_delay + p.post_delay + txMarginDelay).toNat
      < lowMicros (timersub q.tx_timestamp p.tx_timestamp)) : p.Apart q := by
  have hsub := micros_timersub q.tx_timestamp p.tx_timestamp
  have hexact := lowMicros_le (t := timersub q.tx_timestamp p.tx_timestamp) (by omega)
  rw [hp.toNat_delays hq] at hlow
  exact ⟨fun _ => by omega, fun hge => by omega⟩

/-- **Two packets that do not collide are far enough apart.** -/
theorem apart_of_jitCollisionTest (hp : p.WellFormed) (hq : q.WellFormed)
    (h : jitCollisionTest p.tx_timestamp p.pre_delay p.post_delay q.tx_timestamp q.pre_delay
      q.post_delay = false) : p.Apart q := by
  rw [jitCollisionTest] at h
  split at h
  case isTrue hcmp =>
    rw [timercmp_le hp.normalised hq.normalised] at hcmp
    exact apart_of_lt hp hq hcmp (Nat.not_le.mp (of_decide_eq_false h))
  case isFalse hcmp =>
    rw [timercmp_le hp.normalised hq.normalised, Int.not_le] at hcmp
    exact (apart_of_lt hq hp hcmp.le (Nat.not_le.mp (of_decide_eq_false h))).symm

/-! ## The queue

Packets are compared when one is let in, and at no other time.  What the other functions do is a
permutation, or takes packets away, and pairs that are left are as far apart as they were. -/

/-- An empty queue has nothing that could overlap. -/
theorem spaced_jitQueueInit : jitQueueInit.Spaced [] :=
  ⟨holds_jitQueueInit, by simp, List.Pairwise.nil⟩

/-- A spaced queue has no two packets that overlap. -/
theorem JitQueue.Spaced.noOverlap (h : queue.Spaced l) : queue.NoOverlap where
  num_pkt_le := h.holds.num_eq ▸ h.holds.length_le
  apart i j p q hi hj hij hp hq := by
    rw [h.holds.num_eq] at hi hj
    rw [h.holds.nodes_eq, List.getElem?_append_left hi, List.getElem?_eq_some_iff] at hp
    rw [h.holds.nodes_eq, List.getElem?_append_left hj, List.getElem?_eq_some_iff] at hq
    obtain ⟨-, rfl⟩ := hp
    obtain ⟨-, rfl⟩ := hq
    have hpair := List.pairwise_iff_getElem.mp h.apart
    rcases Nat.lt_or_gt_of_ne hij with hlt | hgt
    · exact (hpair i j hi hj hlt).1
    · exact (hpair j i hj hi hgt).2

/-- What is left of the queue is as far apart. -/
theorem JitQueue.Spaced.of_perm {dropped : List JitNode} (h : queue.Spaced l)
    (hholds : queue'.Holds l') (hperm : l.Perm (dropped ++ l')) : queue'.Spaced l' where
  holds := hholds
  wellFormed node hnode := h.wellFormed node (hperm.mem_iff.mpr (List.mem_append_right _ hnode))
  apart := (List.pairwise_append.mp (h.apart.perm hperm JitNode.Apart.symm)).2.1

/-- A peek takes packets out and sorts the others, which keeps them apart. -/
theorem JitQueue.Spaced.jitPeek (h : queue.Spaced l) (ticks : ℕ) :
    ∃ queue' idx ticks' l', jitPeek libs clock queue ticks = some (queue', idx, ticks') ∧
      queue'.Spaced l' := by
  obtain ⟨queue', ticks', l', dropped, hpurge, hholds, hperm, -⟩ :=
    @JitQueue.Holds.jitPurge libs clock _ _ 0 h.holds (Nat.zero_le 1) ticks
  rw [LoRaGwSv.jitPeek, h.holds.num_eq, hpurge, Option.map_some]
  exact ⟨_, _, _, l', rfl, h.of_perm hholds hperm⟩

theorem JitQueue.Spaced.jitDequeue (h : queue.Spaced l) (hne : l ≠ []) :
    ∃ node queue' l', jitDequeue libs queue 0 = some (node, queue') ∧ queue'.Spaced l' := by
  have hpos : 0 < l.length := List.length_pos_iff.mpr hne
  obtain ⟨queue', l', hqueue', hholds, hperm⟩ :=
    @JitQueue.Holds.jitReplaceNode libs _ _ _ h.holds hpos
  rw [LoRaGwSv.jitDequeue, hqueue', Option.map_some]
  refine ⟨_, _, l', rfl, @JitQueue.Spaced.of_perm _ _ _ _ [l[0]] h hholds ?_⟩
  exact (List.getElem_cons_eraseIdx_perm hpos).symm.trans (hperm.symm.cons _)

/-- The delays of a new node are those of its packet, as long as its time on air is within bounds.
-/
theorem wellFormed_newNode {time : Timeval} (htime : time.Normalised) {packet : LgwPktTx}
    (hair : (libs.lgw_time_on_air packet).toNat < 4000000) (pkt_type : JitPktType) :
    (newNode libs time packet pkt_type).WellFormed where
  normalised := htime
  pre_delay_eq := rfl
  post_delay_lt := by
    rw [newNode, UInt32.toNat_mul, show (1000 : UInt32).toNat = 1000 from rfl,
      Nat.mod_eq_of_lt (by omega)]
    omega

/-- **A packet let in is apart from the others.** -/
theorem JitQueue.Spaced.jitEnqueue (h : queue.Spaced l) (hroom : l.length < jitQueueMax)
    {time : Timeval} (htime : time.Normalised) {packet : LgwPktTx}
    (hair : (libs.lgw_time_on_air packet).toNat < 4000000) (pkt_type : JitPktType) (ticks : ℕ) :
    ∃ err queue' ticks' l', jitEnqueue libs clock queue time packet pkt_type ticks
      = some (err, queue', ticks') ∧ queue'.Spaced l' := by
  obtain ⟨err, queue', ticks', henqueue, -, hqueue'⟩ :=
    @JitQueue.Holds.jitEnqueue libs clock _ _ h.holds hroom time packet pkt_type ticks
  have hnew : (newNode libs time packet pkt_type).WellFormed := wellFormed_newNode htime hair _
  obtain rfl | ⟨l', hholds, hperm, -, hcoll⟩ := hqueue'
  · exact ⟨err, queue', ticks', l, henqueue, h⟩
  · refine ⟨err, queue', ticks', l', henqueue, hholds, fun node hnode => ?_, ?_⟩
    · rcases List.mem_cons.mp (hperm.mem_iff.mp hnode) with rfl | hnode
      · exact hnew
      · exact h.wellFormed node hnode
    · refine List.Pairwise.perm (List.pairwise_cons.mpr ⟨fun node hnode => ?_, h.apart⟩)
        hperm.symm JitNode.Apart.symm
      exact apart_of_jitCollisionTest hnew (h.wellFormed node hnode) (hcoll node hnode)

/-! ## Any sequence of calls

The clock may stand still or go back between two readings; nothing here depends on it. -/

/-- A call of one of the functions of the queue. -/
inductive JitOp
  | enqueue (time : Timeval) (packet : LgwPktTx) (pkt_type : JitPktType)
  | peek
  | dequeue
deriving DecidableEq

/-- The time given is normalised. -/
def JitOp.Normalised : JitOp → Prop
  | .enqueue time _ _ => time.Normalised
  | .peek => True
  | .dequeue => True

/-- The packet given is on air for less than 4000 s. -/
def JitOp.Brief (libs : JitLibs) : JitOp → Prop
  | .enqueue _ packet _ => (libs.lgw_time_on_air packet).toNat < 4000000
  | .peek => True
  | .dequeue => True

/-- The queue and the readings of the clock so far. -/
structure JitState where
  queue : JitQueue
  ticks : ℕ
deriving DecidableEq

/-- An empty queue, before the clock has been read. -/
def JitState.init : JitState := ⟨jitQueueInit, 0⟩

/-- A call made while no other is; a packet is taken at index 0. -/
def JitOp.step (libs : JitLibs) (clock : Clock) (s : JitState) : JitOp → Option JitState
  | .enqueue time packet pkt_type =>
    if jitQueueIsFull s.queue then some s
    else (jitEnqueue libs clock s.queue time packet pkt_type s.ticks).map
      fun (_, queue, ticks) => ⟨queue, ticks⟩
  | .peek =>
    if jitQueueIsEmpty s.queue then some s
    else (jitPeek libs clock s.queue s.ticks).map fun (queue, _, ticks) => ⟨queue, ticks⟩
  | .dequeue =>
    if jitQueueIsEmpty s.queue then some s
    else (jitDequeue libs s.queue 0).map fun (_, queue) => { s with queue := queue }

/-- Each call keeps the packets apart, and stays inside the array. -/
theorem JitQueue.Spaced.step {s : JitState} (h : s.queue.Spaced l) {op : JitOp}
    (hop : op.Normalised) (hair : op.Brief libs) :
    ∃ t, op.step libs clock s = some t ∧ ∃ l', t.queue.Spaced l' := by
  cases op with
  | enqueue time packet pkt_type =>
    rw [JitOp.step]
    split
    case isTrue => exact ⟨s, rfl, l, h⟩
    case isFalse hfull =>
      rw [h.holds.jitQueueIsFull_iff] at hfull
      obtain ⟨err, queue', ticks', l', henqueue, hspaced⟩ := h.jitEnqueue
        (lt_of_le_of_ne h.holds.length_le hfull) hop hair pkt_type s.ticks
      rw [henqueue]
      exact ⟨_, rfl, l', hspaced⟩
  | peek =>
    rw [JitOp.step]
    split
    case isTrue => exact ⟨s, rfl, l, h⟩
    case isFalse =>
      obtain ⟨queue', idx, ticks', l', hpeek, hspaced⟩ := h.jitPeek s.ticks
      rw [hpeek]
      exact ⟨_, rfl, l', hspaced⟩
  | dequeue =>
    rw [JitOp.step]
    split
    case isTrue => exact ⟨s, rfl, l, h⟩
    case isFalse hempty =>
      rw [h.holds.jitQueueIsEmpty_iff] at hempty
      obtain ⟨node, queue', l', hdequeue, hspaced⟩ := h.jitDequeue hempty
      rw [hdequeue]
      exact ⟨_, rfl, l', hspaced⟩

/-- **Queued packets never overlap on air**, whatever is enqueued and whatever the clock tells. -/
theorem noOverlap_run (libs : JitLibs)
    (hair : ∀ packet, (libs.lgw_time_on_air packet).toNat < 4000000) (clock : Clock)
    (ops : List JitOp) (hops : ∀ op ∈ ops, op.Normalised) :
    Runs.Always (JitOp.step libs clock) (fun s => s.queue.NoOverlap) JitState.init ops := by
  have hstep : ∀ s op, (∃ l, JitQueue.Spaced (JitState.queue s) l) → JitOp.Normalised op →
      ∃ t, JitOp.step libs clock s op = some t ∧ ∃ l, t.queue.Spaced l := by
    rintro s op ⟨l, h⟩ hop
    refine h.step hop ?_
    cases op with
    | enqueue time packet pkt_type => exact hair packet
    | peek => trivial
    | dequeue => trivial
  refine (Runs.always_of_inv hstep ⟨[], spaced_jitQueueInit⟩ ops hops).imp ?_
  rintro s ⟨l, h⟩
  exact h.noOverlap

/-- A sorting routine and a time on air. -/
def someLibs : JitLibs where
  qsort_r cmp l := l.insertionSort fun p q => cmp p q ≤ 0
  qsort_r_perm cmp l := List.perm_insertionSort _ l
  lgw_time_on_air _ := 41

/-- A clock that stands still at one second past noon. -/
def stillClock : Clock := ⟨fun _ => ⟨43201, 0⟩, fun _ => by decide⟩

/-- Two packets, a peek and a dequeue. -/
theorem noOverlap_run_two : Runs.Always (JitOp.step someLibs stillClock)
    (fun s => s.queue.NoOverlap) JitState.init
    [.enqueue ⟨43201, 500000⟩ zeroPkt .downlink, .enqueue ⟨43202, 0⟩ zeroPkt .downlink, .peek,
      .dequeue] :=
  noOverlap_run someLibs (fun _ => show (41 : UInt32).toNat < 4000000 by decide) stillClock _
    (by simp [JitOp.Normalised]; decide)

end LoRaGwSv
