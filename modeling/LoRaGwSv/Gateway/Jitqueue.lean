import Mathlib.Data.List.GetD
import Mathlib.Data.List.Pairwise
import Mathlib.Data.Vector.Basic
import LoRaGwSv.Machinery.Runs
import LoRaGwSv.Machinery.Timeval

/-!
# Gateway/Jitqueue — the just-in-time queue (`jitqueue.c`)

Downlinks wait in an array of 32 nodes until it is time to send them; the nodes from `num_pkt` on
are zero (`JitQueue.Holds`).  What a function does before it takes the mutex is a definition of its
own, as other threads may come in between.  Pointer arguments are addresses of locals, so the tests
for `NULL` are left out.  `ticks` counts the readings of the clock.
-/

namespace LoRaGwSv

open Timeval

/-- A packet to send (`struct lgw_pkt_tx_s`). -/
structure LgwPktTx where
  freq_hz : UInt32
  tx_mode : UInt8
  count_us : UInt32
  rf_chain : UInt8
  rf_power : Int8
  modulation : UInt8
  bandwidth : UInt8
  datarate : UInt32
  coderate : UInt8
  invert_pol : Bool
  f_dev : UInt8
  preamble : UInt16
  no_crc : Bool
  no_header : Bool
  size : UInt16
  payload : Vector UInt8 256
deriving DecidableEq

/-- What `memset` leaves of a packet. -/
def zeroPkt : LgwPktTx :=
  ⟨0, 0, 0, 0, 0, 0, 0, 0, 0, false, 0, 0, false, false, 0, Vector.replicate 256 0⟩

/-- `enum jit_pkt_type_e`. -/
inductive JitPktType
  | downlink
deriving DecidableEq, Repr

/-- `enum jit_error_e`, as far as the queue is concerned. -/
inductive JitError
  | ok
  | tooLate
  | tooEarly
  | full
  | empty
  | collisionPacket
  | invalid
deriving DecidableEq, Repr

/-- `struct jit_node_s`. -/
structure JitNode where
  pkt : LgwPktTx
  pkt_type : JitPktType
  tx_timestamp : Timeval
  pre_delay : UInt32
  post_delay : UInt32
deriving DecidableEq

/-- What `memset` leaves of a node. -/
def zeroNode : JitNode := ⟨zeroPkt, .downlink, ⟨0, 0⟩, 0, 0⟩

/-- `JIT_QUEUE_MAX`. -/
def jitQueueMax : ℕ := 32

/-- `struct jit_queue_s`. -/
structure JitQueue where
  num_pkt : UInt8
  nodes : List JitNode
deriving DecidableEq

/-- The packets that wait. -/
def JitQueue.packets (queue : JitQueue) : List JitNode := queue.nodes.take queue.num_pkt.toNat

/-- What the queue is linked with: some routine that permutes what it sorts, and the time on air of
a packet in milliseconds. -/
structure JitLibs where
  qsort_r : (JitNode → JitNode → ℤ) → List JitNode → List JitNode
  qsort_r_perm : ∀ cmp l, (qsort_r cmp l).Perm l
  lgw_time_on_air : LgwPktTx → UInt32

/-- What `gettimeofday` tells, reading by reading. -/
structure Clock where
  reading : ℕ → Timeval
  normalised : ∀ k, (reading k).Normalised

/-- A clock that stands still. -/
def Clock.fixed (now : Timeval) (h : now.Normalised) : Clock := ⟨fun _ => now, fun _ => h⟩

/-- `TX_START_DELAY`, in microseconds. -/
def txStartDelay : UInt32 := 1500

/-- `TX_MARGIN_DELAY`. -/
def txMarginDelay : UInt32 := 1000

/-- `TX_JIT_DELAY`. -/
def txJitDelay : UInt32 := 10000

/-- `TX_MAX_ADVANCE_DELAY`. -/
def txMaxAdvanceDelay : ℤ := 6000000

/-- `TX_DEVIATION_THRESHOLD`: how long before its time a packet is selected. -/
def txDeviationThreshold : ℤ := 500

variable (libs : JitLibs) (clock : Clock)

/-! ## The functions -/

/-- `jit_queue_is_full`. -/
def jitQueueIsFull (queue : JitQueue) : Bool := queue.num_pkt.toNat = jitQueueMax

/-- `jit_queue_is_empty`. -/
def jitQueueIsEmpty (queue : JitQueue) : Bool := queue.num_pkt = 0

/-- `jit_queue_init`: the array is cleared. -/
def jitQueueInit : JitQueue := ⟨0, List.replicate jitQueueMax zeroNode⟩

/-- Seconds decide; in case of a tie microseconds are compared with seconds. -/
def compare (p q : JitNode) : ℤ :=
  let p_time := p.tx_timestamp
  let q_time := q.tx_timestamp
  if p_time.tv_sec ≥ q_time.tv_sec then
    if p_time.tv_sec = q_time.tv_sec then
      if p_time.tv_usec > q_time.tv_sec then 1 else -1
    else 1
  else -1

/-- `jit_sort_queue`: the nodes that are counted are sorted, the others stay. -/
def jitSortQueue (queue : JitQueue) : JitQueue :=
  if queue.num_pkt = 0 then queue
  else
    let n := queue.num_pkt.toNat
    { queue with
      nodes := libs.qsort_r compare (queue.nodes.take n) ++ queue.nodes.drop n }

/-- `(uint32_t)(t.tv_sec*1000000 + t.tv_usec)`. -/
def lowMicros (t : Timeval) : ℕ := ((t.tv_sec * 1000000 + t.tv_usec) % 2 ^ 32).toNat

/-- `jit_collision_test`: whether two packets, each with its delays, overlap. -/
def jitCollisionTest (p1_timestamp : Timeval) (p1_pre_delay p1_post_delay : UInt32)
    (p2_timestamp : Timeval) (p2_pre_delay p2_post_delay : UInt32) : Bool :=
  if timercmp p1_timestamp p2_timestamp (· ≤ ·) then
    let temp_time := timersub p2_timestamp p1_timestamp
    lowMicros temp_time ≤ (p2_pre_delay + p1_post_delay + txMarginDelay).toNat
  else
    let temp_time := timersub p1_timestamp p2_timestamp
    lowMicros temp_time ≤ (p1_pre_delay + p2_post_delay + txMarginDelay).toNat

/-- Node `i` is replaced by the last one, which is wiped, and the queue is sorted.  An index past
the array is `none`. -/
def jitReplaceNode (queue : JitQueue) (i : ℕ) : Option JitQueue :=
  let num_pkt := queue.num_pkt - 1
  match queue.nodes[i]?, queue.nodes[num_pkt.toNat]? with
  | some _, some last =>
    some (jitSortQueue libs
      { num_pkt := num_pkt, nodes := (queue.nodes.set i last).set num_pkt.toNat zeroNode })
  | _, _ => none

/-- The search of `jit_peek` for the first outdated node from `i` on, with `n` nodes to go. -/
def jitFindOutdated (nodes : List JitNode) : (n i ticks : ℕ) → Option ℕ × ℕ
  | 0, _, ticks => (none, ticks)
  | n + 1, i, ticks =>
    if timercmp (clock.reading ticks) (nodes.getD i zeroNode).tx_timestamp (· > ·) then
      (some i, ticks + 1)
    else jitFindOutdated nodes n (i + 1) (ticks + 1)

/-- The loop of `jit_peek`, with `n` packets in the queue: an outdated packet is dropped, and the
loop goes on with node 1, as `i` is reset before it is counted up. -/
def jitPurge : (n i : ℕ) → JitQueue → (ticks : ℕ) → Option (JitQueue × ℕ)
  | 0, _, queue, ticks => some (queue, ticks)
  | n + 1, i, queue, ticks =>
    match jitFindOutdated clock queue.nodes (n + 1 - i) i ticks with
    | (none, ticks) => some (queue, ticks)
    | (some j, ticks) =>
      (jitReplaceNode libs queue j).bind fun queue => jitPurge n 1 queue ticks

/-- The section of `jit_peek`: the queue after the purge, the index, and the clock readings made
so far.  The index is that of node 0 if it is due by the last reading. -/
def jitPeek (queue : JitQueue) (ticks : ℕ) : Option (JitQueue × ℤ × ℕ) :=
  (jitPurge libs clock queue.num_pkt.toNat 0 queue ticks).map fun (queue, ticks) =>
    let delta_time :=
      timersub (queue.nodes.getD 0 zeroNode).tx_timestamp (clock.reading ticks)
    let pkt_idx :=
      if delta_time.tv_sec * 1000000 + delta_time.tv_usec < txDeviationThreshold then 0 else -1
    (queue, pkt_idx, ticks + 1)

/-- The carry of `jit_enqueue` into the seconds. -/
def carrySeconds (t : Timeval) : Timeval :=
  if t.tv_usec > 1000000 then
    ⟨t.tv_sec + t.tv_usec % 2 ^ 32 / 1000000, t.tv_usec % 1000000⟩
  else t

/-- The section of `jit_enqueue`: what it returns, and the clock readings made so far.  A node past
the array is `none`. -/
def jitEnqueue (queue : JitQueue) (time : Timeval) (packet : LgwPktTx) (pkt_type : JitPktType)
    (ticks : ℕ) : Option (JitError × JitQueue × ℕ) :=
  let packet_pre_delay := txStartDelay + txJitDelay
  let packet_post_delay := libs.lgw_time_on_air packet * 1000
  let now := clock.reading ticks
  let temp_time :=
    carrySeconds { now with tv_usec := now.tv_usec + (txMarginDelay + txJitDelay).toNat }
  if timercmp time temp_time (· ≤ ·) then some (.tooLate, queue, ticks + 1)
  else
    let now := clock.reading (ticks + 1)
    let temp_time := carrySeconds { now with tv_usec := now.tv_usec + txMaxAdvanceDelay }
    if timercmp time temp_time (· ≥ ·) then some (.tooEarly, queue, ticks + 2)
    else if (queue.nodes.take queue.num_pkt.toNat).any fun node =>
        jitCollisionTest time packet_pre_delay packet_post_delay node.tx_timestamp node.pre_delay
          node.post_delay then
      some (.collisionPacket, queue, ticks + 2)
    else if queue.num_pkt.toNat < jitQueueMax then
      let node := ⟨packet, pkt_type, time, packet_pre_delay, packet_post_delay⟩
      some (.ok,
        jitSortQueue libs
          { num_pkt := queue.num_pkt + 1, nodes := queue.nodes.set queue.num_pkt.toNat node },
        ticks + 2)
    else none

/-- The section of `jit_dequeue`, for an index inside the array: the node taken, and the queue. -/
def jitDequeue (queue : JitQueue) (index : ℕ) : Option (JitNode × JitQueue) :=
  (jitReplaceNode libs queue index).map fun queue' => (queue.nodes.getD index zeroNode, queue')

/-! ## What the array holds

Specifications speak of the list of packets that wait.  What stands behind them matters in one place
only: a peek that has purged the last packet looks at node 0, and finds it wiped. -/

/-- The queue holds the nodes of `l`, and the array goes on with `rest`. -/
structure JitQueue.Filled (queue : JitQueue) (l rest : List JitNode) : Prop where
  num_eq : queue.num_pkt.toNat = l.length
  length_eq : l.length + rest.length = jitQueueMax
  nodes_eq : queue.nodes = l ++ rest

/-- The queue holds the nodes of `l`, and zeros after them. -/
structure JitQueue.Holds (queue : JitQueue) (l : List JitNode) : Prop where
  num_eq : queue.num_pkt.toNat = l.length
  length_le : l.length ≤ jitQueueMax
  nodes_eq : queue.nodes = l ++ List.replicate (jitQueueMax - l.length) zeroNode

variable {libs clock} {queue queue' : JitQueue} {l l' rest : List JitNode} {n i ticks ticks' : ℕ}

/-- Holding is having zeros behind the packets. -/
theorem JitQueue.holds_iff_filled : queue.Holds l ↔
    queue.Filled l (List.replicate (jitQueueMax - l.length) zeroNode) := by
  constructor
  · intro h
    exact ⟨h.num_eq, by rw [List.length_replicate, Nat.add_sub_cancel' h.length_le], h.nodes_eq⟩
  · intro h
    exact ⟨h.num_eq, Nat.le_of_add_right_le h.length_eq.le, h.nodes_eq⟩

theorem holds_jitQueueInit : jitQueueInit.Holds [] := ⟨rfl, Nat.zero_le _, rfl⟩

/-- The count tells whether the queue is full. -/
theorem JitQueue.Filled.jitQueueIsFull_iff (h : queue.Filled l rest) :
    jitQueueIsFull queue = true ↔ l.length = jitQueueMax := by
  rw [jitQueueIsFull, decide_eq_true_iff, h.num_eq]

theorem JitQueue.Filled.jitQueueIsEmpty_iff (h : queue.Filled l rest) :
    jitQueueIsEmpty queue = true ↔ l = [] := by
  rw [jitQueueIsEmpty, decide_eq_true_iff, ← List.length_eq_zero_iff, ← h.num_eq]
  exact UInt8.toNat_inj.symm

theorem JitQueue.Holds.jitQueueIsFull_iff (h : queue.Holds l) :
    jitQueueIsFull queue = true ↔ l.length = jitQueueMax :=
  (holds_iff_filled.mp h).jitQueueIsFull_iff

/-- The count tells whether such a queue is empty, too. -/
theorem JitQueue.Holds.jitQueueIsEmpty_iff (h : queue.Holds l) :
    jitQueueIsEmpty queue = true ↔ l = [] := (holds_iff_filled.mp h).jitQueueIsEmpty_iff

/-- One less than the count does not wrap if there is a packet. -/
theorem JitQueue.Filled.toNat_pred (h : queue.Filled l rest) (hne : l ≠ []) :
    (queue.num_pkt - 1).toNat = l.length - 1 := by
  have hpos : 0 < l.length := List.length_pos_iff.mpr hne
  rw [UInt8.toNat_sub_of_le _ _ (UInt8.le_iff_toNat_le.mpr (by rw [h.num_eq]; exact hpos)),
    h.num_eq]
  rfl

/-- The nodes that are counted are the packets. -/
theorem JitQueue.Filled.take_nodes (h : queue.Filled l rest) :
    queue.nodes.take queue.num_pkt.toNat = l := by
  rw [h.nodes_eq, h.num_eq, List.take_left]

theorem JitQueue.Filled.packets (h : queue.Filled l rest) : queue.packets = l := h.take_nodes

/-- The nodes that are counted are the packets, with zeros behind as well. -/
theorem JitQueue.Holds.take_nodes (h : queue.Holds l) :
    queue.nodes.take queue.num_pkt.toNat = l := (holds_iff_filled.mp h).take_nodes

/-- The node at an index is the packet there. -/
theorem JitQueue.Filled.getD_nodes (h : queue.Filled l rest) (hi : i < l.length) :
    queue.nodes.getD i zeroNode = l[i] := by
  rw [h.nodes_eq, List.getD_append _ _ _ _ hi, List.getD_eq_getElem]

/-- A count within the array tells what the queue holds. -/
theorem JitQueue.filled_packets (hlen : queue.nodes.length = jitQueueMax)
    (hnum : queue.num_pkt.toNat ≤ jitQueueMax) :
    queue.Filled queue.packets (queue.nodes.drop queue.num_pkt.toNat) where
  num_eq := by rw [JitQueue.packets, List.length_take, hlen, min_eq_left hnum]
  length_eq := by
    rw [JitQueue.packets, ← List.length_append, List.take_append_drop, hlen]
  nodes_eq := (List.take_append_drop _ _).symm

/-- With zeros behind, an index past the packets yields zeros. -/
theorem JitQueue.Holds.getD_nodes (h : queue.Holds l) (i : ℕ) :
    queue.nodes.getD i zeroNode = l.getD i zeroNode := by
  rw [h.nodes_eq]
  rcases Nat.lt_or_ge i l.length with hi | hi
  · rw [List.getD_append _ _ _ _ hi]
  · rw [List.getD_append_right _ _ _ _ hi, List.getD_eq_default _ _ hi]
    simp only [List.getD_eq_getElem?_getD, List.getElem?_replicate]
    split <;> rfl

theorem JitQueue.Filled.jitSortQueue (h : queue.Filled l rest) :
    (jitSortQueue libs queue).Filled (libs.qsort_r compare l) rest := by
  have hlen := (libs.qsort_r_perm compare l).length_eq
  rw [LoRaGwSv.jitSortQueue]
  split
  case isTrue h0 =>
    obtain rfl : l = [] := h.jitQueueIsEmpty_iff.mp (decide_eq_true h0)
    rwa [List.eq_nil_of_length_eq_zero hlen]
  case isFalse =>
    refine ⟨h.num_eq.trans hlen.symm, hlen.symm ▸ h.length_eq, ?_⟩
    simp only [h.take_nodes]
    rw [h.nodes_eq, h.num_eq, List.drop_left]

/-- Sorting permutes what the queue holds. -/
theorem JitQueue.Holds.jitSortQueue (h : queue.Holds l) :
    ∃ l', l'.Perm l ∧ (jitSortQueue libs queue).Holds l' := by
  have hperm := libs.qsort_r_perm compare l
  refine ⟨_, hperm, holds_iff_filled.mpr ?_⟩
  rw [hperm.length_eq]
  exact (holds_iff_filled.mp h).jitSortQueue

/-- Overwriting an entry of a list with the last one, and wiping that, removes it from the list. -/
theorem swapRemove_perm {α : Type*} {l : List α} {i : ℕ} (hi : i < l.length) (z : α)
    (rest : List α) :
    ∃ x l', (l ++ rest)[l.length - 1]? = some x ∧ l'.Perm (l.eraseIdx i) ∧
      ((l ++ rest).set i x).set (l.length - 1) z = l' ++ z :: rest := by
  obtain rfl | ⟨init, x, rfl⟩ := l.eq_nil_or_concat
  · simp at hi
  · rw [List.concat_eq_append, List.length_append] at hi
    have hi : i ≤ init.length := Nat.le_of_lt_succ hi
    rw [List.concat_eq_append, List.length_append, List.append_assoc]
    change ∃ y l', (init ++ x :: rest)[init.length]? = some y ∧
      l'.Perm ((init ++ [x]).eraseIdx i) ∧
      ((init ++ x :: rest).set i y).set init.length z = l' ++ z :: rest
    refine ⟨x, init.set i x, by simp, ?_, ?_⟩
    · rcases hi.lt_or_eq with hi | rfl
      · rw [List.eraseIdx_append_of_lt_length hi]
        exact (List.set_perm_cons_eraseIdx hi x).trans (List.perm_append_singleton _ _).symm
      · rw [List.set_eq_of_length_le le_rfl, List.eraseIdx_append_of_length_le le_rfl]
        simp
    · rcases hi.lt_or_eq with hi | rfl
      · rw [List.set_append_left _ _ hi, List.set_append_right _ _ (by simp)]
        simp
      · rw [List.set_append_right _ _ le_rfl, List.set_append_right _ _ le_rfl,
          List.set_eq_of_length_le le_rfl]
        simp

/-- **Replacing a node removes it**, and leaves a zero behind the nodes that remain. -/
theorem JitQueue.Filled.jitReplaceNode (h : queue.Filled l rest) (hi : i < l.length) :
    ∃ queue' l₁, jitReplaceNode libs queue i = some queue' ∧ l₁.Perm (l.eraseIdx i) ∧
      queue'.Filled (libs.qsort_r compare l₁) (zeroNode :: rest) := by
  obtain ⟨x, l₁, hx, hperm, hset⟩ := swapRemove_perm hi zeroNode rest
  rw [← h.nodes_eq] at hx hset
  have hnum := h.toNat_pred (List.ne_nil_of_length_pos hi.pos)
  have hsome : ∃ y, queue.nodes[i]? = some y := by
    rw [h.nodes_eq, List.getElem?_append_left hi]
    exact ⟨_, List.getElem?_eq_getElem hi⟩
  obtain ⟨y, hy⟩ := hsome
  have hlength : l₁.length = l.length - 1 := by rw [hperm.length_eq, List.length_eraseIdx_of_lt hi]
  have hfilled : JitQueue.Filled
      ⟨queue.num_pkt - 1, (queue.nodes.set i x).set (l.length - 1) zeroNode⟩ l₁
      (zeroNode :: rest) := by
    have hlen := h.length_eq
    refine ⟨hnum.trans hlength.symm, ?_, hset⟩
    rw [List.length_cons]
    omega
  refine ⟨_, l₁, ?_, hperm, hfilled.jitSortQueue⟩
  rw [LoRaGwSv.jitReplaceNode]
  simp only [hnum, hy, hx]

/-- An index past the nodes takes the last of them. -/
theorem JitQueue.Filled.jitReplaceNode_past {x : JitNode} (h : queue.Filled (l ++ [x]) rest)
    (hi : l.length < i) (hmax : i < jitQueueMax) :
    ∃ queue' rest', LoRaGwSv.jitReplaceNode libs queue i = some queue' ∧
      queue'.Filled (libs.qsort_r compare l) rest' := by
  have hlen := h.length_eq
  have hnum : (queue.num_pkt - 1).toNat = l.length := by
    rw [h.toNat_pred (by simp), List.length_append, List.length_singleton, Nat.add_sub_cancel]
  have hlast : queue.nodes[l.length]? = some x := by
    rw [h.nodes_eq, List.append_assoc, List.getElem?_append_right le_rfl, Nat.sub_self]
    rfl
  obtain ⟨y, hy⟩ : ∃ y, queue.nodes[i]? = some y := by
    refine ⟨_, List.getElem?_eq_getElem ?_⟩
    rwa [h.nodes_eq, List.length_append, hlen]
  rw [List.length_append, List.length_singleton] at hlen
  have hset : (queue.nodes.set i x).set l.length zeroNode
      = l ++ zeroNode :: rest.set (i - (l.length + 1)) x := by
    rw [h.nodes_eq, List.append_assoc, List.set_append_right _ _ hi.le,
      List.set_append_right _ _ le_rfl, Nat.sub_self,
      show i - l.length = i - (l.length + 1) + 1 by omega]
    rfl
  have hfilled : JitQueue.Filled ⟨queue.num_pkt - 1, (queue.nodes.set i x).set l.length zeroNode⟩ l
      (zeroNode :: rest.set (i - (l.length + 1)) x) := by
    refine ⟨hnum, ?_, hset⟩
    rw [List.length_cons, List.length_set]
    omega
  refine ⟨_, _, ?_, hfilled.jitSortQueue⟩
  rw [LoRaGwSv.jitReplaceNode]
  simp only [hnum, hy, hlast]

/-- **A node is replaced by the last one**: the packet there is gone, and no other is. -/
theorem JitQueue.Holds.jitReplaceNode (h : queue.Holds l) (hi : i < l.length) :
    ∃ queue' l', jitReplaceNode libs queue i = some queue' ∧ queue'.Holds l' ∧
      l'.Perm (l.eraseIdx i) := by
  obtain ⟨queue', l₁, hqueue', hperm, hfilled⟩ :=
    @JitQueue.Filled.jitReplaceNode libs _ _ _ _ (holds_iff_filled.mp h) hi
  have hsorted := libs.qsort_r_perm compare l₁
  refine ⟨queue', _, hqueue', holds_iff_filled.mpr ?_, hsorted.trans hperm⟩
  have hlen := hperm.length_eq
  have hle := h.length_le
  rw [List.length_eraseIdx_of_lt hi] at hlen
  rwa [hsorted.length_eq, show jitQueueMax - l₁.length = jitQueueMax - l.length + 1 by omega,
    List.replicate_succ]

/-! ## What the functions do to it

These are the lemmas by which the other modules know the functions. -/

/-- The packet's time has passed at reading `k`. -/
def Clock.Outdates (clock : Clock) (k : ℕ) (node : JitNode) : Prop :=
  timercmp (clock.reading k) node.tx_timestamp (· > ·) = true

/-- No outdated node has been found, each looked at with a reading of its own. -/
theorem jitFindOutdated_none {nodes : List JitNode} : ∀ {n i ticks : ℕ},
    jitFindOutdated clock nodes n i ticks = (none, ticks') →
    ∀ k < n, ¬ clock.Outdates (ticks + k) (nodes.getD (i + k) zeroNode) := by
  intro n
  induction n with
  | zero => exact fun _ k hk => absurd hk (Nat.not_lt_zero k)
  | succ n ih =>
    intro i ticks h k hk
    rw [jitFindOutdated] at h
    split at h
    case isTrue => simp at h
    case isFalse hnot =>
      cases k with
      | zero => exact hnot
      | succ k =>
        have := ih h k (Nat.lt_of_succ_lt_succ hk)
        rwa [Nat.add_right_comm ticks, Nat.add_right_comm i] at this

/-- One has been found, by the reading it was looked at with. -/
theorem jitFindOutdated_some {nodes : List JitNode} {j : ℕ} : ∀ {n i ticks : ℕ},
    jitFindOutdated clock nodes n i ticks = (some j, ticks') →
    i ≤ j ∧ j < i + n ∧ ∃ k, ticks ≤ k ∧ k < ticks' ∧ clock.Outdates k (nodes.getD j zeroNode) := by
  intro n
  induction n with
  | zero => exact fun h => by simp [jitFindOutdated] at h
  | succ n ih =>
    intro i ticks h
    rw [jitFindOutdated] at h
    split at h
    case isTrue hout =>
      obtain ⟨rfl, rfl⟩ := by simpa using h
      exact ⟨le_rfl, by omega, ticks, le_rfl, Nat.lt_succ_self _, hout⟩
    case isFalse =>
      obtain ⟨hij, hj, k, hk, hk', hout⟩ := ih h
      exact ⟨by omega, by omega, k, by omega, hk', hout⟩

/-- The clock is read no less than before. -/
theorem le_jitFindOutdated {nodes : List JitNode} : ∀ (n i ticks : ℕ),
    ticks ≤ (jitFindOutdated clock nodes n i ticks).2 := by
  intro n
  induction n with
  | zero => exact fun _ _ => le_rfl
  | succ n ih =>
    intro i ticks
    rw [jitFindOutdated]
    split
    · exact Nat.le_succ _
    · exact (Nat.le_succ _).trans (ih _ _)

/-- **The purge drops outdated packets only.**  If it drops none, node 0 was still in time at the
first reading; otherwise nothing is said of the node that ends up there. -/
theorem JitQueue.Holds.jitPurge (h : queue.Holds l) (hi : i ≤ 1) (ticks : ℕ) :
    ∃ queue' ticks' l' dropped, jitPurge libs clock l.length i queue ticks = some (queue', ticks') ∧
      queue'.Holds l' ∧ l.Perm (dropped ++ l') ∧ ticks ≤ ticks' ∧
      (∀ node ∈ dropped, ∃ k, ticks ≤ k ∧ k < ticks' ∧ clock.Outdates k node) ∧
      (dropped = [] → l' = l ∧ (i = 0 → l ≠ [] → ¬ clock.Outdates ticks (l.getD 0 zeroNode))) := by
  generalize hn : l.length = n
  induction n generalizing queue l i ticks with
  | zero =>
    obtain rfl := List.length_eq_zero_iff.mp hn
    exact ⟨queue, ticks, [], [], rfl, h, List.Perm.refl _, le_rfl, by simp, by simp⟩
  | succ n ih =>
    have hle := @le_jitFindOutdated clock queue.nodes (n + 1 - i) i ticks
    rw [LoRaGwSv.jitPurge]
    split
    case h_1 ticks' hscan =>
      rw [hscan] at hle
      refine ⟨queue, ticks', l, [], rfl, h, List.Perm.refl _, hle, by simp, fun _ => ⟨rfl, ?_⟩⟩
      rintro rfl -
      have := jitFindOutdated_none hscan 0 (by omega)
      rwa [h.getD_nodes] at this
    case h_2 j ticks' hscan =>
      rw [hscan] at hle
      obtain ⟨-, hj, k, hk, hk', hout⟩ := jitFindOutdated_some hscan
      have hj : j < l.length := by omega
      rw [h.getD_nodes, List.getD_eq_getElem _ _ hj] at hout
      obtain ⟨queue₁, l₁, hqueue₁, h₁, hperm₁⟩ := @JitQueue.Holds.jitReplaceNode libs _ _ _ h hj
      have hn₁ : l₁.length = n := by
        rw [hperm₁.length_eq, List.length_eraseIdx_of_lt hj, hn]
        rfl
      obtain ⟨queue₂, ticks₂, l₂, dropped, hpurge, h₂, hperm₂, hle₂, hdropped, -⟩ :=
        ih h₁ le_rfl ticks' hn₁
      have hle : ticks ≤ ticks' := hle
      rw [hqueue₁, Option.bind_some]
      refine ⟨queue₂, ticks₂, l₂, l[j] :: dropped, hpurge, h₂, ?_, hle.trans hle₂, ?_, by simp⟩
      · refine (List.getElem_cons_eraseIdx_perm hj).symm.trans ((hperm₁.symm.cons _).trans ?_)
        exact hperm₂.cons _
      · rw [List.forall_mem_cons]
        refine ⟨⟨k, hk, by omega, hout⟩, fun node hnode => ?_⟩
        obtain ⟨m, hm, hm', hout⟩ := hdropped node hnode
        exact ⟨m, by omega, hm', hout⟩

/-- The node `jit_enqueue` fills in. -/
def newNode (libs : JitLibs) (time : Timeval) (packet : LgwPktTx) (pkt_type : JitPktType) :
    JitNode :=
  ⟨packet, pkt_type, time, txStartDelay + txJitDelay, libs.lgw_time_on_air packet * 1000⟩

/-- The time a packet must be after to be let in. -/
def tooLate (clock : Clock) (ticks : ℕ) : Timeval :=
  carrySeconds
    { clock.reading ticks with
      tv_usec := (clock.reading ticks).tv_usec + (txMarginDelay + txJitDelay).toNat }

/-- The time a packet must be before to be let in. -/
def tooEarly (clock : Clock) (ticks : ℕ) : Timeval :=
  carrySeconds
    { clock.reading ticks with tv_usec := (clock.reading ticks).tv_usec + txMaxAdvanceDelay }

/-- The packet passes the tests of `jit_enqueue`. -/
structure Admitted (libs : JitLibs) (clock : Clock) (queue : JitQueue) (time : Timeval)
    (packet : LgwPktTx) (ticks : ℕ) : Prop where
  late : timercmp time (tooLate clock ticks) (· ≤ ·) = false
  early : timercmp time (tooEarly clock (ticks + 1)) (· ≥ ·) = false
  apart : ∀ node ∈ queue.nodes.take queue.num_pkt.toNat,
    jitCollisionTest time (txStartDelay + txJitDelay) (libs.lgw_time_on_air packet * 1000)
      node.tx_timestamp node.pre_delay node.post_delay = false

/-- The node after the last is overwritten. -/
theorem JitQueue.Filled.set_nodes {x : JitNode} (h : queue.Filled l (x :: rest)) (node : JitNode) :
    JitQueue.Filled ⟨queue.num_pkt + 1, queue.nodes.set queue.num_pkt.toNat node⟩ (l ++ [node])
      rest := by
  have hmax : jitQueueMax = 32 := rfl
  have hlen := h.length_eq
  rw [List.length_cons] at hlen
  refine ⟨?_, ?_, ?_⟩
  · rw [UInt8.toNat_add, h.num_eq, UInt8.toNat_one, List.length_append, List.length_singleton]
    omega
  · rw [List.length_append, List.length_singleton]
    omega
  · rw [h.nodes_eq, h.num_eq, List.set_append_right _ _ le_rfl, Nat.sub_self, List.set_cons_zero,
      List.append_assoc]
    rfl

/-- **A packet is refused, or it passes the tests and is sorted in.** -/
theorem JitQueue.Filled.jitEnqueue {x : JitNode} (h : queue.Filled l (x :: rest)) (time : Timeval)
    (packet : LgwPktTx) (pkt_type : JitPktType) (ticks : ℕ) :
    ∃ err queue' ticks', jitEnqueue libs clock queue time packet pkt_type ticks
        = some (err, queue', ticks') ∧ ticks < ticks' ∧
      (queue' = queue ∨ Admitted libs clock queue time packet ticks ∧
        queue'.Filled (libs.qsort_r compare (l ++ [newNode libs time packet pkt_type])) rest) := by
  have hroom : queue.num_pkt.toNat < jitQueueMax := by
    have hlen := h.length_eq
    rw [List.length_cons] at hlen
    rw [h.num_eq]
    omega
  rw [LoRaGwSv.jitEnqueue]
  dsimp only
  split
  case isTrue => exact ⟨_, _, _, rfl, by omega, Or.inl rfl⟩
  case isFalse hlate =>
    split
    case isTrue => exact ⟨_, _, _, rfl, by omega, Or.inl rfl⟩
    case isFalse hearly =>
      split
      case isTrue => exact ⟨_, _, _, rfl, by omega, Or.inl rfl⟩
      case isFalse hcoll =>
        refine ⟨_, _, _, rfl, by omega, Or.inr ⟨⟨?_, ?_, ?_⟩, ?_⟩⟩
        · exact Bool.not_eq_true _ ▸ hlate
        · exact Bool.not_eq_true _ ▸ hearly
        · simpa using hcoll
        · exact (h.set_nodes (newNode libs time packet pkt_type)).jitSortQueue

/-- A packet is refused, or it is late enough, collides with none, and joins the queue. -/
theorem JitQueue.Holds.jitEnqueue (h : queue.Holds l) (hroom : l.length < jitQueueMax)
    (time : Timeval) (packet : LgwPktTx) (pkt_type : JitPktType) (ticks : ℕ) :
    ∃ err queue' ticks', jitEnqueue libs clock queue time packet pkt_type ticks
        = some (err, queue', ticks') ∧ ticks < ticks' ∧
      (queue' = queue ∨ ∃ l', queue'.Holds l' ∧
        l'.Perm (newNode libs time packet pkt_type :: l) ∧
        timercmp time (tooLate clock ticks) (· ≤ ·) = false ∧
        ∀ node ∈ l, jitCollisionTest time (txStartDelay + txJitDelay)
          (libs.lgw_time_on_air packet * 1000) node.tx_timestamp node.pre_delay node.post_delay
            = false) := by
  have hfilled := holds_iff_filled.mp h
  rw [show jitQueueMax - l.length = jitQueueMax - (l.length + 1) + 1 by omega,
    List.replicate_succ] at hfilled
  obtain ⟨err, queue', ticks', henqueue, hlt, hcase⟩ :=
    @JitQueue.Filled.jitEnqueue libs clock _ _ _ _ hfilled time packet pkt_type ticks
  refine ⟨err, queue', ticks', henqueue, hlt, hcase.imp_right fun ⟨hadmitted, hfilled'⟩ => ?_⟩
  have hperm := libs.qsort_r_perm compare (l ++ [newNode libs time packet pkt_type])
  refine ⟨_, holds_iff_filled.mpr ?_, hperm.trans (List.perm_append_singleton _ _),
    hadmitted.late, h.take_nodes ▸ hadmitted.apart⟩
  rwa [hperm.length_eq, List.length_append, List.length_singleton]

end LoRaGwSv
