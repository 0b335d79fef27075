import LoRaGwSv.Gateway.JitPeek

/-!
# Gateway/JitAdmission — which packets `jit_enqueue` lets in

A packet must lie more than 11 ms and less than 6 s ahead, and must not collide with one that
waits.  Each threshold is a clock reading with microseconds added, and `carrySeconds` carries only
what is more than a second: a sum of one second exactly stays as it is (`timercmp_tooLate`).  So the
queue takes in what it should **except for the packet that is due exactly 11 ms after a reading of
989000 µs** (`enqueuesRightly_iff`).
-/

namespace LoRaGwSv

open Timeval

/-- A call of `jit_enqueue` made while no other is. -/
def jitEnqueueCall (libs : JitLibs) (clock : Clock) (queue : JitQueue) (time : Timeval)
    (packet : LgwPktTx) (pkt_type : JitPktType) (ticks : ℕ) : Option (JitError × JitQueue × ℕ) :=
  if jitQueueIsFull queue then some (.full, queue, ticks)
  else jitEnqueue libs clock queue time packet pkt_type ticks

/-- Some packet of the queue collides with the new one. -/
def JitQueue.Collides (queue : JitQueue) (libs : JitLibs) (time : Timeval) (packet : LgwPktTx) :
    Prop :=
  ∃ node ∈ queue.packets, jitCollisionTest time (txStartDelay + txJitDelay)
    (libs.lgw_time_on_air packet * 1000) node.tx_timestamp node.pre_delay node.post_delay = true

instance JitQueue.decidableCollides (queue : JitQueue) (libs : JitLibs) (time : Timeval)
    (packet : LgwPktTx) : Decidable (queue.Collides libs time packet) :=
  List.decidableBEx _ _

/-- What the call should answer, by exact microseconds. -/
def admissionVerdict (libs : JitLibs) (queue : JitQueue) (now time : Timeval) (packet : LgwPktTx) :
    JitError :=
  if queue.num_pkt = 32 then .full
  else if time.micros ≤ now.micros + 11000 then .tooLate
  else if time.micros ≥ now.micros + 6000000 then .tooEarly
  else if queue.Collides libs time packet then .collisionPacket
  else .ok

/-- **The call answers what it should**: a refused packet leaves the queue unchanged, and one that
is let in is all the queue gains. -/
structure EnqueuesRightly (libs : JitLibs) (queue : JitQueue) (now time : Timeval)
    (packet : LgwPktTx) (pkt_type : JitPktType) (r : JitError × JitQueue × ℕ) : Prop where
  verdict : r.1 = admissionVerdict libs queue now time packet
  kept : r.1 ≠ .ok → r.2.1 = queue
  gained : r.1 = .ok → r.2.1.packets.Perm (newNode libs time packet pkt_type :: queue.packets)

/-- The packet is due 11 ms after the reading, and that is the start of the next second. -/
def DueOnTheSecond (now time : Timeval) : Prop :=
  now.tv_usec = 989000 ∧ time = ⟨now.tv_sec + 1, 0⟩

instance (now time : Timeval) : Decidable (DueOnTheSecond now time) :=
  inferInstanceAs (Decidable (_ ∧ _))

variable {libs : JitLibs} {now time : Timeval} {hnow : now.Normalised} {queue : JitQueue}
  {l rest : List JitNode} {packet : LgwPktTx} {pkt_type : JitPktType} {ticks : ℕ}

/-! ## The thresholds -/

/-- Carrying seconds does not change the time. -/
theorem micros_carrySeconds {t : Timeval} (h0 : 0 ≤ t.tv_usec) (h1 : t.tv_usec < 2 ^ 32) :
    (carrySeconds t).micros = t.micros := by
  rw [carrySeconds]
  split
  · rw [Int.emod_eq_of_lt h0 h1]
    simp only [micros]
    omega
  · rfl

/-- **The carry leaves out one case**: a million of microseconds is not more than a million, and
stays. -/
theorem normalised_carrySeconds {t : Timeval} (h0 : 0 ≤ t.tv_usec) (hne : t.tv_usec ≠ 1000000) :
    (carrySeconds t).Normalised := by
  rw [carrySeconds]
  split
  · exact ⟨Int.emod_nonneg _ (by decide), Int.emod_lt_of_pos _ (by decide)⟩
  · exact ⟨h0, by omega⟩

/-- **The lower threshold is 11 ms ahead, but for the packet due on the second.** -/
theorem timercmp_tooLate (htime : time.Normalised) :
    timercmp time (tooLate (.fixed now hnow) ticks) (· ≤ ·) = true ↔
      time.micros ≤ now.micros + 11000 ∧ ¬ DueOnTheSecond now time := by
  obtain ⟨h0, h1⟩ := id hnow
  obtain ⟨ht0, ht1⟩ := id htime
  have hadd : ((txMarginDelay + txJitDelay).toNat : ℤ) = 11000 := rfl
  rw [tooLate, Clock.fixed, hadd]
  dsimp only
  by_cases hcarry : now.tv_usec = 989000
  · -- the sum is a second exactly: it is not carried
    rw [carrySeconds, if_neg (by dsimp only; omega), timercmp]
    simp only [DueOnTheSecond, micros, Timeval.ext_iff]
    split <;> rw [decide_eq_true_iff] <;> omega
  · have hnorm := @normalised_carrySeconds ⟨now.tv_sec, now.tv_usec + 11000⟩
      (by dsimp only; omega) (by dsimp only; omega)
    rw [timercmp_le htime hnorm, micros_carrySeconds (by dsimp only; omega) (by dsimp only; omega)]
    simp only [DueOnTheSecond, micros]
    omega

theorem timercmp_tooEarly (htime : time.Normalised) :
    timercmp time (tooEarly (.fixed now hnow) ticks) (· ≥ ·) = true ↔
      time.micros ≥ now.micros + 6000000 := by
  obtain ⟨h0, h1⟩ := id hnow
  have hpos : 0 ≤ now.tv_usec + txMaxAdvanceDelay := by rw [txMaxAdvanceDelay]; omega
  have hlt : now.tv_usec + txMaxAdvanceDelay < 2 ^ 32 := by rw [txMaxAdvanceDelay]; omega
  have hne : now.tv_usec + txMaxAdvanceDelay ≠ 1000000 := by rw [txMaxAdvanceDelay]; omega
  have hnorm := @normalised_carrySeconds ⟨now.tv_sec, now.tv_usec + txMaxAdvanceDelay⟩ hpos hne
  rw [tooEarly, Clock.fixed, timercmp_ge htime hnorm, micros_carrySeconds hpos hlt,
    txMaxAdvanceDelay]
  simp only [micros]
  omega

/-! ## The call -/

/-- The tests of the section, in their order; the last leaves the new packet in the queue. -/
theorem JitQueue.Filled.jitEnqueue_eq {clock : Clock} {x : JitNode}
    (h : queue.Filled l (x :: rest)) (time : Timeval) (packet : LgwPktTx)
    (pkt_type : JitPktType) (ticks : ℕ) :
    ∃ queue' : JitQueue,
      queue'.packets.Perm (newNode libs time packet pkt_type :: queue.packets) ∧
      LoRaGwSv.jitEnqueue libs clock queue time packet pkt_type ticks = some (
        if timercmp time (tooLate clock ticks) (· ≤ ·) then (.tooLate, queue, ticks + 1)
        else if timercmp time (tooEarly clock (ticks + 1)) (· ≥ ·) then
          (.tooEarly, queue, ticks + 2)
        else if queue.Collides libs time packet then (.collisionPacket, queue, ticks + 2)
        else (.ok, queue', ticks + 2)) := by
  have hroom : queue.num_pkt.toNat < jitQueueMax := by
    have hlen := h.length_eq
    rw [List.length_cons] at hlen
    rw [h.num_eq]
    omega
  have hsorted := @JitQueue.Filled.jitSortQueue libs _ _ _
    (h.set_nodes (newNode libs time packet pkt_type))
  refine ⟨LoRaGwSv.jitSortQueue libs ⟨queue.num_pkt + 1, queue.nodes.set queue.num_pkt.toNat
    (newNode libs time packet pkt_type)⟩, ?_, ?_⟩
  · rw [hsorted.packets, h.packets]
    exact (libs.qsort_r_perm _ _).trans (List.perm_append_singleton _ _)
  · rw [LoRaGwSv.jitEnqueue]
    dsimp only
    rw [if_pos hroom, apply_ite some, apply_ite some, apply_ite some]
    refine if_congr Iff.rfl rfl (if_congr Iff.rfl rfl (if_congr ?_ rfl rfl))
    rw [List.any_eq_true, JitQueue.Collides, JitQueue.packets]

/-- **Whether a call answers what it should hangs on its lower threshold alone.** -/
theorem JitQueue.Filled.admits_iff {x : JitNode} (h : queue.Filled l (x :: rest))
    (htime : time.Normalised) (hfull : queue.num_pkt ≠ 32) :
    (∃ r, LoRaGwSv.jitEnqueue libs (.fixed now hnow) queue time packet pkt_type ticks = some r ∧
      EnqueuesRightly libs queue now time packet pkt_type r) ↔ ¬ DueOnTheSecond now time := by
  obtain ⟨queue', hperm, henqueue⟩ :=
    @JitQueue.Filled.jitEnqueue_eq libs _ _ _ (.fixed now hnow) _ h time packet pkt_type ticks
  rw [henqueue]
  simp only [timercmp_tooLate htime, timercmp_tooEarly htime]
  constructor
  · rintro ⟨r, hr, hright⟩ hdue
    have hlate : time.micros ≤ now.micros + 11000 := by
      obtain ⟨husec, rfl⟩ := hdue
      simp only [micros]
      omega
    have hverdict := hright.verdict
    rw [admissionVerdict, if_neg hfull, if_pos hlate, ← Option.some.inj hr,
      if_neg fun hcon => hcon.2 hdue] at hverdict
    split_ifs at hverdict
  · intro hdue
    refine ⟨_, rfl, ?_⟩
    simp only [hdue, not_false_eq_true, and_true]
    have hverdict := @admissionVerdict.eq_def libs queue now time packet
    rw [if_neg hfull] at hverdict
    split_ifs at hverdict ⊢
    case pos | pos | pos => exact ⟨hverdict.symm, fun _ => rfl, fun hok => JitError.noConfusion hok⟩
    case neg => exact ⟨hverdict.symm, fun hok => absurd rfl hok, fun _ => hperm⟩

/-- **A call of `jit_enqueue` answers what it should, and changes the queue only if it lets the
packet in, exactly unless the packet is due 11 ms ahead at the start of a second.** -/
theorem enqueuesRightly_iff (libs : JitLibs) (queue : JitQueue)
    (hlen : queue.nodes.length = jitQueueMax) (hnum : queue.num_pkt.toNat ≤ jitQueueMax)
    (packet : LgwPktTx) (pkt_type : JitPktType) (now time : Timeval) (hnow : now.Normalised)
    (htime : time.Normalised) (ticks : ℕ) :
    (∃ r, jitEnqueueCall libs (.fixed now hnow) queue time packet pkt_type ticks = some r ∧
      EnqueuesRightly libs queue now time packet pkt_type r) ↔
      queue.num_pkt = 32 ∨ ¬ DueOnTheSecond now time := by
  have h := JitQueue.filled_packets hlen hnum
  by_cases hfull : queue.num_pkt = 32
  · refine iff_of_true ⟨(.full, queue, ticks), ?_, ?_, fun _ => rfl, fun hok => nomatch hok⟩
      (Or.inl hfull)
    · rw [jitEnqueueCall, jitQueueIsFull, hfull]
      rfl
    · rw [admissionVerdict, if_pos hfull]
  · have hroom : queue.num_pkt.toNat < jitQueueMax := by
      refine hnum.lt_of_ne fun heq => hfull ?_
      exact UInt8.toNat_inj.mp heq
    obtain ⟨x, rest, hrest⟩ : ∃ x rest, queue.nodes.drop queue.num_pkt.toNat = x :: rest := by
      refine List.exists_cons_of_length_pos ?_
      rw [List.length_drop]
      omega
    rw [hrest] at h
    have hnot : ¬ jitQueueIsFull queue := by
      rw [jitQueueIsFull, decide_eq_true_iff]
      exact hroom.ne
    rw [or_iff_right hfull, jitEnqueueCall, if_neg hnot]
    exact h.admits_iff htime hfull

/-- Two packets wait, for 1.5 s and for 2 s. -/
def twoWaiting : JitQueue :=
  ⟨2, [newNode someLibs ⟨1700000001, 500000⟩ zeroPkt .downlink,
    newNode someLibs ⟨1700000002, 0⟩ zeroPkt .downlink] ++ List.replicate 30 zeroNode⟩

/-- A packet due 11 ms and 1 µs ahead is let in before the two. -/
theorem enqueuesRightly_iff_later :
    ∃ r, jitEnqueueCall someLibs (.fixed ⟨1700000000, 989000⟩ (by decide)) twoWaiting
        ⟨1700000001, 1⟩ zeroPkt .downlink 0 = some r ∧
      EnqueuesRightly someLibs twoWaiting ⟨1700000000, 989000⟩ ⟨1700000001, 1⟩ zeroPkt .downlink
        r :=
  (enqueuesRightly_iff someLibs _ rfl (by decide) zeroPkt _ _ _ _ (by decide) 0).mpr
    (Or.inr (by decide))

/-- **A packet due exactly 11 ms ahead is let in as well.** -/
theorem not_enqueuesRightly_dueOnTheSecond :
    ¬ ∃ r, jitEnqueueCall someLibs (.fixed ⟨1700000000, 989000⟩ (by decide)) jitQueueInit
        ⟨1700000001, 0⟩ zeroPkt .downlink 0 = some r ∧
      EnqueuesRightly someLibs jitQueueInit ⟨1700000000, 989000⟩ ⟨1700000001, 0⟩ zeroPkt .downlink
        r := by
  rintro ⟨r, hr, hright⟩
  have hlet : (jitEnqueueCall someLibs (.fixed ⟨1700000000, 989000⟩ (by decide)) jitQueueInit
      ⟨1700000001, 0⟩ zeroPkt .downlink 0).all (fun r => r.1 = .ok) = true := by decide +kernel
  rw [hr, Option.all_some, decide_eq_true_iff, hright.verdict] at hlet
  exact absurd hlet (by decide)

end LoRaGwSv
