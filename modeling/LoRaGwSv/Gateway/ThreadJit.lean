import LoRaGwSv.Gateway.Airtime

/-!
# Gateway/ThreadJit — sending packets when they are due (`thread_jit`)

`thread_jit` peeks into the queue, and takes the packet at the index it gets in another section.
`thread_down` may come in between with a packet of its own.  A packet is taken when it is due as
long as none comes to the index in between, and not more than one packet is outdated when the queue
is peeked into (`allDue_run`): after a purge node 0 is not looked at again.
-/

namespace LoRaGwSv

open Timeval

/-- Where `thread_jit` stands; `now` is the reading by which the last peek has selected. -/
inductive JitStage
  | peek
  /-- In `jit_peek`, which has found the queue not empty. -/
  | peekSection
  | dequeue (pkt_index : ℕ) (now : Timeval)
  /-- In `jit_dequeue`, which has found the queue not empty. -/
  | dequeueSection (pkt_index : ℕ) (now : Timeval)
  /-- With a packet out of the queue, before the concentrator is asked for its status. -/
  | send (node : JitNode)
deriving DecidableEq

/-- The concentrator: the status that `lgw_status` tells for the `k`-th packet, unless it fails, and
whether `lgw_send` takes the packet then. -/
structure Concentrator where
  lgw_status : ℕ → Option UInt8
  lgw_send : ℕ → LgwPktTx → Bool

/-- `TX_EMITTING`. -/
def txEmitting : UInt8 := 4

/-- The queue with its two threads: the packet `thread_down` is about to insert, the packets taken
for `lgw_send` so far, each with the reading it was selected by, and what has become of them. -/
structure JitThreads where
  queue : JitQueue
  ticks : ℕ
  inserting : Option (Timeval × LgwPktTx)
  stage : JitStage
  taken : List (Timeval × JitNode)
  sent : List JitNode
  dropped : List JitNode

/-- Both threads at their start, with the queue empty. -/
def JitThreads.init : JitThreads := ⟨jitQueueInit, 0, none, .peek, [], [], []⟩

/-- Which thread goes on, `thread_down` with the time and packet of a datagram. -/
inductive JitMove
  | down (tm_s tm_us : UInt32) (txpkt : LgwPktTx)
  | jit

/-- The next section of `jit_enqueue`. -/
def JitThreads.threadDown (libs : JitLibs) (clock : Clock) (s : JitThreads) (time : Timeval)
    (txpkt : LgwPktTx) : Option JitThreads :=
  match s.inserting with
  | none =>
    some (if jitQueueIsFull s.queue then s else { s with inserting := some (time, txpkt) })
  | some (time, txpkt) =>
    (jitEnqueue libs clock s.queue time txpkt .downlink s.ticks).map fun (_, queue, ticks) =>
      { s with queue := queue, ticks := ticks, inserting := none }

/-- The next section of the loop of `thread_jit`.  A packet is given up if the concentrator is
emitting or `lgw_send` fails. -/
def JitThreads.threadJit (libs : JitLibs) (clock : Clock) (radio : Concentrator) (s : JitThreads) :
    Option JitThreads :=
  match s.stage with
  | .peek => some (if jitQueueIsEmpty s.queue then s else { s with stage := .peekSection })
  | .peekSection =>
    (jitPeek libs clock s.queue s.ticks).map fun (queue, pkt_index, ticks) =>
      { s with
        queue := queue
        ticks := ticks
        stage :=
          if pkt_index > -1 then .dequeue pkt_index.toNat (clock.reading (ticks - 1)) else .peek }
  | .dequeue pkt_index now =>
    some { s with
      stage :=
        if pkt_index ≥ jitQueueMax ∨ jitQueueIsEmpty s.queue then .peek
        else .dequeueSection pkt_index now }
  | .dequeueSection pkt_index now =>
    (jitDequeue libs s.queue pkt_index).map fun (node, queue) =>
      { s with queue := queue, stage := .send node, taken := s.taken ++ [(now, node)] }
  | .send node =>
    let k := s.taken.length
    if radio.lgw_status k ≠ some txEmitting ∧ radio.lgw_send k node.pkt then
      some { s with stage := .peek, sent := s.sent ++ [node] }
    else some { s with stage := .peek, dropped := s.dropped ++ [node] }

/-- One section of the thread whose turn it is. -/
def JitThreads.step (libs : JitLibs) (clock : Clock) (radio : Concentrator) (s : JitThreads) :
    JitMove → Option JitThreads
  | .down tm_s tm_us txpkt => s.threadDown libs clock ⟨tm_s.toNat, tm_us.toNat⟩ txpkt
  | .jit => s.threadJit libs clock radio

/-! ## Due packets -/

/-- The packet is due by the clock. -/
def JitNode.Due (node : JitNode) (now : Timeval) : Prop :=
  now.micros ≤ node.tx_timestamp.micros ∧ node.tx_timestamp.micros < now.micros + 500

instance (node : JitNode) (now : Timeval) : Decidable (node.Due now) :=
  inferInstanceAs (Decidable (_ ∧ _))

/-- **Each packet taken for sending was due when it was selected.** -/
def JitThreads.AllDue (s : JitThreads) : Prop := ∀ d ∈ s.taken, d.2.Due d.1

/-- The index at which `thread_jit` is to take a packet. -/
def JitStage.held : JitStage → Option ℕ
  | .peek => none
  | .peekSection => none
  | .dequeue pkt_index _ => some pkt_index
  | .dequeueSection pkt_index _ => some pkt_index
  | .send _ => none

/-- What `jit_enqueue` is about to do leaves the packet at that index where it is. -/
def JitThreads.KeepsHeld (libs : JitLibs) (clock : Clock) (s : JitThreads) : Prop :=
  ∀ x ∈ s.inserting, ∀ i ∈ s.stage.held,
    ∀ r ∈ jitEnqueue libs clock s.queue x.1 x.2 .downlink s.ticks,
      r.2.1.nodes.getD i zeroNode = s.queue.nodes.getD i zeroNode

instance (libs : JitLibs) (clock : Clock) (s : JitThreads) : Decidable (s.KeepsHeld libs clock) :=
  inferInstanceAs (Decidable (∀ x ∈ _, _))

instance (clock : Clock) (k : ℕ) (node : JitNode) : Decidable (clock.Outdates k node) :=
  inferInstanceAs (Decidable (_ = true))

/-- By the last reading of the peek at most one packet is outdated, and not one that was at node 0
and still in time at the first reading. -/
def JitThreads.PeeksInTime (libs : JitLibs) (clock : Clock) (s : JitThreads) : Prop :=
  ∀ r ∈ jitPeek libs clock s.queue s.ticks,
    ((s.queue.nodes.take s.queue.num_pkt.toNat).countP
      fun node => clock.Outdates (r.2.2 - 1) node) ≤ 1 ∧
    (clock.Outdates (r.2.2 - 1) (s.queue.nodes.getD 0 zeroNode) →
      clock.Outdates s.ticks (s.queue.nodes.getD 0 zeroNode))

instance (libs : JitLibs) (clock : Clock) (s : JitThreads) :
    Decidable (s.PeeksInTime libs clock) :=
  inferInstanceAs (Decidable (∀ r ∈ _, _))

/-- **What a section needs for packets to be sent when they are due**: between a peek and its
dequeue `thread_down` puts no packet where another was found, and a peek does not come late for two
packets. -/
def JitThreads.InTime (libs : JitLibs) (clock : Clock) (s : JitThreads) : JitMove → Prop
  | .down _ _ _ => s.KeepsHeld libs clock
  | .jit => s.stage = .peekSection → s.PeeksInTime libs clock

instance (libs : JitLibs) (clock : Clock) (s : JitThreads) (a : JitMove) :
    Decidable (s.InTime libs clock a) :=
  match a with
  | .down _ _ _ => inferInstanceAs (Decidable (s.KeepsHeld libs clock))
  | .jit => inferInstanceAs (Decidable (_ → _))

/-- The clock never goes back. -/
def Clock.Nondecreasing (clock : Clock) : Prop :=
  ∀ j k, j ≤ k → (clock.reading j).micros ≤ (clock.reading k).micros

variable {libs : JitLibs} {clock : Clock} {radio : Concentrator} {queue : JitQueue}
  {s t : JitThreads} {l : List JitNode} {node : JitNode}

/-! ## One peek -/

theorem Clock.Nondecreasing.outdates (h : clock.Nondecreasing) {j k : ℕ} (hjk : j ≤ k)
    (hout : clock.Outdates j node) : clock.Outdates k node := by
  have hmono := h j k hjk
  obtain ⟨hj0, hj1⟩ := clock.normalised j
  obtain ⟨hk0, hk1⟩ := clock.normalised k
  rw [micros, micros] at hmono
  rw [Clock.Outdates, timercmp] at hout ⊢
  split at hout <;> split <;> rw [decide_eq_true_iff] at hout ⊢ <;> omega

/-- A packet that is not outdated has its time ahead, even if its microseconds are more than a
second. -/
theorem le_micros_of_not_outdates {k : ℕ} (hnode : 0 ≤ node.tx_timestamp.tv_usec)
    (hout : ¬ clock.Outdates k node) :
    (clock.reading k).micros ≤ node.tx_timestamp.micros := by
  obtain ⟨h0, h1⟩ := clock.normalised k
  rw [Clock.Outdates, timercmp] at hout
  rw [micros, micros]
  split at hout <;> rw [decide_eq_true_iff] at hout <;> omega

/-- A peek selects the first packet left if that is due within the threshold. -/
theorem JitQueue.Holds.jitPeek_of_purge {queue' : JitQueue} {l' : List JitNode} {ticks last : ℕ}
    (h : queue.Holds l)
    (hpurge : LoRaGwSv.jitPurge libs clock l.length 0 queue ticks = some (queue', last))
    (hholds : queue'.Holds l') :
    ∃ idx, LoRaGwSv.jitPeek libs clock queue ticks = some (queue', idx, last + 1) ∧
      (idx > -1 → idx = 0 ∧
        (l'.getD 0 zeroNode).tx_timestamp.micros < (clock.reading last).micros + 500) := by
  rw [LoRaGwSv.jitPeek, h.num_eq, hpurge, Option.map_some]
  refine ⟨_, rfl, fun hidx => ?_⟩
  have hsub := micros_timersub (l'.getD 0 zeroNode).tx_timestamp (clock.reading last)
  split at hidx
  case isTrue hlt =>
    rw [hholds.getD_nodes] at hlt
    rw [micros] at hsub
    rw [if_pos (by rwa [hholds.getD_nodes])]
    have : txDeviationThreshold = 500 := rfl
    exact ⟨rfl, by omega⟩
  case isFalse => exact absurd hidx (by decide)

/-- **What a peek in time selects is due.** -/
theorem JitQueue.Holds.jitPeek (h : queue.Holds l) (hne : l ≠ []) (hmono : clock.Nondecreasing)
    (hnonneg : ∀ node ∈ l, 0 ≤ node.tx_timestamp.tv_usec) {ticks : ℕ}
    (hcount : ∀ r ∈ jitPeek libs clock queue ticks,
      (l.countP fun node => clock.Outdates (r.2.2 - 1) node) ≤ 1 ∧
      (clock.Outdates (r.2.2 - 1) (l.getD 0 zeroNode) →
        clock.Outdates ticks (l.getD 0 zeroNode))) :
    ∃ queue' idx ticks' l', jitPeek libs clock queue ticks = some (queue', idx, ticks') ∧
      queue'.Holds l' ∧ l' ⊆ l ∧ l'.length ≤ l.length ∧ (idx > -1 → idx.toNat = 0 ∧
        (l' ≠ [] → (l'.getD 0 zeroNode).Due (clock.reading (ticks' - 1)))) := by
  obtain ⟨queue', last, l', dropped, hpurge, hholds, hperm, hle, hdropped, hkept⟩ :=
    @JitQueue.Holds.jitPurge libs clock _ _ 0 h (Nat.zero_le 1) ticks
  obtain ⟨idx, hidx, hdue⟩ := h.jitPeek_of_purge hpurge hholds
  obtain ⟨hone, hhead⟩ := hcount _ hidx
  rw [Nat.add_sub_cancel] at hone hhead
  have hsub : l' ⊆ l := fun node hnode => hperm.mem_iff.mpr (List.mem_append_right _ hnode)
  refine ⟨queue', idx, last + 1, l', hidx, hholds, hsub, ?_, fun hpos => ?_⟩
  · rw [hperm.length_eq, List.length_append]
    exact Nat.le_add_left _ _
  · obtain ⟨rfl, hlt⟩ := hdue hpos
    refine ⟨rfl, fun hne' => ?_⟩
    have hmem : l'.getD 0 zeroNode ∈ l' := by
      rw [List.getD_eq_getElem _ _ (List.length_pos_iff.mpr hne')]
      exact List.getElem_mem _
    rw [Nat.add_sub_cancel]
    refine ⟨le_micros_of_not_outdates (hnonneg _ (hsub hmem)) fun hout => ?_, hlt⟩
    cases dropped with
    | nil =>
      obtain ⟨rfl, hfirst⟩ := hkept rfl
      exact hfirst rfl hne (hhead hout)
    | cons d dropped =>
      -- the one outdated packet is among those dropped
      obtain ⟨k, -, hk, hd⟩ := hdropped d List.mem_cons_self
      have hd := hmono.outdates hk.le hd
      rw [hperm.countP_eq, List.cons_append, List.countP_cons, List.countP_append,
        if_pos (decide_eq_true hd)] at hone
      have : 0 < l'.countP fun node => clock.Outdates last node :=
        List.countP_pos_iff.mpr ⟨_, hmem, decide_eq_true hout⟩
      omega

/-! ## The two threads -/

/-- What holds between any two sections of a run that is in time: the index `thread_jit` has is
that of a due packet, unless the purge has left none. -/
structure JitThreads.Inv (s : JitThreads) (l : List JitNode) : Prop where
  holds : s.queue.Holds l
  nonneg : ∀ node ∈ l, 0 ≤ node.tx_timestamp.tv_usec
  inserting : ∀ x ∈ s.inserting, l.length < jitQueueMax ∧ 0 ≤ x.1.tv_usec
  peekSection : s.stage = .peekSection → l ≠ []
  dequeue : ∀ i now, s.stage = .dequeue i now → i = 0 ∧ (l ≠ [] → (l.getD 0 zeroNode).Due now)
  dequeueSection : ∀ i now, s.stage = .dequeueSection i now →
    i = 0 ∧ l ≠ [] ∧ (l.getD 0 zeroNode).Due now
  allDue : s.AllDue

theorem inv_init : JitThreads.init.Inv [] where
  holds := holds_jitQueueInit
  nonneg := by simp
  inserting := by simp [JitThreads.init]
  peekSection h := absurd h (by simp [JitThreads.init])
  dequeue i now h := absurd h (by simp [JitThreads.init])
  dequeueSection i now h := absurd h (by simp [JitThreads.init])
  allDue := by simp [JitThreads.AllDue, JitThreads.init]

/-- A packet that is let in is not wiped. -/
theorem newNode_ne_zeroNode (time : Timeval) (packet : LgwPktTx) (pkt_type : JitPktType) :
    newNode libs time packet pkt_type ≠ zeroNode := by
  intro h
  have hpre : (11500 : UInt32) = 0 := congrArg JitNode.pre_delay h
  exact absurd hpre (by decide)

/-- Where a packet is kept there has been one. -/
theorem ne_nil_of_kept {l' : List JitNode} {time : Timeval} {packet : LgwPktTx}
    {pkt_type : JitPktType} (hperm : l'.Perm (newNode libs time packet pkt_type :: l))
    (hkept : l'.getD 0 zeroNode = l.getD 0 zeroNode) : l ≠ [] := by
  rintro rfl
  rw [List.perm_singleton.mp hperm] at hkept
  exact newNode_ne_zeroNode time packet pkt_type hkept

/-- A packet that is let in leaves the queue in order, as long as the packet at the index that
`thread_jit` holds stays. -/
theorem JitThreads.Inv.insert {l' : List JitNode} {time : Timeval} {packet : LgwPktTx}
    (h : s.Inv l) (hholds : queue.Holds l')
    (hperm : l'.Perm (newNode libs time packet .downlink :: l)) (htime : 0 ≤ time.tv_usec)
    (hheld : ∀ i ∈ s.stage.held, queue.nodes.getD i zeroNode = s.queue.nodes.getD i zeroNode)
    (ticks : ℕ) : { s with queue := queue, ticks := ticks, inserting := none }.Inv l' := by
  have hzero : 0 ∈ s.stage.held → l ≠ [] ∧ l'.getD 0 zeroNode = l.getD 0 zeroNode := fun hmem => by
    have hkept := hheld 0 hmem
    rw [hholds.getD_nodes, h.holds.getD_nodes] at hkept
    exact ⟨ne_nil_of_kept hperm hkept, hkept⟩
  have hne : l' ≠ [] := fun hnil => by simp [hnil] at hperm
  exact
    { holds := hholds
      nonneg := fun node hnode => by
        rcases List.mem_cons.mp (hperm.mem_iff.mp hnode) with rfl | hnode
        · exact htime
        · exact h.nonneg node hnode
      inserting := by simp
      peekSection := fun _ => hne
      dequeue := fun i now hs => by
        obtain ⟨rfl, hdue⟩ := h.dequeue i now hs
        obtain ⟨hne, hkept⟩ := hzero (by rw [show s.stage = _ from hs]; exact rfl)
        exact ⟨rfl, fun _ => hkept ▸ hdue hne⟩
      dequeueSection := fun i now hs => by
        obtain ⟨rfl, -, hdue⟩ := h.dequeueSection i now hs
        obtain ⟨-, hkept⟩ := hzero (by rw [show s.stage = _ from hs]; exact rfl)
        exact ⟨rfl, hne, hkept ▸ hdue⟩
      allDue := h.allDue }

/-- `thread_down` may insert as long as the packet at the index of `thread_jit` stays. -/
theorem JitThreads.Inv.threadDown (h : s.Inv l) {time : Timeval} (htime : 0 ≤ time.tv_usec)
    (txpkt : LgwPktTx) (hkeeps : s.KeepsHeld libs clock) :
    ∃ t l', s.threadDown libs clock time txpkt = some t ∧ t.Inv l' := by
  rw [JitThreads.threadDown.eq_def]
  split
  case h_1 =>
    split
    case isTrue => exact ⟨s, l, rfl, h⟩
    case isFalse hfull =>
      rw [h.holds.jitQueueIsFull_iff] at hfull
      refine ⟨_, l, rfl, { h with inserting := fun x hx => ?_ }⟩
      obtain rfl := Option.some.inj hx
      exact ⟨lt_of_le_of_ne h.holds.length_le hfull, htime⟩
  case h_2 time txpkt hins =>
    obtain ⟨hroom, htime⟩ := h.inserting _ hins
    obtain ⟨err, queue', ticks', henqueue, -, hqueue'⟩ :=
      @JitQueue.Holds.jitEnqueue libs clock _ _ h.holds hroom time txpkt .downlink s.ticks
    rw [henqueue, Option.map_some]
    obtain rfl | ⟨l', hholds, hperm, -⟩ := hqueue'
    · exact ⟨_, l, rfl, { h with inserting := by simp }⟩
    · have hheld := fun i hi => hkeeps _ hins i hi _ henqueue
      exact ⟨_, l', rfl, h.insert hholds hperm htime hheld ticks'⟩

/-- A peek in time gives the index of a due packet. -/
theorem JitThreads.Inv.threadJit_peekSection (h : s.Inv l) (hmono : clock.Nondecreasing)
    (hs : s.stage = .peekSection) (hpeeks : s.PeeksInTime libs clock) :
    ∃ t l', s.threadJit libs clock radio = some t ∧ t.Inv l' := by
  rw [JitThreads.PeeksInTime, h.holds.take_nodes, h.holds.getD_nodes] at hpeeks
  obtain ⟨queue', idx, ticks', l', hpeek, hholds, hsub, hle, hdue⟩ :=
    h.holds.jitPeek (h.peekSection hs) hmono h.nonneg hpeeks
  rw [JitThreads.threadJit.eq_def, hs]
  dsimp only
  rw [hpeek, Option.map_some]
  refine ⟨_, l', rfl, ?_⟩
  exact
    { holds := hholds
      nonneg := fun node hnode => h.nonneg node (hsub hnode)
      inserting := fun x hx =>
        ⟨hle.trans_lt (h.inserting x hx).1, (h.inserting x hx).2⟩
      peekSection := fun hs => by
        dsimp only at hs
        split at hs <;> simp at hs
      dequeue := fun i now hs => by
        dsimp only at hs
        split at hs
        case isTrue hidx =>
          obtain ⟨rfl, rfl⟩ := by simpa using hs
          exact hdue hidx
        case isFalse => simp at hs
      dequeueSection := fun i now hs => by
        dsimp only at hs
        split at hs <;> simp at hs
      allDue := h.allDue }

/-- The index is kept if the queue has not become empty. -/
theorem JitThreads.Inv.threadJit_dequeue {i : ℕ} {now : Timeval} (h : s.Inv l)
    (hs : s.stage = .dequeue i now) : ∃ t, s.threadJit libs clock radio = some t ∧ t.Inv l := by
  obtain ⟨rfl, hdue⟩ := h.dequeue i now hs
  rw [JitThreads.threadJit.eq_def, hs]
  dsimp only
  refine ⟨_, rfl, { h with peekSection := ?_, dequeue := ?_, dequeueSection := ?_ }⟩
  · dsimp only
    split <;> simp
  · dsimp only
    split <;> simp
  · intro j now' hs
    dsimp only at hs
    split at hs
    case isTrue => simp at hs
    case isFalse hgo =>
      obtain ⟨rfl, rfl⟩ := by simpa using hs
      have hne : l ≠ [] := fun hnil => hgo (Or.inr (h.holds.jitQueueIsEmpty_iff.mpr hnil))
      exact ⟨rfl, hne, hdue hne⟩

/-- The packet taken is the one that is due. -/
theorem JitThreads.Inv.threadJit_dequeueSection {i : ℕ} {now : Timeval} (h : s.Inv l)
    (hs : s.stage = .dequeueSection i now) :
    ∃ t l', s.threadJit libs clock radio = some t ∧ t.Inv l' := by
  obtain ⟨rfl, hne, hdue⟩ := h.dequeueSection i now hs
  obtain ⟨queue', l', hqueue', hholds, hperm⟩ :=
    @JitQueue.Holds.jitReplaceNode libs _ _ _ h.holds (List.length_pos_iff.mpr hne)
  have hsub : l' ⊆ l := fun node hnode =>
    (List.eraseIdx_sublist l 0).subset (hperm.mem_iff.mp hnode)
  have hle : l'.length ≤ l.length := by
    rw [hperm.length_eq]
    exact (List.eraseIdx_sublist l 0).length_le
  rw [JitThreads.threadJit.eq_def, hs]
  dsimp only
  rw [jitDequeue, hqueue', Option.map_some, Option.map_some]
  refine ⟨_, l', rfl, ?_⟩
  exact
    { holds := hholds
      nonneg := fun node hnode => h.nonneg node (hsub hnode)
      inserting := fun x hx =>
        ⟨hle.trans_lt (h.inserting x hx).1, (h.inserting x hx).2⟩
      peekSection := fun hs => by simp at hs
      dequeue := fun _ _ hs => by simp at hs
      dequeueSection := fun _ _ hs => by simp at hs
      allDue := fun d hd => by
        rcases List.mem_append.mp hd with hd | hd
        · exact h.allDue d hd
        · obtain rfl := List.mem_singleton.mp hd
          rwa [h.holds.getD_nodes] }

/-- Whether the packet is sent or given up, the queue stays as it is. -/
theorem JitThreads.Inv.threadJit_send (h : s.Inv l) (hs : s.stage = .send node) :
    ∃ t, s.threadJit libs clock radio = some t ∧ t.Inv l := by
  rw [JitThreads.threadJit.eq_def, hs]
  dsimp only
  split
  all_goals
    refine ⟨_, rfl, { h with peekSection := ?_, dequeue := ?_, dequeueSection := ?_ }⟩
    all_goals simp

/-- `thread_jit` takes a due packet if it peeks in time. -/
theorem JitThreads.Inv.threadJit (h : s.Inv l) (hmono : clock.Nondecreasing)
    (hpeeks : s.stage = .peekSection → s.PeeksInTime libs clock) :
    ∃ t l', s.threadJit libs clock radio = some t ∧ t.Inv l' := by
  cases hs : s.stage with
  | peek =>
    rw [JitThreads.threadJit.eq_def, hs]
    dsimp only
    split
    case isTrue => exact ⟨s, l, rfl, h⟩
    case isFalse hempty =>
      rw [h.holds.jitQueueIsEmpty_iff] at hempty
      exact ⟨_, l, rfl,
        { h with
          peekSection := fun _ => hempty
          dequeue := fun _ _ hs => by simp at hs
          dequeueSection := fun _ _ hs => by simp at hs }⟩
  | peekSection => exact h.threadJit_peekSection hmono hs (hpeeks hs)
  | dequeue i now =>
    obtain ⟨t, ht, hinv⟩ := h.threadJit_dequeue hs
    exact ⟨t, l, ht, hinv⟩
  | dequeueSection i now => exact h.threadJit_dequeueSection hs
  | send node =>
    obtain ⟨t, ht, hinv⟩ := h.threadJit_send hs
    exact ⟨t, l, ht, hinv⟩

/-- **Packets are taken when they are due, as long as `thread_down` puts none in the place of one
between a peek and its dequeue, and no peek comes late for two packets**, or for the one it has just
looked at. -/
theorem allDue_run (libs : JitLibs) (clock : Clock) (radio : Concentrator)
    (hmono : clock.Nondecreasing) (moves : List JitMove)
    (h : Runs.EachStep (JitThreads.step libs clock radio) (JitThreads.InTime libs clock)
      JitThreads.init moves) :
    Runs.Always (JitThreads.step libs clock radio) JitThreads.AllDue JitThreads.init moves := by
  have hstep : ∀ s a, (∃ l, JitThreads.Inv s l) → JitThreads.InTime libs clock s a →
      ∃ t, JitThreads.step libs clock radio s a = some t ∧ ∃ l, t.Inv l := by
    rintro s a ⟨l, hinv⟩ hin
    cases a with
    | down tm_s tm_us txpkt =>
      have htime : 0 ≤ (Timeval.mk tm_s.toNat tm_us.toNat).tv_usec := Int.natCast_nonneg _
      obtain ⟨t, l', ht, hinv'⟩ := hinv.threadDown htime txpkt hin
      exact ⟨t, ht, l', hinv'⟩
    | jit =>
      obtain ⟨t, l', ht, hinv'⟩ := hinv.threadJit hmono hin
      exact ⟨t, ht, l', hinv'⟩
  refine (Runs.always_of_eachStep hstep ⟨[], inv_init⟩ moves h).imp ?_
  rintro s ⟨l, hinv⟩
  exact hinv.allDue

/-- 100 s for `n` readings, then 102 s. -/
def jumpingClock (n : ℕ) : Clock where
  reading k := if k < n then ⟨100, 0⟩ else ⟨102, 0⟩
  normalised k := by split <;> decide

/-- A concentrator that takes every packet. -/
def freeConcentrator : Concentrator := ⟨fun _ => none, fun _ _ => true⟩

/-- A packet for 102 s, with a peek at 100 s and one in time, after which another packet is refused
before the dequeue. -/
theorem allDue_run_one : Runs.Always (JitThreads.step someLibs (jumpingClock 4) freeConcentrator)
    JitThreads.AllDue JitThreads.init
    [.down 102 0 zeroPkt, .down 102 0 zeroPkt, .jit, .jit, .jit, .jit, .down 101 0 zeroPkt,
      .down 101 0 zeroPkt, .jit, .jit, .jit] := by
  refine allDue_run someLibs (jumpingClock 4) freeConcentrator (fun j k hjk => ?_) _
    (Runs.eachStep_of_checkEach _ (by decide +kernel))
  simp only [jumpingClock]
  split <;> split <;> first | decide | omega

/-- Two packets are outdated when `thread_jit` gets to peek; the second is taken 0.8 s late. -/
theorem not_allDue_late : (jumpingClock 4).Nondecreasing ∧
    ¬ Runs.Always (JitThreads.step someLibs (jumpingClock 4) freeConcentrator) JitThreads.AllDue
      JitThreads.init [.down 101 0 zeroPkt, .down 101 0 zeroPkt, .down 101 200000 zeroPkt,
        .down 101 200000 zeroPkt, .jit, .jit, .jit, .jit] := by
  refine ⟨fun j k hjk => ?_, Runs.not_always_of_last
    (fun s : JitThreads => ∀ d ∈ s.taken, d.2.Due d.1) (fun s h => h) (by decide +kernel)⟩
  simp only [jumpingClock]
  split <;> split <;> first | decide | omega

end LoRaGwSv
