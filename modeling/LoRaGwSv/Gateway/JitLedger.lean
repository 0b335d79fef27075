import Mathlib.Data.Multiset.AddSub
import LoRaGwSv.Gateway.JitAdmission
import LoRaGwSv.Gateway.ThreadJit

/-!
# Gateway/JitLedger — where the packets of the queue go (`jitqueue.c`, `thread_jit`)

When packets are sent late or in the wrong order depends on how `thread_down` and `thread_jit` come
in between each other.  What does not is where they can go (`jitLedger_run`): **each packet let into
the queue is sent once, or has been purged after its time, or was given up because the concentrator
was emitting or refused it when its turn came, or is still on its way**.  The index `thread_jit`
takes over from the peek may have come to mean another packet, but it takes that one out as well.
-/

namespace LoRaGwSv

open scoped List

/-- The two threads, with the packets let into the queue and those a peek has dropped. -/
structure JitLedger where
  threads : JitThreads
  accepted : List JitNode
  purged : List JitNode

/-- Before the first move nothing has come in, and nothing has gone out. -/
def JitLedger.init : JitLedger := ⟨JitThreads.init, [], []⟩

/-- The packet `jit_enqueue` lets in. -/
def JitThreads.accepts (libs : JitLibs) (clock : Clock) (s : JitThreads) : JitMove → List JitNode
  | .jit => []
  | .down _ _ _ =>
    match s.inserting with
    | none => []
    | some (time, txpkt) =>
      match jitEnqueue libs clock s.queue time txpkt .downlink s.ticks with
      | some (.ok, _, _) => [newNode libs time txpkt .downlink]
      | _ => []

/-- What `jit_peek` takes out of the queue. -/
def JitThreads.purges (libs : JitLibs) (clock : Clock) (s : JitThreads) : JitMove → List JitNode
  | .down _ _ _ => []
  | .jit =>
    match s.stage with
    | .peekSection =>
      match jitPeek libs clock s.queue s.ticks with
      | some (queue, _, _) => s.queue.packets.diff queue.packets
      | none => []
    | _ => []

/-- The packet that `thread_jit` has in hand. -/
def JitStage.inHand : JitStage → List JitNode
  | .peek => []
  | .peekSection => []
  | .dequeue _ _ => []
  | .dequeueSection _ _ => []
  | .send node => [node]

/-- The concentrator takes the packet whose turn is the `k`-th: it is not emitting then, and
`lgw_send` does not fail. -/
def Concentrator.Takes (radio : Concentrator) (node : JitNode) (k : ℕ) : Prop :=
  radio.lgw_status k ≠ some txEmitting ∧ radio.lgw_send k node.pkt

instance (radio : Concentrator) (node : JitNode) (k : ℕ) : Decidable (radio.Takes node k) :=
  inferInstanceAs (Decidable (_ ∧ _))

/-- Of packets that have had their turns one after the other, those the concentrator took. -/
def Concentrator.sends (radio : Concentrator) (done : List JitNode) : List JitNode :=
  ((done.zipIdx 1).filter fun x => radio.Takes x.1 x.2).map Prod.fst

/-- The others of them. -/
def Concentrator.refuses (radio : Concentrator) (done : List JitNode) : List JitNode :=
  ((done.zipIdx 1).filter fun x => ¬ radio.Takes x.1 x.2).map Prod.fst

/-- Of the packets out of the queue all but the one in hand have had their turn, and those were sent
that the concentrator took at that turn, the others given up. -/
def JitThreads.Judged (radio : Concentrator) (s : JitThreads) : Prop :=
  ∃ done, s.taken.map Prod.snd = done ++ s.stage.inHand ∧
    s.sent = radio.sends done ∧ s.dropped = radio.refuses done

/-- **Each packet let in is in one place**, one of those sent, given up or purged, in the hand of
`thread_jit` or in the queue; it was given up or purged for a reason. -/
structure JitLedger.Balanced (clock : Clock) (radio : Concentrator) (s : JitLedger) : Prop where
  accepted : s.accepted.Perm (s.threads.sent ++ s.threads.dropped ++ s.purged ++
    s.threads.stage.inHand ++ s.threads.queue.packets)
  judged : s.threads.Judged radio
  purged : ∀ node ∈ s.purged, ∃ k < s.threads.ticks, clock.Outdates k node

/-- A move of one of the threads, with the entry it makes in the ledger. -/
def JitLedger.step (libs : JitLibs) (clock : Clock) (radio : Concentrator) (s : JitLedger)
    (move : JitMove) : Option JitLedger :=
  (s.threads.step libs clock radio move).map fun threads =>
    ⟨threads, s.accepted ++ s.threads.accepts libs clock move,
      s.purged ++ s.threads.purges libs clock move⟩

variable {libs : JitLibs} {clock : Clock} {radio : Concentrator} {queue queue' : JitQueue}
  {l l' : List JitNode}

/-! ## The calls -/

/-- A packet is let in exactly if the call returns `JIT_ERROR_OK`. -/
theorem jitEnqueue_accepts (h : queue.Holds l) (hroom : l.length < jitQueueMax) (time : Timeval)
    (packet : LgwPktTx) (pkt_type : JitPktType) (ticks : ℕ) :
    ∃ err queue' ticks' l', jitEnqueue libs clock queue time packet pkt_type ticks
        = some (err, queue', ticks') ∧ ticks < ticks' ∧ queue'.Holds l' ∧
      l'.Perm ((if err = .ok then [newNode libs time packet pkt_type] else []) ++ l) := by
  obtain ⟨err, queue', ticks', henqueue, hlt, hcase⟩ :=
    @JitQueue.Holds.jitEnqueue libs clock _ _ h hroom time packet pkt_type ticks
  have hfilled := JitQueue.holds_iff_filled.mp h
  rw [show jitQueueMax - l.length = jitQueueMax - (l.length + 1) + 1 by omega,
    List.replicate_succ] at hfilled
  obtain ⟨queue'', hperm, heq⟩ := @JitQueue.Filled.jitEnqueue_eq libs _ _ _ clock _ hfilled time
    packet pkt_type ticks
  refine ⟨err, queue', ticks', ?_⟩
  rw [henqueue] at heq ⊢
  rw [Option.some_inj] at heq
  split_ifs at heq
  case pos | pos | pos =>
    obtain ⟨rfl, rfl, -⟩ := by simpa using heq
    exact ⟨l, rfl, hlt, h, List.Perm.refl _⟩
  case neg =>
    obtain ⟨rfl, rfl, -⟩ := by simpa using heq
    obtain rfl | ⟨l', hholds, hperm', -⟩ := hcase
    · exact absurd hperm.length_eq (by simp)
    · exact ⟨l', rfl, hlt, hholds, hperm'⟩

/-- A peek takes out packets whose time has passed, and no others. -/
theorem jitPeek_purges (h : queue.Holds l) (ticks : ℕ) :
    ∃ queue' idx ticks' l', jitPeek libs clock queue ticks = some (queue', idx, ticks') ∧
      ticks ≤ ticks' ∧ queue'.Holds l' ∧ l.Perm (queue.packets.diff queue'.packets ++ l') ∧
      (∀ node ∈ queue.packets.diff queue'.packets, ∃ k < ticks', clock.Outdates k node) ∧
      (idx > -1 → idx.toNat = 0) := by
  obtain ⟨queue', last, l', dropped, hpurge, hholds, hperm, hle, hdropped, -⟩ :=
    @JitQueue.Holds.jitPurge libs clock _ _ 0 h (Nat.zero_le 1) ticks
  obtain ⟨idx, hpeek, hidx⟩ := h.jitPeek_of_purge hpurge hholds
  have hdiff : (queue.packets.diff queue'.packets).Perm dropped := by
    rw [JitQueue.packets, JitQueue.packets, h.take_nodes, hholds.take_nodes]
    rw [← Multiset.coe_eq_coe, ← Multiset.coe_sub, Multiset.coe_eq_coe.mpr hperm,
      ← Multiset.coe_add, Multiset.add_sub_cancel_right]
  refine ⟨queue', idx, last + 1, l', hpeek, hle.trans (Nat.le_succ _), hholds,
    hperm.trans (hdiff.symm.append_right l'), fun node hnode => ?_, fun hpos => ?_⟩
  · obtain ⟨k, -, hk, hout⟩ := hdropped node (hdiff.mem_iff.mp hnode)
    exact ⟨k, Nat.lt_succ_of_lt hk, hout⟩
  · rw [(hidx hpos).1]
    rfl

/-! ## What the concentrator took -/

/-- Whether the last is among those chosen by their number says only its own number. -/
theorem map_filter_zipIdx_concat {α : Type*} (p : α × ℕ → Bool) (l : List α) (a : α) (n : ℕ) :
    (((l ++ [a]).zipIdx n).filter p).map Prod.fst
      = ((l.zipIdx n).filter p).map Prod.fst ++ if p (a, n + l.length) then [a] else [] := by
  rw [List.zipIdx_append, List.filter_append, List.map_append, List.zipIdx_singleton]
  cases hp : p (a, n + l.length) with
  | false => simp [hp]
  | true => simp [hp]

theorem Concentrator.sends_concat (radio : Concentrator) (done : List JitNode) (node : JitNode) :
    radio.sends (done ++ [node])
      = radio.sends done ++ if radio.Takes node (done.length + 1) then [node] else [] := by
  rw [Concentrator.sends, map_filter_zipIdx_concat, Nat.add_comm 1]
  simp only [decide_eq_true_eq]
  rfl

theorem Concentrator.refuses_concat (radio : Concentrator) (done : List JitNode) (node : JitNode) :
    radio.refuses (done ++ [node])
      = radio.refuses done ++ if radio.Takes node (done.length + 1) then [] else [node] := by
  rw [Concentrator.refuses, map_filter_zipIdx_concat, Nat.add_comm 1]
  simp only [decide_eq_true_eq, ite_not]
  rfl

/-- With nothing in hand before and after, nothing has had its turn. -/
theorem JitThreads.Judged.of_inHand {s t : JitThreads} (h : s.Judged radio)
    (hs : s.stage.inHand = []) (ht : t.stage.inHand = []) (htaken : t.taken = s.taken)
    (hsent : t.sent = s.sent) (hdropped : t.dropped = s.dropped) : t.Judged radio := by
  obtain ⟨done, htk, hst, hdr⟩ := h
  exact ⟨done, by rw [htaken, ht, htk, hs], by rw [hsent, hst], by rw [hdropped, hdr]⟩

/-- A packet taken out of the queue is in hand. -/
theorem JitThreads.Judged.take {s t : JitThreads} {now : Timeval} {node : JitNode}
    (h : s.Judged radio) (hs : s.stage.inHand = []) (ht : t.stage = .send node)
    (htaken : t.taken = s.taken ++ [(now, node)]) (hsent : t.sent = s.sent)
    (hdropped : t.dropped = s.dropped) : t.Judged radio := by
  obtain ⟨done, htk, hst, hdr⟩ := h
  refine ⟨done, ?_, by rw [hsent, hst], by rw [hdropped, hdr]⟩
  rw [htaken, List.map_append, htk, hs, List.append_nil, ht]
  rfl

/-- The turn of the packet in hand. -/
theorem JitThreads.Judged.send {s t : JitThreads} {node : JitNode} (h : s.Judged radio)
    (hs : s.stage = .send node) (ht : t.stage.inHand = []) (htaken : t.taken = s.taken)
    (hsent : t.sent = s.sent ++ if radio.Takes node s.taken.length then [node] else [])
    (hdropped : t.dropped = s.dropped ++ if radio.Takes node s.taken.length then [] else [node]) :
    t.Judged radio := by
  obtain ⟨done, htk, hst, hdr⟩ := h
  rw [hs, JitStage.inHand] at htk
  have hlen : s.taken.length = done.length + 1 := by
    rw [← List.length_map Prod.snd, htk, List.length_append, List.length_singleton]
  refine ⟨done ++ [node], ?_, ?_, ?_⟩
  · rw [htaken, htk, ht, List.append_nil]
  · rw [hsent, hst, hlen, radio.sends_concat]
  · rw [hdropped, hdr, hlen, radio.refuses_concat]

/-! ## The two threads

One lemma for each section that a thread can be in: what it takes from one account it puts into
another. -/

/-- What holds between any two sections: the index is 0, and each packet let in is in one place. -/
structure JitLedger.Inv (clock : Clock) (radio : Concentrator) (s : JitLedger) (l : List JitNode) :
    Prop where
  holds : s.threads.queue.Holds l
  inserting : s.threads.inserting.isSome → l.length < jitQueueMax
  dequeue : ∀ i now, s.threads.stage = .dequeue i now → i = 0
  dequeueSection : ∀ i now, s.threads.stage = .dequeueSection i now → i = 0 ∧ l ≠ []
  balance : s.accepted.Perm
    (s.threads.sent ++ s.threads.dropped ++ s.purged ++ s.threads.stage.inHand ++ l)
  judged : s.threads.Judged radio
  purged : ∀ node ∈ s.purged, ∃ k < s.threads.ticks, clock.Outdates k node

theorem JitLedger.inv_init : JitLedger.init.Inv clock radio [] where
  holds := holds_jitQueueInit
  inserting := nofun
  dequeue := nofun
  dequeueSection := nofun
  balance := List.Perm.refl _
  judged := ⟨[], rfl, rfl, rfl⟩
  purged := nofun

variable {s : JitLedger}

/-- What comes into the queue is entered as accepted. -/
theorem JitLedger.Inv.insert {entered : List JitNode} {ticks : ℕ} (h : s.Inv clock radio l)
    (hlt : s.threads.ticks < ticks) (hholds : queue'.Holds l') (hperm : l'.Perm (entered ++ l)) :
    JitLedger.Inv clock radio
      ⟨{ s.threads with queue := queue', ticks := ticks, inserting := none }, s.accepted ++ entered,
        s.purged⟩ l' where
  holds := hholds
  inserting := nofun
  dequeue := h.dequeue
  dequeueSection i now hs := by
    obtain ⟨rfl, hne⟩ := h.dequeueSection i now hs
    refine ⟨rfl, fun hnil => hne (List.eq_nil_of_length_eq_zero ?_)⟩
    have hlen := hperm.length_eq
    rw [hnil, List.length_append, List.length_nil] at hlen
    omega
  balance := by
    refine (h.balance.append_right _).trans ?_
    rw [List.append_assoc]
    exact (List.perm_append_comm.trans hperm.symm).append_left _
  judged := h.judged
  purged node hnode := by
    obtain ⟨k, hk, hout⟩ := h.purged node hnode
    exact ⟨k, hk.trans hlt, hout⟩

theorem JitLedger.Inv.threadDown (h : s.Inv clock radio l) (tm_s tm_us : UInt32)
    (txpkt : LgwPktTx) :
    ∃ t l', s.step libs clock radio (.down tm_s tm_us txpkt) = some t ∧ t.Inv clock radio l' := by
  rw [JitLedger.step, JitThreads.step, JitThreads.threadDown.eq_def, JitThreads.accepts,
    JitThreads.purges, List.append_nil]
  cases hins : s.threads.inserting with
  | none =>
    dsimp only
    rw [Option.map_some, List.append_nil]
    refine ⟨_, l, rfl, ?_⟩
    split
    case isTrue =>
      exact ⟨h.holds, h.inserting, h.dequeue, h.dequeueSection, h.balance, h.judged, h.purged⟩
    case isFalse hfull =>
      rw [h.holds.jitQueueIsFull_iff] at hfull
      exact ⟨h.holds, fun _ => lt_of_le_of_ne h.holds.length_le hfull, h.dequeue,
        h.dequeueSection, h.balance, h.judged, h.purged⟩
  | some x =>
    obtain ⟨time, txpkt⟩ := x
    have hroom := h.inserting (by rw [hins]; rfl)
    obtain ⟨err, queue', ticks', l', henqueue, hlt, hholds, hperm⟩ :=
      @jitEnqueue_accepts libs clock _ _ h.holds hroom time txpkt .downlink s.threads.ticks
    dsimp only
    rw [henqueue, Option.map_some, Option.map_some]
    have haccepts : (match (some (err, queue', ticks') : Option (JitError × JitQueue × ℕ)) with
        | some (.ok, _, _) => [newNode libs time txpkt .downlink]
        | _ => []) = if err = .ok then [newNode libs time txpkt .downlink] else [] := by
      cases err <;> rfl
    rw [haccepts]
    exact ⟨_, l', rfl, h.insert hlt hholds hperm⟩

/-- What was balanced with nothing in hand is so at any stage with nothing in hand. -/
theorem JitLedger.Inv.balance_of_inHand (h : s.Inv clock radio l) (stage : JitStage)
    (hs : s.threads.stage.inHand = []) (hstage : stage.inHand = []) :
    s.accepted.Perm (s.threads.sent ++ s.threads.dropped ++ s.purged ++ stage.inHand ++ l) := by
  have hbalance := h.balance
  rwa [hs, ← hstage] at hbalance

/-- To look whether the queue is empty moves no packet. -/
theorem JitLedger.Inv.threadJit_peek (h : s.Inv clock radio l) (hs : s.threads.stage = .peek) :
    ∃ t l', s.step libs clock radio .jit = some t ∧ t.Inv clock radio l' := by
  rw [JitLedger.step, JitThreads.step, JitThreads.threadJit.eq_def, JitThreads.accepts,
    JitThreads.purges, List.append_nil, hs]
  dsimp only
  rw [Option.map_some, List.append_nil]
  refine ⟨_, l, rfl, ?_⟩
  split
  case isTrue =>
    exact ⟨h.holds, h.inserting, h.dequeue, h.dequeueSection, h.balance, h.judged, h.purged⟩
  case isFalse =>
    exact ⟨h.holds, h.inserting, (fun _ _ hs => by cases hs), (fun _ _ hs => by cases hs),
      h.balance_of_inHand _ (by rw [hs]; rfl) rfl,
      h.judged.of_inHand (by rw [hs]; rfl) rfl rfl rfl rfl, h.purged⟩

theorem JitLedger.Inv.threadJit_peekSection (h : s.Inv clock radio l)
    (hs : s.threads.stage = .peekSection) :
    ∃ t l', s.step libs clock radio .jit = some t ∧ t.Inv clock radio l' := by
  obtain ⟨queue', idx, ticks', l', hpeek, hle, hholds, hperm, hpurged, hidx⟩ :=
    @jitPeek_purges libs clock _ _ h.holds s.threads.ticks
  have hlen := hperm.length_eq
  rw [List.length_append] at hlen
  rw [JitLedger.step, JitThreads.step, JitThreads.threadJit.eq_def, JitThreads.accepts,
    JitThreads.purges, List.append_nil, hs]
  dsimp only
  rw [hpeek, Option.map_some, Option.map_some]
  have hstage : (if idx > -1 then JitStage.dequeue idx.toNat (clock.reading (ticks' - 1))
      else .peek).inHand = [] := by
    split <;> rfl
  refine ⟨_, l', rfl, hholds, fun hins => ?_, fun i now hs => ?_, fun i now hs => ?_, ?_,
    h.judged.of_inHand (by rw [hs]; rfl) hstage rfl rfl rfl, ?_⟩
  · have hroom := h.inserting hins
    omega
  · dsimp only at hs
    split at hs
    case isTrue hpos =>
      rw [hidx hpos, JitStage.dequeue.injEq] at hs
      exact hs.1.symm
    case isFalse => cases hs
  · dsimp only at hs
    split at hs <;> cases hs
  · have hbalance := h.balance_of_inHand .peek (by rw [hs]; rfl) rfl
    dsimp only
    rw [hstage, List.append_nil]
    rw [JitStage.inHand, List.append_nil] at hbalance
    calc s.accepted
      _ ~ s.threads.sent ++ s.threads.dropped ++ s.purged ++ l := hbalance
      _ ~ s.threads.sent ++ s.threads.dropped ++ s.purged ++
          (s.threads.queue.packets.diff queue'.packets ++ l') := hperm.append_left _
      _ = _ := by simp only [List.append_assoc]
  · intro node hnode
    rcases List.mem_append.mp hnode with hnode | hnode
    · obtain ⟨k, hk, hout⟩ := h.purged node hnode
      exact ⟨k, hk.trans_le hle, hout⟩
    · exact hpurged node hnode

theorem JitLedger.Inv.threadJit_dequeue {i : ℕ} {now : Timeval} (h : s.Inv clock radio l)
    (hs : s.threads.stage = .dequeue i now) :
    ∃ t l', s.step libs clock radio .jit = some t ∧ t.Inv clock radio l' := by
  have hi := h.dequeue i now hs
  rw [JitLedger.step, JitThreads.step, JitThreads.threadJit.eq_def, JitThreads.accepts,
    JitThreads.purges, List.append_nil, hs]
  dsimp only
  rw [Option.map_some, List.append_nil]
  have hstage : (if i ≥ jitQueueMax ∨ jitQueueIsEmpty s.threads.queue then JitStage.peek
      else .dequeueSection i now).inHand = [] := by
    split <;> rfl
  refine ⟨_, l, rfl, h.holds, h.inserting, fun j now' hs => ?_, fun j now' hs => ?_,
    h.balance_of_inHand _ (by rw [hs]; rfl) hstage,
    h.judged.of_inHand (by rw [hs]; rfl) hstage rfl rfl rfl, h.purged⟩
  · dsimp only at hs
    split at hs <;> cases hs
  · dsimp only at hs
    split at hs
    case isTrue => cases hs
    case isFalse hgo =>
      rw [JitStage.dequeueSection.injEq] at hs
      exact ⟨hs.1.symm.trans hi,
        fun hnil => hgo (Or.inr (h.holds.jitQueueIsEmpty_iff.mpr hnil))⟩

/-- The packet at the index goes from the queue to the hand of `thread_jit`. -/
theorem JitLedger.Inv.threadJit_dequeueSection {i : ℕ} {now : Timeval} (h : s.Inv clock radio l)
    (hs : s.threads.stage = .dequeueSection i now) :
    ∃ t l', s.step libs clock radio .jit = some t ∧ t.Inv clock radio l' := by
  obtain ⟨rfl, hne⟩ := h.dequeueSection i now hs
  have hpos := List.length_pos_iff.mpr hne
  obtain ⟨queue', l', hqueue', hholds, hperm⟩ :=
    @JitQueue.Holds.jitReplaceNode libs _ _ _ h.holds hpos
  have hbalance := h.balance_of_inHand .peek (by rw [hs]; rfl) rfl
  rw [JitLedger.step, JitThreads.step, JitThreads.threadJit.eq_def, JitThreads.accepts,
    JitThreads.purges, List.append_nil, hs]
  dsimp only
  rw [jitDequeue, hqueue', Option.map_some, Option.map_some, Option.map_some, List.append_nil]
  refine ⟨_, l', rfl, hholds, fun hins => ?_, (fun _ _ hs => by cases hs),
    (fun _ _ hs => by cases hs), ?_, h.judged.take (by rw [hs]; rfl) rfl rfl rfl rfl, h.purged⟩
  · have hlen := hperm.length_eq
    rw [List.length_eraseIdx_of_lt hpos] at hlen
    have hroom := h.inserting hins
    omega
  · have htaken : l.Perm (l[0] :: l') :=
      (List.getElem_cons_eraseIdx_perm hpos).symm.trans (hperm.symm.cons _)
    dsimp only
    rw [h.holds.getD_nodes, List.getD_eq_getElem _ _ hpos, JitStage.inHand]
    rw [JitStage.inHand, List.append_nil] at hbalance
    calc s.accepted
      _ ~ s.threads.sent ++ s.threads.dropped ++ s.purged ++ l := hbalance
      _ ~ s.threads.sent ++ s.threads.dropped ++ s.purged ++ l[0] :: l' := htaken.append_left _
      _ = s.threads.sent ++ s.threads.dropped ++ s.purged ++ [l[0]] ++ l' := by simp

/-- The packet in hand is entered among those sent. -/
theorem perm_enter_sent (sent dropped purged l : List JitNode) (node : JitNode) :
    sent ++ dropped ++ purged ++ [node] ++ l ~ sent ++ [node] ++ dropped ++ purged ++ l := by
  refine List.Perm.append_right l ?_
  calc sent ++ dropped ++ purged ++ [node]
    _ = sent ++ ((dropped ++ purged) ++ [node]) := by simp only [List.append_assoc]
    _ ~ sent ++ ([node] ++ (dropped ++ purged)) := List.perm_append_comm.append_left _
    _ = sent ++ [node] ++ dropped ++ purged := by simp only [List.append_assoc]

/-- It is entered among those given up. -/
theorem perm_enter_dropped (sent dropped purged l : List JitNode) (node : JitNode) :
    sent ++ dropped ++ purged ++ [node] ++ l ~ sent ++ (dropped ++ [node]) ++ purged ++ l := by
  refine List.Perm.append_right l ?_
  calc sent ++ dropped ++ purged ++ [node]
    _ = sent ++ dropped ++ (purged ++ [node]) := by simp only [List.append_assoc]
    _ ~ sent ++ dropped ++ ([node] ++ purged) := List.perm_append_comm.append_left _
    _ = sent ++ (dropped ++ [node]) ++ purged := by simp only [List.append_assoc]

/-- The packet in hand is sent, or given up for a reason. -/
theorem JitLedger.Inv.threadJit_send {node : JitNode} (h : s.Inv clock radio l)
    (hs : s.threads.stage = .send node) :
    ∃ t l', s.step libs clock radio .jit = some t ∧ t.Inv clock radio l' := by
  have hbalance := h.balance
  rw [JitLedger.step, JitThreads.step, JitThreads.threadJit.eq_def, JitThreads.accepts,
    JitThreads.purges, List.append_nil, hs]
  rw [hs, JitStage.inHand] at hbalance
  dsimp only
  rw [List.append_nil]
  split
  case isTrue htakes =>
    have htakes : radio.Takes node s.threads.taken.length := htakes
    refine ⟨_, l, rfl, h.holds, h.inserting, (fun _ _ hs => by cases hs),
      (fun _ _ hs => by cases hs), hbalance.trans ?_,
      h.judged.send hs rfl rfl (by rw [if_pos htakes]) (by rw [if_pos htakes, List.append_nil]),
      h.purged⟩
    rw [JitStage.inHand, List.append_nil]
    exact perm_enter_sent _ _ _ _ _
  case isFalse hrefused =>
    have hrefused : ¬ radio.Takes node s.threads.taken.length := hrefused
    refine ⟨_, l, rfl, h.holds, h.inserting, (fun _ _ hs => by cases hs),
      (fun _ _ hs => by cases hs), hbalance.trans ?_,
      h.judged.send hs rfl rfl (by rw [if_neg hrefused, List.append_nil])
        (by rw [if_neg hrefused]), h.purged⟩
    rw [JitStage.inHand, List.append_nil]
    exact perm_enter_dropped _ _ _ _ _

/-- **Each section of `thread_jit` keeps the ledger**, stage by stage. -/
theorem JitLedger.Inv.threadJit (h : s.Inv clock radio l) :
    ∃ t l', s.step libs clock radio .jit = some t ∧ t.Inv clock radio l' := by
  cases hs : s.threads.stage with
  | peek => exact h.threadJit_peek hs
  | peekSection => exact h.threadJit_peekSection hs
  | dequeue i now => exact h.threadJit_dequeue hs
  | dequeueSection i now => exact h.threadJit_dequeueSection hs
  | send node => exact h.threadJit_send hs

/-! ## Any run

The invariant holds before the first move and is kept by each, so what it says of the packets is
true in every state of a run. -/

/-- **No packet is lost or doubled**, however the two threads come in between each other, and
whatever the clock and the concentrator tell. -/
theorem jitLedger_run (libs : JitLibs) (clock : Clock) (radio : Concentrator)
    (moves : List JitMove) :
    Runs.Always (JitLedger.step libs clock radio) (JitLedger.Balanced clock radio)
      JitLedger.init moves := by
  have hstep : ∀ s move, (∃ l, JitLedger.Inv clock radio s l) → True →
      ∃ t, JitLedger.step libs clock radio s move = some t ∧ ∃ l, t.Inv clock radio l := by
    rintro s move ⟨l, h⟩ -
    cases move with
    | down tm_s tm_us txpkt =>
      obtain ⟨t, l', ht, hinv⟩ := h.threadDown tm_s tm_us txpkt
      exact ⟨t, ht, l', hinv⟩
    | jit =>
      obtain ⟨t, l', ht, hinv⟩ := h.threadJit
      exact ⟨t, ht, l', hinv⟩
  refine (Runs.always_of_inv hstep ⟨[], JitLedger.inv_init⟩ moves fun _ _ => trivial).imp ?_
  rintro s ⟨l, h⟩
  refine ⟨?_, h.judged, h.purged⟩
  rw [JitQueue.packets, h.holds.take_nodes]
  exact h.balance

end LoRaGwSv
