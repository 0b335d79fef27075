import LoRaGwSv.Machinery.Runs
import LoRaGwSv.Server.Downlink

/-!
# Server/HandOff — handing messages to a thread that waits

Two queues are each handed from one thread to another with a flag and a condition variable: downlink
messages from the MAC to `thread_downstream`, uplink messages from `upstream_data_handle` to
`inputMsgHandlerThread`.  A run is any interleaving of the two threads of a channel, one section
under a mutex at a time.  The consumer puts the flag down before it waits and does not look at the
queue, so a wake-up is lost exactly when it does so with a message in the queue
(`handOff_run_iff`).
-/

namespace LoRaGwSv

/-- `PKT_QUEUE_MAX`. -/
def pktQueueMax : ℕ := 16

/-- The queues that are handed over. -/
inductive Channel
  | outbound
  | inbound
deriving DecidableEq, Repr

/-- Where the consumer stands. -/
inductive Consumer
  /-- Before the section that puts the flag down and waits. -/
  | locking
  /-- In `pthread_cond_wait`. -/
  | waiting
  /-- Before `pktDequeue`. -/
  | dequeuing
  /-- In `pktDequeue`, which has found the queue not empty. -/
  | removing
deriving DecidableEq, Repr

/-- Where the producer stands. -/
inductive Producer (α : Type*)
  | idle
  /-- In `pktEnqueue`, which has found the queue not full. -/
  | inserting (pkt : α)
  /-- After `pktEnqueue`, before the section that puts the flag up. -/
  | signalling
deriving DecidableEq, Repr

/-- A queue between two threads, the flag that is signalled, and where each of the two stands. -/
structure HandOff (α : Type*) where
  queue : List α
  flag : Bool
  consumer : Consumer
  producer : Producer α
deriving DecidableEq, Repr

/-- Both threads at their start. -/
def HandOff.start (α : Type*) : HandOff α := ⟨[], false, .locking, .idle⟩

variable {α : Type*} {s : HandOff α}

/-! ## The threads

Each thread is a small automaton, and a section under a mutex is one of its steps.  The two channels
differ in how the producer inserts and signals: the phase thread in sections of their own,
`upstream_data_handle` in one. -/

/-- The phase thread of the MAC: the two sections of `pktEnqueue` under the mutex of the queue, then
the flag and the signal under `mutexTxMsg`.  What `pktEnqueue` returns is not looked at. -/
def HandOff.phaseThread (s : HandOff α) (dlMsg : α) : HandOff α :=
  match s.producer with
  | .idle =>
    { s with producer := if s.queue.length = pktQueueMax then .signalling else .inserting dlMsg }
  | .inserting pkt => { s with queue := s.queue ++ [pkt], producer := .signalling }
  | .signalling => { s with flag := true, producer := .idle }

/-- The whole section of `upstream_data_handle` under `mutexRxMsg`. -/
def HandOff.upstreamDataHandle (s : HandOff α) (ulMsg : α) : HandOff α :=
  { s with
    queue := if s.queue.length = pktQueueMax then s.queue else s.queue ++ [ulMsg]
    flag := true }

/-- A consumer that goes to `next` with each packet it takes.  A wait that returns with the flag
down starts again.  Taking a packet off an empty queue would follow a null pointer. -/
def HandOff.consume (next : Consumer) (s : HandOff α) : Option (HandOff α) :=
  match s.consumer with
  | .locking => some { s with flag := false, consumer := .waiting }
  | .waiting => some (if s.flag then { s with consumer := .dequeuing } else s)
  | .dequeuing => some { s with consumer := if s.queue.isEmpty then .locking else .removing }
  | .removing =>
    match s.queue with
    | [] => none
    | _ :: rest => some { s with queue := rest, consumer := next }

/-- One packet for each wake-up. -/
def HandOff.threadDownstream (s : HandOff α) : Option (HandOff α) := s.consume .locking

/-- Packets until the queue is empty. -/
def HandOff.inputMsgHandlerThread (s : HandOff α) : Option (HandOff α) := s.consume .dequeuing

/-- Who goes on; `msg` is what the producer hands over if it has nothing under way. -/
inductive Move (α : Type*)
  | producer (msg : α)
  | consumer
deriving DecidableEq, Repr

/-- The next section of the thread whose turn it is, on either channel. -/
def HandOff.step (c : Channel) (s : HandOff α) : Move α → Option (HandOff α)
  | .producer msg =>
    match c with
    | .outbound => some (s.phaseThread msg)
    | .inbound => some (s.upstreamDataHandle msg)
  | .consumer =>
    match c with
    | .outbound => s.threadDownstream
    | .inbound => s.inputMsgHandlerThread

/-! ## Lost wake-ups

A consumer that is blocked with its flag down goes on only when the flag is put up. -/

/-- The consumer is blocked with its flag down and a message in its queue. -/
def HandOff.Stalled (s : HandOff α) : Prop :=
  s.consumer = .waiting ∧ s.flag = false ∧ s.queue ≠ []

/-- It is, and the producer is not about to wake it. -/
def HandOff.Lost (s : HandOff α) : Prop := s.Stalled ∧ s.producer = .idle

/-- What keeps the consumer from stalling: it goes to wait only if its queue is empty, and nothing
is inserted while it waits with its flag down. -/
def HandOff.KeepsAwake (s : HandOff α) : Move α → Prop
  | .producer _ => ∀ pkt, s.producer = .inserting pkt → ¬ (s.consumer = .waiting ∧ s.flag = false)
  | .consumer => s.consumer = .locking → s.queue = []

/-- What keeps wake-ups from being lost: the consumer goes to wait only if its queue is empty, or
the producer is still to put the flag up. -/
def HandOff.KeepsWakeUp (s : HandOff α) : Move α → Prop
  | .producer _ => True
  | .consumer => s.consumer = .locking → s.producer = .idle → s.queue = []

/-- A consumer that is about to take a packet has one to take, and the inbound producer does all it
does in one section. -/
structure HandOff.Sound (c : Channel) (s : HandOff α) : Prop where
  queue_ne : s.consumer = .removing → s.queue ≠ []
  idle : c = .inbound → s.producer = .idle

/-! ## One step

One lemma for each thread, with all that a section can do to the wake-ups. -/

/-- What a move from `s` to `t` does to the wake-ups. -/
structure HandOff.MovesTo (c : Channel) (s : HandOff α) (a : Move α) (t : HandOff α) : Prop where
  sound : t.Sound c
  stalled : ¬ s.Stalled → (¬ t.Stalled ↔ s.KeepsAwake a)
  lost : ¬ s.Lost → (¬ t.Lost ↔ s.KeepsWakeUp a)

/-- A move that leaves the flag up, or the consumer awake, stalls nobody. -/
theorem HandOff.movesTo_of_not_stalled {c : Channel} {t : HandOff α} {a : Move α}
    (hsound : t.Sound c) (ht : ¬ t.Stalled) (hawake : s.KeepsAwake a) (hwake : s.KeepsWakeUp a) :
    s.MovesTo c a t where
  sound := hsound
  stalled _ := iff_of_true ht hawake
  lost _ := iff_of_true (fun h => ht h.1) hwake

/-- **The phase thread** loses no wake-up, but stalls a waiting consumer until it signals. -/
theorem HandOff.phaseThread_movesTo (h : s.Sound .outbound) (dlMsg : α) :
    s.MovesTo .outbound (.producer dlMsg) (s.phaseThread dlMsg) := by
  rw [phaseThread]
  split
  case h_1 hidle =>
    have hbusy : (if s.queue.length = pktQueueMax then .signalling else .inserting dlMsg)
        ≠ Producer.idle := by split <;> simp
    exact ⟨⟨h.queue_ne, nofun⟩,
      fun hs => iff_of_true hs fun pkt hpkt => absurd (hidle.symm.trans hpkt) (by simp),
      fun _ => iff_of_true (fun ht => hbusy ht.2) trivial⟩
  case h_2 pkt hpkt =>
    refine ⟨⟨fun _ => by simp, nofun⟩, fun _ => ⟨fun ht _ _ hwait => ?_, fun hawake ht => ?_⟩,
      fun _ => iff_of_true (fun ht => absurd ht.2 (by simp)) trivial⟩
    · exact ht ⟨hwait.1, hwait.2, by simp⟩
    · exact hawake pkt hpkt ⟨ht.1, ht.2.1⟩
  case h_3 hsig =>
    exact movesTo_of_not_stalled ⟨h.queue_ne, nofun⟩ (fun ht => absurd ht.2.1 (by simp))
      (fun pkt hpkt => absurd (hsig.symm.trans hpkt) (by simp)) trivial

/-- **`upstream_data_handle`** always leaves the flag up. -/
theorem HandOff.upstreamDataHandle_movesTo (h : s.Sound .inbound) (ulMsg : α) :
    s.MovesTo .inbound (.producer ulMsg) (s.upstreamDataHandle ulMsg) := by
  have hidle := h.idle rfl
  have hup : (s.upstreamDataHandle ulMsg).flag = true := rfl
  refine movesTo_of_not_stalled ⟨fun hrem => ?_, fun _ => hidle⟩
    (fun ht => absurd (hup.symm.trans ht.2.1) (by decide))
    (fun pkt hpkt => absurd (hidle.symm.trans hpkt) (by simp)) trivial
  rw [upstreamDataHandle]
  split
  · exact h.queue_ne hrem
  · simp

/-- **A consumer** stalls exactly when it goes to wait with a message in its queue. -/
theorem HandOff.consume_movesTo {c : Channel} (h : s.Sound c) {next : Consumer}
    (hwait : next ≠ .waiting) (hrem : next ≠ .removing) :
    ∃ t, s.consume next = some t ∧ s.MovesTo c .consumer t := by
  rw [consume]
  split
  case h_1 hlock =>
    refine ⟨_, rfl, ⟨nofun, h.idle⟩, fun _ => ⟨fun ht _ => ?_, fun hawake ht => ?_⟩,
      fun _ => ⟨fun ht _ hidle => ?_, fun hwake ht => ?_⟩⟩
    · exact Decidable.of_not_not fun hne => ht ⟨rfl, rfl, hne⟩
    · exact ht.2.2 (hawake hlock)
    · exact Decidable.of_not_not fun hne => ht ⟨⟨rfl, rfl, hne⟩, hidle⟩
    · exact ht.1.2.2 (hwake hlock ht.2)
  case h_2 hwaiting =>
    have hawake : s.KeepsAwake .consumer := fun hlock =>
      absurd (hwaiting.symm.trans hlock) (by simp)
    have hwake : s.KeepsWakeUp .consumer := fun hlock =>
      absurd (hwaiting.symm.trans hlock) (by simp)
    refine ⟨_, rfl, ?_⟩
    split
    · exact movesTo_of_not_stalled ⟨nofun, h.idle⟩ (fun ht => absurd ht.1 (by simp)) hawake hwake
    · exact ⟨h, fun hs => iff_of_true hs hawake, fun hs => iff_of_true hs hwake⟩
  case h_3 hdeq =>
    have hnext : (if s.queue.isEmpty then Consumer.locking else .removing) ≠ .waiting := by
      split <;> simp
    refine ⟨_, rfl, movesTo_of_not_stalled ⟨fun hfull hnil => ?_, h.idle⟩ (fun ht => hnext ht.1)
      (fun hlock => absurd (hdeq.symm.trans hlock) (by simp))
      (fun hlock => absurd (hdeq.symm.trans hlock) (by simp))⟩
    have hempty : s.queue.isEmpty = true := List.isEmpty_iff.mpr hnil
    simp [hempty] at hfull
  case h_4 hremoving =>
    obtain ⟨pkt, rest, hqueue⟩ := List.exists_cons_of_ne_nil (h.queue_ne hremoving)
    rw [hqueue]
    exact ⟨_, rfl, movesTo_of_not_stalled ⟨fun hfull => absurd hfull hrem, h.idle⟩
      (fun ht => hwait ht.1) (fun hlock => absurd (hremoving.symm.trans hlock) (by simp))
      (fun hlock => absurd (hremoving.symm.trans hlock) (by simp))⟩

/-- Each section is defined, and moves on as its stage says. -/
theorem HandOff.step_movesTo {c : Channel} (h : s.Sound c) (a : Move α) :
    ∃ t, s.step c a = some t ∧ s.MovesTo c a t := by
  cases a with
  | producer msg =>
    cases c with
    | outbound => exact ⟨_, rfl, phaseThread_movesTo h msg⟩
    | inbound => exact ⟨_, rfl, upstreamDataHandle_movesTo h msg⟩
  | consumer =>
    cases c with
    | outbound => exact consume_movesTo h (by simp) (by simp)
    | inbound => exact consume_movesTo h (by simp) (by simp)

/-! ## Runs -/

theorem HandOff.sound_start (c : Channel) : (start α).Sound c := ⟨nofun, fun _ => rfl⟩

/-- **When no wake-up is lost.**  In a run of either channel no state has the consumer blocked with
its flag down and a message in its queue, exactly if the consumer only ever goes to wait with its
queue empty and nothing is inserted while it waits with its flag down; and none has it so with the
producer at rest, exactly if the consumer only ever goes to wait with its queue empty or the
producer still to put the flag up. -/
theorem handOff_run_iff (c : Channel) (moves : List (Move α)) :
    (Runs.Always (HandOff.step c) (fun s => ¬ s.Stalled) (HandOff.start α) moves ↔
      Runs.EachStep (HandOff.step c) HandOff.KeepsAwake (HandOff.start α) moves) ∧
    (Runs.Always (HandOff.step c) (fun s => ¬ s.Lost) (HandOff.start α) moves ↔
      Runs.EachStep (HandOff.step c) HandOff.KeepsWakeUp (HandOff.start α) moves) := by
  have hstart : ¬ (HandOff.start α).Stalled := fun h => absurd h.1 (by simp [HandOff.start])
  constructor
  · refine Runs.always_iff_eachStep (I := HandOff.Sound c) (fun s a h hs => ?_)
      (HandOff.sound_start c) hstart moves
    obtain ⟨t, ht, hmove⟩ := HandOff.step_movesTo h a
    exact ⟨t, ht, hmove.stalled hs, fun _ => hmove.sound⟩
  · refine Runs.always_iff_eachStep (I := HandOff.Sound c) (fun s a h hs => ?_)
      (HandOff.sound_start c) (fun h => hstart h.1) moves
    obtain ⟨t, ht, hmove⟩ := HandOff.step_movesTo h a
    exact ⟨t, ht, hmove.lost hs, fun _ => hmove.sound⟩

/-- A message of eleven bytes. -/
def sampleMsg : MsgInfo := ⟨11, Vector.replicate 256 0⟩

/-- **Both channels lose wake-ups.**  Outbound, the second message is signalled before the first is
taken; inbound, it is signalled between the last look at the queue and the wait.  The consumer then
waits with its flag down and the second message in its queue, and the producer is done. -/
theorem wakeUp_lost :
    (∃ s, Runs.run (HandOff.step .outbound) (HandOff.start MsgInfo)
        [.consumer, .producer sampleMsg, .producer sampleMsg, .producer sampleMsg, .consumer,
          .producer sampleMsg, .producer sampleMsg, .producer sampleMsg, .consumer, .consumer,
          .consumer] = some s ∧ s.Stalled ∧ s.producer = .idle) ∧
    ∃ s, Runs.run (HandOff.step .inbound) (HandOff.start MsgInfo)
        [.consumer, .producer sampleMsg, .consumer, .consumer, .consumer, .consumer,
          .producer sampleMsg, .consumer] = some s ∧ s.Stalled ∧ s.producer = .idle := by
  refine ⟨⟨⟨[sampleMsg], false, .waiting, .idle⟩, ?_, ⟨rfl, rfl, by simp⟩, rfl⟩,
    ⟨⟨[sampleMsg], false, .waiting, .idle⟩, ?_, ⟨rfl, rfl, by simp⟩, rfl⟩⟩
  · rfl
  · rfl

end LoRaGwSv
