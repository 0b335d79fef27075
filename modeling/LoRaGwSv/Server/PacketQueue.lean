import LoRaGwSv.Machinery.Heap
import LoRaGwSv.Server.HandOff

/-!
# Server/PacketQueue — the packet queue (`packet_queue.c`)

A packet queue is a doubly linked list; each call checks its size in one section under the mutex and
changes the list in another.  A run is any interleaving of the sections of one producer and one
consumer.  Whatever happens in between, the queue holds the packets that are accepted and not yet
returned (`PktQueue.Holds`), so it is a bounded FIFO (`fifo_run`).  When the last node is taken away
`tail` still points to it; it is not looked at again before it is set.
-/

namespace LoRaGwSv

open Heap

/-- `PktError_e`. -/
inductive PktError
  | ok
  | full
  | empty
  | invalid
deriving DecidableEq, Repr

/-- `struct PktQueue`, with the memory its nodes are in. -/
structure PktQueue (α : Type*) where
  size : UInt8
  head : Pointer
  tail : Pointer
  heap : Heap α

variable {α : Type*} {q q' : PktQueue α} {cells : List (ℕ × α)} {pkt x y : α} {p t : ℕ}

/-! ## The sections

Both calls lock the mutex twice, once for the check and once for the change.  A node is a cell of
memory, and a section that follows a null or dangling pointer is `none`. -/

/-- `pktQueueInit`. -/
def pktQueueInit (heap : Heap α) : PktQueue α := ⟨0, none, none, heap⟩

/-- `isPktQueueFull`. -/
def isPktQueueFull (queue : PktQueue α) : Bool := queue.size.toNat = pktQueueMax

/-- `isPktQueueEmpty`. -/
def isPktQueueEmpty (queue : PktQueue α) : Bool := queue.size = 0

/-- The insertion of `pktEnqueue`, at an address `malloc` may return.  It follows `tail` if `head`
is not null. -/
def pktInsert (queue : PktQueue α) (packet : α) (proposed : ℕ) : Option (PktQueue α) :=
  let newPktNode := queue.heap.malloc proposed
  match queue.head with
  | none => some
      { size := queue.size + 1
        head := some newPktNode
        tail := some newPktNode
        heap := queue.heap.write newPktNode ⟨packet, none, none⟩ }
  | some _ =>
    queue.tail.bind fun tail => (queue.heap.cells tail).map fun node =>
      { queue with
        size := queue.size + 1
        tail := some newPktNode
        heap := (queue.heap.write tail { node with next := some newPktNode }).write newPktNode
          ⟨packet, none, some tail⟩ }

/-- If there is a node to become the first, its link back is cut. -/
def cutPrev (heap : Heap α) : Pointer → Option (Heap α)
  | none => some heap
  | some head => (heap.cells head).map fun node => heap.write head { node with prev := none }

/-- The removal of `pktDequeue`.  It follows `head`, and the link to the next node. -/
def pktRemove (queue : PktQueue α) : Option (α × PktQueue α) :=
  queue.head.bind fun tmpPktNode => (queue.heap.cells tmpPktNode).bind fun node =>
    (cutPrev queue.heap node.next).map fun heap =>
      (node.val,
        { queue with
          size := queue.size - 1
          head := node.next
          heap := heap.free tmpPktNode })

/-! ## Producer and consumer -/

/-- A queue with its two threads: the packet `pktEnqueue` is about to insert, whether `pktDequeue`
is about to remove one, the packets accepted and returned so far, and what the call returned that
has just ended. -/
structure PktThreads (α : Type*) where
  queue : PktQueue α
  inserting : Option α
  removing : Bool
  accepted : List α
  returned : List α
  result : Option PktError

/-- Which thread goes on, with what it calls its function with and where `malloc` proposes to put a
node. -/
inductive PktMove (α : Type*)
  | enqueue (packet : Option α) (proposed : ℕ)
  | dequeue (packetIsNull : Bool)

/-- The next section of `pktEnqueue`. -/
def PktThreads.pktEnqueue (s : PktThreads α) (packet : Option α) (proposed : ℕ) :
    Option (PktThreads α) :=
  match s.inserting with
  | none =>
    match packet with
    | none => some { s with result := some .invalid }
    | some packet =>
      if isPktQueueFull s.queue then some { s with result := some .full }
      else some { s with inserting := some packet, result := none }
  | some packet => (pktInsert s.queue packet proposed).map fun queue =>
      { s with
        queue := queue
        inserting := none
        accepted := s.accepted ++ [packet]
        result := some .ok }

/-- The next section of `pktDequeue`. -/
def PktThreads.pktDequeue (s : PktThreads α) (packetIsNull : Bool) : Option (PktThreads α) :=
  if s.removing then
    (pktRemove s.queue).map fun (packet, queue) =>
      { s with
        queue := queue
        removing := false
        returned := s.returned ++ [packet]
        result := some .ok }
  else if packetIsNull then some { s with result := some .invalid }
  else if isPktQueueEmpty s.queue then some { s with result := some .empty }
  else some { s with removing := true, result := none }

/-- The next section of the call that goes on. -/
def PktThreads.step (s : PktThreads α) : PktMove α → Option (PktThreads α)
  | .enqueue packet proposed => s.pktEnqueue packet proposed
  | .dequeue packetIsNull => s.pktDequeue packetIsNull

/-- An empty queue, and nobody inside. -/
def PktThreads.start (heap : Heap α) : PktThreads α :=
  ⟨pktQueueInit heap, none, false, [], [], none⟩

/-! ## What a queue holds

The links from `head` on lead through the cells in order.  `tail` is the last of them, as long as
there is one. -/

/-- The queue holds the packets of `cells`, each at its address. -/
structure PktQueue.Holds (q : PktQueue α) (cells : List (ℕ × α)) : Prop where
  size_eq : q.size.toNat = cells.length
  size_le : cells.length ≤ pktQueueMax
  head_eq : q.head = first cells none
  /-- The tail of an empty queue is left over. -/
  tail_eq : cells ≠ [] → q.tail = last none cells
  linked : q.heap.Linked none cells none
  nodup : (cells.map Prod.fst).Nodup

theorem holds_pktQueueInit (heap : Heap α) : (pktQueueInit heap).Holds [] where
  size_eq := rfl
  size_le := Nat.zero_le _
  head_eq := rfl
  tail_eq h := absurd rfl h
  linked := trivial
  nodup := List.nodup_nil

/-- The size tells whether the queue is full. -/
theorem PktQueue.Holds.isPktQueueFull_iff (h : q.Holds cells) :
    isPktQueueFull q = true ↔ cells.length = pktQueueMax := by
  rw [isPktQueueFull, decide_eq_true_iff, h.size_eq]

theorem PktQueue.Holds.isPktQueueEmpty_iff (h : q.Holds cells) :
    isPktQueueEmpty q = true ↔ cells = [] := by
  rw [isPktQueueEmpty, decide_eq_true_iff, ← List.length_eq_zero_iff, ← h.size_eq]
  exact UInt8.toNat_inj.symm

/-- **The insertion appends**, and follows no dangling pointer: `tail` is only read if there is a
node. -/
theorem PktQueue.Holds.pktInsert (h : q.Holds cells) (hroom : cells.length < pktQueueMax) (pkt : α)
    (proposed : ℕ) :
    ∃ q' p, pktInsert q pkt proposed = some q' ∧ q'.Holds (cells ++ [(p, pkt)]) := by
  have hfree := q.heap.cells_malloc proposed
  have hsize : (q.size + 1).toNat = cells.length + 1 := by
    rw [UInt8.toNat_add, h.size_eq, UInt8.toNat_one]
    have : pktQueueMax = 16 := rfl
    omega
  rw [LoRaGwSv.pktInsert, h.head_eq]
  obtain rfl | ⟨init, ⟨t, x⟩, rfl⟩ := cells.eq_nil_or_concat
  · refine ⟨_, q.heap.malloc proposed, rfl, hsize, hroom, rfl, fun _ => rfl, ?_, by simp⟩
    exact ⟨cells_write_self, trivial⟩
  · rw [List.concat_eq_append] at h hsize hroom ⊢
    obtain ⟨c, hc⟩ : ∃ c, first (init ++ [(t, x)]) none = some c := by
      cases init <;> exact ⟨_, rfl⟩
    have htail : q.tail = some t := (h.tail_eq (by simp)).trans last_concat
    simp only [hc, htail, Option.bind_some, h.linked.cells_last, Option.map_some]
    have hnew : q.heap.malloc proposed ∉ (init ++ [(t, x)]).map Prod.fst := fun hmem =>
      h.linked.ne_none hmem hfree
    refine ⟨_, q.heap.malloc proposed, rfl, ?_⟩
    exact
      { size_eq := by rw [hsize]; simp
        size_le := by rw [List.length_append]; exact hroom
        head_eq := by rw [first_append, first_eq_some hc]
        tail_eq := fun _ => by rw [last_concat]
        linked := h.linked.concat h.nodup hfree
        nodup := by
          rw [List.map_append]
          exact h.nodup.append (List.nodup_singleton _) (by simpa using hnew) }

/-- **The removal takes the first packet.** -/
theorem PktQueue.Holds.pktRemove (h : q.Holds ((p, pkt) :: cells)) :
    ∃ q', pktRemove q = some (pkt, q') ∧ q'.Holds cells := by
  have hsize : (q.size - 1).toNat = cells.length := by
    have := h.size_eq
    rw [List.length_cons] at this
    rw [UInt8.toNat_sub_of_le _ _ (UInt8.le_iff_toNat_le.mpr (by rw [this]; simp)), this]
    rfl
  have hcell : q.heap.cells p = some ⟨pkt, first cells none, none⟩ := h.linked.1
  have hnodup := (List.nodup_cons.mp (List.map_cons ▸ h.nodup))
  rw [LoRaGwSv.pktRemove, h.head_eq, first_cons, Option.bind_some, hcell, Option.bind_some]
  have hle := h.size_le
  cases cells with
  | nil =>
    refine ⟨_, rfl, hsize, Nat.zero_le _, rfl, fun h => absurd rfl h, trivial, List.nodup_nil⟩
  | cons c cells =>
    have hnext : q.heap.cells c.1 = some ⟨c.2, first cells none, some p⟩ := h.linked.2.1
    have hcut : cutPrev q.heap (first (c :: cells) none)
        = some (q.heap.write c.1 ⟨c.2, first cells none, none⟩) := by
      rw [first_cons, cutPrev, hnext, Option.map_some]
    rw [hcut, Option.map_some]
    refine ⟨_, rfl, hsize, ?_, rfl, fun _ => ?_, h.linked.tail h.nodup, hnodup.2⟩
    · rw [List.length_cons] at hle
      omega
    · exact (h.tail_eq (by simp)).trans (last_cons.trans (last_cons.trans last_cons.symm))

/-! ## The queue as a FIFO

Between the check of a call and its change the other thread may come in.  It can only help: after a
check for room there may be more room, and after a check for packets there may be more packets. -/

/-- **The packets returned are the first of those accepted**, the queue holds the others, at most
16, and a removal that is due finds one. -/
structure PktThreads.IsFifo (s : PktThreads α) : Prop where
  returned_prefix : s.returned <+: s.accepted
  size_eq : s.queue.size.toNat + s.returned.length = s.accepted.length
  size_le : s.queue.size.toNat ≤ 16
  holds : ∃ cells, s.queue.Holds cells ∧ s.accepted = s.returned ++ cells.map Prod.snd
  head_ne : s.removing = true → s.queue.head ≠ none

/-- A call that is refused leaves the queue alone. -/
def PktThreads.RefusalUnchanged (s : PktThreads α) (a : PktMove α) : Prop :=
  ∀ t, s.step a = some t → t.result = some .full ∨ t.result = some .empty → t.queue = s.queue

/-- What holds between any two sections: the check of each call still stands when it goes on, as
the other thread can only make room, or only add packets. -/
structure PktThreads.Inv (s : PktThreads α) (cells : List (ℕ × α)) : Prop where
  holds : s.queue.Holds cells
  accepted_eq : s.accepted = s.returned ++ cells.map Prod.snd
  room : s.inserting.isSome → cells.length < pktQueueMax
  removing_ne : s.removing = true → cells ≠ []

variable {s t : PktThreads α}

/-- What has come in is what has gone out, and what is still there, in order. -/
theorem PktThreads.Inv.isFifo (h : s.Inv cells) : s.IsFifo where
  returned_prefix := ⟨_, h.accepted_eq.symm⟩
  size_eq := by
    rw [h.accepted_eq, List.length_append, List.length_map, h.holds.size_eq, Nat.add_comm]
  size_le := h.holds.size_eq ▸ h.holds.size_le
  holds := ⟨cells, h.holds, h.accepted_eq⟩
  head_ne hr := by
    obtain ⟨c, rest, rfl⟩ := List.exists_cons_of_ne_nil (h.removing_ne hr)
    rw [h.holds.head_eq, first_cons]
    simp

/-- Both sections of an insertion keep this, also when the queue has been emptied between them. -/
theorem PktThreads.Inv.pktEnqueue (h : s.Inv cells) (packet : Option α) (proposed : ℕ) :
    ∃ t cells', s.pktEnqueue packet proposed = some t ∧ t.Inv cells' := by
  rw [PktThreads.pktEnqueue.eq_def]
  split
  case h_1 hidle =>
    have hinv (r : Option PktError) : PktThreads.Inv { s with result := r } cells :=
      ⟨h.holds, h.accepted_eq, h.room, h.removing_ne⟩
    cases packet with
    | none => exact ⟨_, cells, rfl, hinv _⟩
    | some packet =>
      simp only
      split
      case isTrue => exact ⟨_, cells, rfl, hinv _⟩
      case isFalse hfull =>
        rw [h.holds.isPktQueueFull_iff] at hfull
        exact ⟨_, cells, rfl, h.holds, h.accepted_eq,
          fun _ => lt_of_le_of_ne h.holds.size_le hfull, h.removing_ne⟩
  case h_2 packet hins =>
    obtain ⟨q', p, hq', hholds⟩ := h.holds.pktInsert (h.room (by rw [hins]; rfl)) packet proposed
    rw [hq', Option.map_some]
    refine ⟨_, _, rfl, hholds, ?_, fun hsome => absurd hsome (by simp), fun _ => by simp⟩
    rw [h.accepted_eq, List.map_append, List.append_assoc]
    rfl

theorem PktThreads.Inv.pktDequeue (h : s.Inv cells) (packetIsNull : Bool) :
    ∃ t cells', s.pktDequeue packetIsNull = some t ∧ t.Inv cells' := by
  rw [PktThreads.pktDequeue]
  split
  case isTrue hr =>
    obtain ⟨⟨p, pkt⟩, rest, rfl⟩ := List.exists_cons_of_ne_nil (h.removing_ne hr)
    obtain ⟨q', hq', hholds⟩ := h.holds.pktRemove
    rw [hq', Option.map_some]
    refine ⟨_, rest, rfl, hholds, ?_, fun hsome => ?_, fun hr => absurd hr (by simp)⟩
    · rw [h.accepted_eq, List.append_assoc]
      rfl
    · exact lt_of_le_of_lt (Nat.le_succ _) (h.room hsome)
  case isFalse hr =>
    have hinv (r : Option PktError) : PktThreads.Inv { s with result := r } cells :=
      ⟨h.holds, h.accepted_eq, h.room, h.removing_ne⟩
    split
    case isTrue => exact ⟨_, cells, rfl, hinv _⟩
    case isFalse =>
      split
      case isTrue => exact ⟨_, cells, rfl, hinv _⟩
      case isFalse hempty =>
        rw [h.holds.isPktQueueEmpty_iff] at hempty
        exact ⟨_, cells, rfl, h.holds, h.accepted_eq, h.room, fun _ => hempty⟩

/-- No section follows a null or dangling pointer, and each keeps the invariant. -/
theorem PktThreads.Inv.step (h : s.Inv cells) (a : PktMove α) :
    ∃ t cells', s.step a = some t ∧ t.Inv cells' := by
  cases a with
  | enqueue packet proposed => exact h.pktEnqueue packet proposed
  | dequeue packetIsNull => exact h.pktDequeue packetIsNull

/-- Only a section that ends its call with `PKT_ERROR_OK` changes the queue. -/
theorem result_ok_or_queue_eq {a : PktMove α} (ht : s.step a = some t) :
    t.result = some .ok ∨ t.queue = s.queue := by
  cases a with
  | enqueue packet proposed =>
    rw [PktThreads.step, PktThreads.pktEnqueue.eq_def] at ht
    split at ht
    case h_1 =>
      right
      split at ht
      case h_1 => exact Option.some.inj ht ▸ rfl
      case h_2 => split at ht <;> exact Option.some.inj ht ▸ rfl
    case h_2 =>
      obtain ⟨q', -, rfl⟩ := Option.map_eq_some_iff.mp ht
      exact Or.inl rfl
  | dequeue packetIsNull =>
    rw [PktThreads.step, PktThreads.pktDequeue] at ht
    split at ht
    case isTrue =>
      obtain ⟨⟨pkt, q'⟩, -, rfl⟩ := Option.map_eq_some_iff.mp ht
      exact Or.inl rfl
    case isFalse =>
      right
      split at ht
      case isTrue => exact Option.some.inj ht ▸ rfl
      case isFalse => split at ht <;> exact Option.some.inj ht ▸ rfl

/-- A call that is refused leaves the queue as it is. -/
theorem refusalUnchanged (s : PktThreads α) (a : PktMove α) : s.RefusalUnchanged a := by
  intro t ht hresult
  obtain hok | hqueue := result_ok_or_queue_eq ht
  · rw [hok] at hresult
    simp at hresult
  · exact hqueue

theorem inv_start (heap : Heap α) : (PktThreads.start heap).Inv [] where
  holds := holds_pktQueueInit heap
  accepted_eq := rfl
  room h := absurd h (by simp [PktThreads.start])
  removing_ne h := absurd h (by simp [PktThreads.start])

/-- **A packet queue is a bounded FIFO, however its two threads are interleaved.** -/
theorem fifo_run (heap : Heap α) (moves : List (PktMove α)) :
    Runs.Always PktThreads.step PktThreads.IsFifo (PktThreads.start heap) moves ∧
      Runs.EachStep PktThreads.step PktThreads.RefusalUnchanged (PktThreads.start heap) moves := by
  have hstep : ∀ s a, (∃ cells, PktThreads.Inv (α := α) s cells) → True →
      ∃ t, PktThreads.step s a = some t ∧ ∃ cells, t.Inv cells := by
    rintro s a ⟨cells, h⟩ -
    obtain ⟨t, cells', ht, hinv⟩ := h.step a
    exact ⟨t, ht, cells', hinv⟩
  have hstart : ∃ cells, (PktThreads.start heap).Inv cells := ⟨[], inv_start heap⟩
  constructor
  · exact (Runs.always_of_inv hstep hstart moves fun _ _ => trivial).imp
      fun s ⟨cells, h⟩ => h.isFifo
  · exact Runs.eachStep_of_inv hstep (fun s a _ _ => refusalUnchanged s a) hstart moves
      fun _ _ => trivial

end LoRaGwSv
