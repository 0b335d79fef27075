import LoRaGwSv.Machinery.Runs
import LoRaGwSv.Server.Booking
import LoRaGwSv.Server.NodeLinks

/-!
# Server/NodeRuns — a node list after any history

The program holds the nodes it has created or popped; a push hands one of them to the list, and in
between it may write to those it holds, or free them (`NodeProgram`).  **In every state the links of
the list agree in both directions** and the list has as many nodes as it counts, no two of them with
one address (`represents_run`).  They are the nodes of `Server/DeviceMngt`, after the calls the
program has made (`refines_nodeRun`).
-/

namespace LoRaGwSv

open Heap

variable {lst : MngtNodeList} {n : MngtNode} {addr : UInt16}

/-! ## The size of a list

Addresses have sixteen bits and are distinct, so the size of a list does not wrap. -/

/-- The list has as many nodes as it counts. -/
def MngtNodeList.Sized (lst : MngtNodeList) : Prop := lst.size.toNat = lst.nodes.length

/-- Sixteen bits of address are few enough for the size. -/
theorem MngtNodeList.Distinct.length_le (h : lst.Distinct) : lst.nodes.length ≤ 65536 :=
  Keyed.length_le_of_nodup (fun _ _ => UInt16.toNat_inj.mp) UInt16.toNat_lt h

theorem sized_pushNode (hd : lst.Distinct) (h : lst.Sized) (n : MngtNode) :
    (pushNode lst n).2.Sized := by
  have hle := (distinct_pushNode hd n).length_le
  rw [pushNode, isNodeExisted] at hle ⊢
  split at hle
  case isTrue hsome =>
    obtain ⟨t, ht⟩ := Option.isSome_iff_exists.mp hsome
    rw [if_pos hsome, dmNodeUpdateGenInfo_snd ht]
    exact h.trans (Keyed.length_update _ _).symm
  case isFalse hnone =>
    rw [if_neg hnone]
    have hlen : (if lst.sort then lst.nodes.orderedInsert MngtNode.DemandsMore n
        else lst.nodes ++ [n]).length = lst.nodes.length + 1 := by
      split
      · exact List.orderedInsert_length _ _ _
      · exact List.length_append
    have hsize : lst.size.toNat = lst.nodes.length := h
    simp only [hlen] at hle
    simp only [MngtNodeList.Sized, hlen, UInt32.toNat_add, hsize, UInt32.toNat_one]
    omega

theorem MngtNodeList.Sized.unlink {nodes : List MngtNode} (h : lst.Sized) (retNode : MngtNode)
    (hlen : lst.nodes.length = nodes.length + 1) : (lst.unlink retNode nodes).Sized := by
  have hlt := lst.size.toNat_lt
  have hsize : lst.size.toNat = lst.nodes.length := h
  simp only [MngtNodeList.Sized, MngtNodeList.unlink, UInt32.toNat_sub, UInt32.toNat_one]
  omega

/-! ## Calls on a list -/

/-- One call on a list. -/
inductive NodeOp
  | pushNode (node : MngtNode)
  | popHeadNode
  | popNodeByAddress (addr : UInt16)

/-- The list a call leaves. -/
def NodeOp.step (lst : MngtNodeList) : NodeOp → MngtNodeList
  | .pushNode node => (LoRaGwSv.pushNode lst node).2
  | .popHeadNode => (LoRaGwSv.popHeadNode lst).2
  | .popNodeByAddress addr => (LoRaGwSv.popNodeByAddress lst addr).2

theorem MngtNodeList.Distinct.step (hd : lst.Distinct) (op : NodeOp) : (op.step lst).Distinct := by
  cases op with
  | pushNode node => exact distinct_pushNode hd node
  | popNodeByAddress addr => exact distinct_popNodeByAddress hd addr
  | popHeadNode =>
    rw [NodeOp.step, popHeadNode]
    split
    case h_1 => exact hd
    case h_2 retNode rest hnodes =>
      rw [MngtNodeList.Distinct, hnodes] at hd
      exact (List.nodup_cons.mp hd).2

theorem MngtNodeList.Sized.step (h : lst.Sized) (hd : lst.Distinct) (op : NodeOp) :
    (op.step lst).Sized := by
  cases op with
  | pushNode node => exact sized_pushNode hd h node
  | popHeadNode =>
    rw [NodeOp.step, popHeadNode]
    split
    case h_1 => exact h
    case h_2 retNode rest hnodes => exact h.unlink retNode (by rw [hnodes, List.length_cons])
  | popNodeByAddress addr =>
    rw [NodeOp.step, popNodeByAddress]
    split
    case h_1 => exact h
    case h_2 retNode hret => exact h.unlink retNode (Keyed.perm_cons_erase hret).length_eq

/-! ## The program around a list

Nodes are created and freed outside of the list.  The program owns those it has created or popped
until it pushes or frees them. -/

/-- A list, and the nodes the program holds outside of it. -/
structure NodeProgram where
  lst : NodeLinks
  held : List ℕ

/-- What a program does with a list and the nodes it holds, with where `malloc` proposes to put a
node. -/
inductive NodeMove
  | createNewNode (genInfo : NodeGenInfo) (parrent : UInt16) (proposed : ℕ)
  | write (node : ℕ) (c : Cell MngtNode)
  | free (node : ℕ)
  | pushNode (node : ℕ)
  | popHeadNode
  | popNodeByAddress (addr : UInt16)

/-- A node that is popped is held from then on. -/
def NodeProgram.take (s : NodeProgram) (pop : Pointer × NodeLinks) : NodeProgram :=
  ⟨pop.2, pop.1.toList ++ s.held⟩

/-- Nodes that are not held are neither written, nor freed, nor pushed. -/
def NodeProgram.step (s : NodeProgram) : NodeMove → Option NodeProgram
  | .createNewNode genInfo parrent proposed =>
    let node := s.lst.heap.malloc proposed
    let heap := s.lst.heap.write node ⟨createNewNode genInfo parrent, none, none⟩
    some ⟨{ s.lst with heap := heap }, node :: s.held⟩
  | .write node c =>
    if node ∈ s.held then some { s with lst := { s.lst with heap := s.lst.heap.write node c } }
    else some s
  | .free node =>
    if node ∈ s.held then
      some ⟨{ s.lst with heap := s.lst.heap.free node }, s.held.erase node⟩
    else some s
  | .pushNode node =>
    if node ∈ s.held then (s.lst.pushNode node).map fun (_, lst) => ⟨lst, s.held.erase node⟩
    else some s
  | .popHeadNode => s.lst.popHeadNode.map s.take
  | .popNodeByAddress addr => (s.lst.popNodeByAddress addr).map s.take

/-- An empty list, and no node in hand. -/
def NodeProgram.start (sort : Bool) (heap : Heap MngtNode) : NodeProgram :=
  ⟨NodeLinks.initNodeList sort heap, []⟩

/-- The call a move makes, a push of the node that memory holds. -/
def NodeProgram.calls (s : NodeProgram) : NodeMove → List NodeOp
  | .createNewNode .. | .write .. | .free .. => []
  | .pushNode node =>
    if node ∈ s.held then (s.lst.heap.cells node).toList.map fun c => .pushNode c.val else []
  | .popHeadNode => [.popHeadNode]
  | .popNodeByAddress addr => [.popNodeByAddress addr]

/-- The calls that some moves make one after the other. -/
def NodeProgram.allCalls (s : NodeProgram) : List NodeMove → List NodeOp
  | [] => []
  | move :: moves =>
    s.calls move ++ ((s.step move).map fun t => t.allCalls moves).getD []

/-! ## What holds between the calls

The cells of the list and the nodes in the hands of the program are allocated and apart from each
other, so writing to one does not touch the other. -/

/-- **A list is in order**: from `head` on, `next` leads through as many nodes as it counts, with
distinct addresses, to null; from the last of them `prev` leads back; and `tail` is that last one,
if there is one. -/
structure NodeLinks.Represents (lst : NodeLinks) (cells : List (ℕ × MngtNode)) : Prop where
  walk_next : walk Cell.next lst.heap lst.heap.top lst.head = some cells
  size_eq : lst.size.toNat = cells.length
  distinct : (cells.map NodeLinks.cellAddr).Nodup
  walk_prev : walk Cell.prev lst.heap lst.heap.top (last none cells) = some cells.reverse
  tail_eq : cells ≠ [] → lst.tail = last none cells

/-- What each move keeps: the nodes held are allocated, and not in the list. -/
structure NodeProgram.Inv (s : NodeProgram) (cells : List (ℕ × MngtNode)) : Prop where
  holds : s.lst.Holds cells
  distinct : (s.lst.list cells).Distinct
  sized : (s.lst.list cells).Sized
  nodup : s.held.Nodup
  apart : ∀ p ∈ s.held, p ∉ cells.map Prod.fst ∧ s.lst.heap.cells p ≠ none

variable {s : NodeProgram} {cells pre post : List (ℕ × MngtNode)} {p : ℕ} {x : MngtNode}
  {links : NodeLinks}

theorem NodeProgram.Inv.represents (h : s.Inv cells) : s.lst.Represents cells where
  walk_next := by
    rw [h.holds.head_eq]
    exact h.holds.linked.walk_next (h.holds.linked.length_le_top h.holds.nodup)
  size_eq := h.sized.trans (List.length_map _)
  distinct := by
    have hd := h.distinct
    rwa [MngtNodeList.Distinct, NodeLinks.list, List.map_map] at hd
  walk_prev := h.holds.linked.walk_prev (h.holds.linked.length_le_top h.holds.nodup)
  tail_eq := h.holds.tail_eq

/-- The program writes outside of the list. -/
theorem NodeProgram.Inv.outside {heap : Heap MngtNode} {held : List ℕ} (h : s.Inv cells)
    (heq : ∀ q ∈ cells.map Prod.fst, heap.cells q = s.lst.heap.cells q) (hnodup : held.Nodup)
    (hapart : ∀ p ∈ held, p ∉ cells.map Prod.fst ∧ heap.cells p ≠ none) :
    NodeProgram.Inv ⟨{ s.lst with heap := heap }, held⟩ cells :=
  ⟨h.holds.congr heq, h.distinct, h.sized, hnodup, hapart⟩

/-- A new node is in the hands of the program. -/
theorem NodeProgram.Inv.createNewNode (h : s.Inv cells) (proposed : ℕ) (c : Cell MngtNode) :
    NodeProgram.Inv ⟨{ s.lst with heap := s.lst.heap.write (s.lst.heap.malloc proposed) c },
      s.lst.heap.malloc proposed :: s.held⟩ cells := by
  have hfree := s.lst.heap.cells_malloc proposed
  have hcells : s.lst.heap.malloc proposed ∉ cells.map Prod.fst := fun hmem =>
    h.holds.linked.ne_none hmem hfree
  have hheld : s.lst.heap.malloc proposed ∉ s.held := fun hmem => (h.apart _ hmem).2 hfree
  refine h.outside (fun q hq => cells_write_of_ne fun heq => hcells (heq ▸ hq))
    (List.nodup_cons.mpr ⟨hheld, h.nodup⟩) (List.forall_mem_cons.mpr ⟨⟨hcells, ?_⟩, ?_⟩)
  · rw [cells_write_self]
    simp
  · intro q hq
    have hne : q ≠ s.lst.heap.malloc proposed := fun heq => hheld (heq ▸ hq)
    rw [cells_write_of_ne hne]
    exact h.apart q hq

/-- The program may write to a node in its hands. -/
theorem NodeProgram.Inv.write (h : s.Inv cells) (hp : p ∈ s.held) (c : Cell MngtNode) :
    NodeProgram.Inv { s with lst := { s.lst with heap := s.lst.heap.write p c } } cells := by
  refine h.outside (fun q hq => cells_write_of_ne fun heq => (h.apart p hp).1 (heq ▸ hq)) h.nodup
    fun q hq => ⟨(h.apart q hq).1, ?_⟩
  by_cases heq : q = p
  · rw [heq, cells_write_self]
    simp
  · rw [cells_write_of_ne heq]
    exact (h.apart q hq).2

theorem NodeProgram.Inv.free (h : s.Inv cells) (hp : p ∈ s.held) :
    NodeProgram.Inv ⟨{ s.lst with heap := s.lst.heap.free p }, s.held.erase p⟩ cells := by
  refine h.outside (fun q hq => cells_free_of_ne fun heq => (h.apart p hp).1 (heq ▸ hq))
    (h.nodup.erase p) fun q hq => ?_
  obtain ⟨hne, hq⟩ := (h.nodup.mem_erase_iff).mp hq
  rw [cells_free_of_ne hne]
  exact h.apart q hq

/-- A call on the list, and the nodes held after it. -/
theorem NodeProgram.Inv.call {held : List ℕ} {cells' : List (ℕ × MngtNode)} (h : s.Inv cells)
    (op : NodeOp) (hlist : links.list cells' = op.step (s.lst.list cells))
    (hholds : links.Holds cells') (hnodup : held.Nodup)
    (hapart : ∀ p ∈ held, p ∉ cells'.map Prod.fst ∧ links.heap.cells p ≠ none) :
    NodeProgram.Inv ⟨links, held⟩ cells' where
  holds := hholds
  distinct := hlist ▸ h.distinct.step op
  sized := hlist ▸ h.sized.step h.distinct op
  nodup := hnodup
  apart := hapart

/-- **A node that is pushed goes from the hands of the program into the list**, unless its address
is there. -/
theorem NodeProgram.Inv.pushNode {c : Cell MngtNode} (h : s.Inv cells) (hp : p ∈ s.held)
    (hc : s.lst.heap.cells p = some c) :
    ∃ isNew links cells', s.lst.pushNode p = some (isNew, links) ∧
      links.list cells' = (LoRaGwSv.pushNode (s.lst.list cells) c.val).2 ∧
      NodeProgram.Inv ⟨links, s.held.erase p⟩ cells' := by
  obtain ⟨isNew, links, cells', e, hpushed⟩ := h.holds.pushNode hc (h.apart p hp).1
  have hlist : links.list cells' = (LoRaGwSv.pushNode (s.lst.list cells) c.val).2 :=
    (congrArg Prod.snd hpushed.list_eq).symm
  refine ⟨isNew, links, cells', e, hlist,
    h.call (.pushNode c.val) hlist hpushed.holds (h.nodup.erase p) fun q hq => ?_⟩
  obtain ⟨hne, hq⟩ := (h.nodup.mem_erase_iff).mp hq
  obtain ⟨hqcells, hqsome⟩ := h.apart q hq
  have hout : q ∉ p :: cells.map Prod.fst := fun hmem => (List.mem_cons.mp hmem).elim hne hqcells
  refine ⟨fun hmem => hout ?_, by rwa [hpushed.frame q hout]⟩
  have hmem := hpushed.addresses.subset hmem
  split at hmem
  case isTrue => exact hmem
  case isFalse => exact List.mem_cons_of_mem p hmem

theorem NodeProgram.Inv.take (h : s.Inv (pre ++ (p, x) :: post))
    (hu : s.lst.Unlinked links p x pre post) (op : NodeOp)
    (hlist : links.list (pre ++ post) = op.step (s.lst.list (pre ++ (p, x) :: post))) :
    (s.take (some p, links)).Inv (pre ++ post) := by
  have hnodup := h.holds.nodup
  rw [List.map_append, List.map_cons, List.nodup_middle, ← List.map_append] at hnodup
  obtain ⟨hpcells, -⟩ := List.nodup_cons.mp hnodup
  have hmem : p ∈ (pre ++ (p, x) :: post).map Prod.fst := by simp
  have hheld : p ∉ s.held := fun hp => (h.apart p hp).1 hmem
  refine h.call op hlist hu.holds (List.nodup_cons.mpr ⟨hheld, h.nodup⟩)
    (List.forall_mem_cons.mpr ⟨⟨hpcells, ?_⟩, fun q hq => ?_⟩)
  · rw [hu.cell]
    simp
  · obtain ⟨hqcells, hqsome⟩ := h.apart q hq
    rw [List.map_append, List.map_cons] at hqcells
    refine ⟨fun hmem => hqcells ?_, by rwa [hu.frame q hqcells]⟩
    rw [List.map_append] at hmem
    exact (List.Sublist.append_left (List.sublist_cons_self _ _) _).subset hmem

/-- **No move follows a pointer that leads nowhere**, each keeps the invariant, and the list behind
the links takes the call that the move makes. -/
theorem NodeProgram.Inv.step (h : s.Inv cells) (move : NodeMove) :
    ∃ t cells', s.step move = some t ∧ t.Inv cells' ∧
      t.lst.list cells' = (s.calls move).foldl NodeOp.step (s.lst.list cells) := by
  cases move with
  | createNewNode genInfo parrent proposed =>
    exact ⟨_, cells, rfl, h.createNewNode proposed _, rfl⟩
  | write node c =>
    rw [NodeProgram.step]
    split
    case isTrue hp => exact ⟨_, cells, rfl, h.write hp c, rfl⟩
    case isFalse => exact ⟨s, cells, rfl, h, rfl⟩
  | free node =>
    rw [NodeProgram.step]
    split
    case isTrue hp => exact ⟨_, cells, rfl, h.free hp, rfl⟩
    case isFalse => exact ⟨s, cells, rfl, h, rfl⟩
  | pushNode node =>
    rw [NodeProgram.step, NodeProgram.calls]
    by_cases hp : node ∈ s.held
    · obtain ⟨c, hc⟩ := Option.ne_none_iff_exists'.mp (h.apart node hp).2
      obtain ⟨isNew, links, cells', e, hlist, hinv⟩ := h.pushNode hp hc
      rw [if_pos hp, if_pos hp, e, hc]
      exact ⟨_, cells', rfl, hinv, hlist⟩
    · rw [if_neg hp, if_neg hp]
      exact ⟨s, cells, rfl, h, rfl⟩
  | popHeadNode =>
    rw [NodeProgram.step]
    rcases cells with - | ⟨⟨p, x⟩, cells⟩
    · have e : s.lst.popHeadNode = some (none, s.lst) := by
        rw [NodeLinks.popHeadNode, h.holds.head_eq]
        rfl
      exact ⟨s, [], by rw [e]; rfl, h, rfl⟩
    · obtain ⟨links, e, hunlinked⟩ := h.holds.popHeadNode
      have h' : s.Inv ([] ++ (p, x) :: cells) := h
      exact ⟨_, cells, by rw [e, Option.map_some], h'.take hunlinked .popHeadNode hunlinked.list_eq,
        hunlinked.list_eq⟩
  | popNodeByAddress addr =>
    rw [NodeProgram.step]
    cases hfound : Keyed.lookup NodeLinks.cellAddr addr cells with
    | none =>
      have e : s.lst.popNodeByAddress addr = some (none, s.lst) := by
        rw [NodeLinks.popNodeByAddress, h.holds.getNodeReferenceByAddress, hfound]
        rfl
      have hlist : (popNodeByAddress (s.lst.list cells) addr).2 = s.lst.list cells := by
        rw [popNodeByAddress, NodeLinks.getNodeReferenceByAddress_list, hfound]
        rfl
      exact ⟨s, cells, by rw [e]; rfl, h, hlist.symm⟩
    | some y =>
      obtain ⟨p, x⟩ := y
      obtain ⟨links, pre, post, e, rfl, hpre, hunlinked⟩ := h.holds.popNodeByAddress hfound
      have hx : NodeLinks.cellAddr (p, x) = addr := Keyed.key_of_lookup hfound
      obtain rfl : x.addr = addr := hx
      have hlist : links.list (pre ++ post)
          = (popNodeByAddress (s.lst.list (pre ++ (p, x) :: post)) x.addr).2 := by
        rw [hunlinked.list_eq, NodeLinks.popNodeByAddress_list s.lst hpre]
      exact ⟨_, pre ++ post, by rw [e, Option.map_some],
        h.take hunlinked (.popNodeByAddress x.addr) hlist, hlist⟩

theorem inv_start_nodes (sort : Bool) (heap : Heap MngtNode) :
    (NodeProgram.start sort heap).Inv [] where
  holds := NodeLinks.holds_initNodeList sort heap
  distinct := List.nodup_nil
  sized := rfl
  nodup := List.nodup_nil
  apart _ hp := absurd hp List.not_mem_nil

/-- **A node list is in order in every state of every run**, sorted or not. -/
theorem represents_run (sort : Bool) (heap : Heap MngtNode) (moves : List NodeMove) :
    Runs.Always NodeProgram.step (fun s => ∃ cells, s.lst.Represents cells)
      (NodeProgram.start sort heap) moves := by
  have hstep : ∀ s move, (∃ cells, NodeProgram.Inv s cells) → True →
      ∃ t, NodeProgram.step s move = some t ∧ ∃ cells, t.Inv cells := by
    rintro s move ⟨cells, h⟩ -
    obtain ⟨t, cells', ht, hinv, -⟩ := h.step move
    exact ⟨t, ht, cells', hinv⟩
  have hstart : ∃ cells, (NodeProgram.start sort heap).Inv cells := ⟨[], inv_start_nodes sort heap⟩
  exact (Runs.always_of_inv hstep hstart moves fun _ _ => trivial).imp
    fun s ⟨cells, h⟩ => ⟨cells, h.represents⟩

/-! ## The list behind the links

Read through its links, the list takes the calls that the list model takes. -/

/-- **A run of the program does to the list what its calls do**, by induction over its moves. -/
theorem NodeProgram.Inv.run (h : s.Inv cells) (moves : List NodeMove) :
    ∃ t cells', Runs.run NodeProgram.step s moves = some t ∧ t.Inv cells' ∧
      t.lst.list cells' = (s.allCalls moves).foldl NodeOp.step (s.lst.list cells) := by
  induction moves generalizing s cells with
  | nil => exact ⟨s, cells, rfl, h, rfl⟩
  | cons move moves ih =>
    obtain ⟨t, cells₁, ht, hinv, hlist⟩ := h.step move
    obtain ⟨u, cells₂, hu, hinv', hlist'⟩ := ih hinv
    refine ⟨u, cells₂, by rw [Runs.run_cons ht, hu], hinv', ?_⟩
    rw [NodeProgram.allCalls, ht, List.foldl_append, ← hlist]
    exact hlist'

/-- **A history of the links is a history of the list**: `next` leads from `head` through the nodes
that the list has after the calls the program has made. -/
theorem refines_nodeRun (sort : Bool) (heap : Heap MngtNode) (moves : List NodeMove) :
    ∃ s cells, Runs.run NodeProgram.step (NodeProgram.start sort heap) moves = some s ∧
      s.lst.Represents cells ∧ s.lst.list cells
        = ((NodeProgram.start sort heap).allCalls moves).foldl NodeOp.step (initNodeList sort) := by
  obtain ⟨s, cells, hrun, hinv, hlist⟩ := (inv_start_nodes sort heap).run moves
  exact ⟨s, cells, hrun, hinv.represents, hlist⟩

end LoRaGwSv
