import LoRaGwSv.Machinery.Relink
import LoRaGwSv.Server.Registry

/-!
# Server/NodeLinks — a node list and its links (`device_mngt.c`)

The nodes of a list are cells in memory, linked both ways between `head` and `tail`.  Whenever a
call ends, the links agree and the nodes are those of the list as `Server/DeviceMngt` has it
(`NodeLinks.Holds`, `Holds.pushNode`, `Holds.popHeadNode`, `Holds.popNodeByAddress`).  `popHeadNode`
does not touch `tail`: that of an empty list is left over, and is not read before it is set.
-/

namespace LoRaGwSv

open Heap

/-- `MngtNodeList_t`, with the memory its nodes are in. -/
structure NodeLinks where
  head : Pointer
  tail : Pointer
  size : UInt32
  nboSchReq : UInt32
  sort : Bool
  heap : Heap MngtNode

namespace NodeLinks

/-- `initNodeList`. -/
def initNodeList (sort : Bool) (heap : Heap MngtNode) : NodeLinks := ⟨none, none, 0, 0, sort, heap⟩

/-- The loop over the list that looks for an address. -/
def findLoop (heap : Heap MngtNode) (addr : UInt16) : ℕ → Pointer → Option Pointer
  | _, none => some none
  | 0, some _ => none
  | fuel + 1, some curNode => do
    let cur ← heap.cells curNode
    if cur.val.addr = addr then some (some curNode) else findLoop heap addr fuel cur.next

/-- `getNodeReferenceByAddress`, along the links; `none` where a link leads nowhere. -/
def getNodeReferenceByAddress (lst : NodeLinks) (addr : UInt16) : Option Pointer :=
  findLoop lst.heap addr lst.heap.top lst.head

/-- `isNodeExisted`. -/
def isNodeExisted (lst : NodeLinks) (addr : UInt16) : Option Bool :=
  (lst.getNodeReferenceByAddress addr).map Option.isSome

/-- `dmNodeUpdateGenInfo`, through the reference that has been found. -/
def dmNodeUpdateGenInfo (lst : NodeLinks) (node : MngtNode) : Option (Bool × NodeLinks) := do
  match ← lst.getNodeReferenceByAddress node.addr with
  | none => some (false, lst)
  | some tmpNode =>
    let tmp ← lst.heap.cells tmpNode
    some (true,
      { lst with heap := lst.heap.write tmpNode { tmp with val := node.updateGenInfo tmp.val } })

/-- The loop of `pushNode` for a sorted list: the node goes before the first one that demands fewer
slots. -/
def placeLoop (lst : NodeLinks) (node : ℕ) (slotDmn : UInt8) : ℕ → Pointer → Option NodeLinks
  | 0, _ => none
  | fuel + 1, curNode => do
    let cur ← curNode.bind lst.heap.cells
    if cur.val.genInfo.slotDmn < slotDmn then
      if curNode = lst.head then
        -- node becomes list's head
        let heap ← lst.heap.setPrev (some node) none
        let heap ← heap.setPrev curNode (some node)
        let heap ← heap.setNext (some node) curNode
        some { lst with head := some node, heap := heap }
      else
        let heap ← lst.heap.setPrev (some node) cur.prev
        let heap ← heap.setNext cur.prev (some node)
        let heap ← heap.setPrev curNode (some node)
        let heap ← heap.setNext (some node) curNode
        some { lst with heap := heap }
    else if cur.next.isNone then
      -- node becomes list's tail
      let heap ← lst.heap.setNext curNode (some node)
      let heap ← heap.setPrev (some node) curNode
      let heap ← heap.setNext (some node) none
      some { lst with tail := some node, heap := heap }
    else placeLoop lst node slotDmn fuel cur.next

/-- What `pushNode` does to the links for a node that is new. -/
def place (lst : NodeLinks) (node : ℕ) (slotDmn : UInt8) : Option NodeLinks := do
  if lst.head.isNone then
    let heap ← lst.heap.setNext (some node) none
    let heap ← heap.setPrev (some node) none
    some { lst with tail := some node, head := some node, heap := heap }
  else if lst.sort = false then
    let heap ← lst.heap.setNext lst.tail (some node)
    let heap ← heap.setNext (some node) none
    let heap ← heap.setPrev (some node) lst.tail
    some { lst with tail := some node, heap := heap }
  else placeLoop lst node slotDmn lst.heap.top lst.head

/-- `pushNode`. -/
def pushNode (lst : NodeLinks) (node : ℕ) : Option (Bool × NodeLinks) := do
  let c ← lst.heap.cells node
  if ← lst.isNodeExisted c.val.addr then
    let (_, lst) ← lst.dmNodeUpdateGenInfo c.val
    some (false, { lst with heap := lst.heap.free node })
  else
    let lst ← lst.place node c.val.genInfo.slotDmn
    some (true,
      { lst with
        nboSchReq := if c.val.schFlag = false then lst.nboSchReq + 1 else lst.nboSchReq
        size := lst.size + 1 })

/-- What both pops end with: the links of the node are cut, and it is no longer counted. -/
def release (lst : NodeLinks) (retNode : ℕ) (val : MngtNode) : Option NodeLinks := do
  let heap ← lst.heap.setNext (some retNode) none
  let heap ← heap.setPrev (some retNode) none
  some { lst with
    heap := heap
    size := lst.size - 1
    nboSchReq := if val.schFlag = false then lst.nboSchReq - 1 else lst.nboSchReq }

/-- `popHeadNode`. -/
def popHeadNode (lst : NodeLinks) : Option (Pointer × NodeLinks) :=
  match lst.head with
  | none => some (none, lst)
  | some retNode => do
    let ret ← lst.heap.cells retNode
    let heap ← lst.heap.setPrevIf ret.next none
    let lst ← { lst with head := ret.next, heap := heap }.release retNode ret.val
    some (some retNode, lst)

/-- `popNodeByAddress`. -/
def popNodeByAddress (lst : NodeLinks) (addr : UInt16) : Option (Pointer × NodeLinks) := do
  match ← lst.getNodeReferenceByAddress addr with
  | none => some (none, lst)
  | some retNode =>
    let ret ← lst.heap.cells retNode
    let heap ← lst.heap.setNextIf ret.prev ret.next
    let heap ← heap.setPrevIf ret.next ret.prev
    let lst ← { lst with
      head := if some retNode = lst.head then ret.next else lst.head
      tail := if some retNode = lst.tail then ret.prev else lst.tail
      heap := heap }.release retNode ret.val
    some (some retNode, lst)

/-! ## What a list holds

Forwards and backwards the links lead through the same cells; the first has no link back, and the
last no link on. -/

/-- The links of the list lead through `cells` in either direction. -/
structure Holds (lst : NodeLinks) (cells : List (ℕ × MngtNode)) : Prop where
  head_eq : lst.head = first cells none
  /-- The tail of an empty list is left over. -/
  tail_eq : cells ≠ [] → lst.tail = last none cells
  linked : lst.heap.Linked none cells none
  nodup : (cells.map Prod.fst).Nodup

/-- The list as `Server/DeviceMngt` has it. -/
def list (lst : NodeLinks) (cells : List (ℕ × MngtNode)) : MngtNodeList :=
  ⟨cells.map Prod.snd, lst.size, lst.nboSchReq, lst.sort⟩

/-- The node `p` has come into the list, between `pre` and `post`. -/
structure Placed (lst lst' : NodeLinks) (p : ℕ) (x : MngtNode) (pre post : List (ℕ × MngtNode)) :
    Prop where
  holds : lst'.Holds (pre ++ (p, x) :: post)
  frame : ∀ q ∉ pre.map Prod.fst ++ p :: post.map Prod.fst, lst'.heap.cells q = lst.heap.cells q
  size_eq : lst'.size = lst.size
  nboSchReq_eq : lst'.nboSchReq = lst.nboSchReq
  sort_eq : lst'.sort = lst.sort

/-- The node `p` has gone from the list, from between `pre` and `post`. -/
structure Unlinked (lst lst' : NodeLinks) (p : ℕ) (x : MngtNode) (pre post : List (ℕ × MngtNode)) :
    Prop where
  holds : lst'.Holds (pre ++ post)
  cell : lst'.heap.cells p = some ⟨x, none, none⟩
  frame : ∀ q ∉ pre.map Prod.fst ++ p :: post.map Prod.fst, lst'.heap.cells q = lst.heap.cells q
  list_eq : lst'.list (pre ++ post)
    = (lst.list (pre ++ (p, x) :: post)).unlink x ((pre ++ post).map Prod.snd)

/-- What a node list is searched by, at the cells that hold it. -/
abbrev cellAddr (x : ℕ × MngtNode) : UInt16 := x.2.addr

variable {lst : NodeLinks} {cells pre post : List (ℕ × MngtNode)} {p : ℕ} {c : Cell MngtNode}
  {x : MngtNode} {addr : UInt16} {heap : Heap MngtNode}

theorem holds_initNodeList (sort : Bool) (heap : Heap MngtNode) :
    (initNodeList sort heap).Holds [] where
  head_eq := rfl
  tail_eq h := absurd rfl h
  linked := trivial
  nodup := List.nodup_nil

/-! ## Searching

A reference is the address of a cell.  The search follows links of the list only, so it never leaves
the list. -/

/-- By induction over the list: with fuel for its cells the loop finds the first with the address.
-/
theorem findLoop_eq {prev : Pointer} (hl : heap.Linked prev cells none) {fuel : ℕ}
    (hfuel : cells.length ≤ fuel) : findLoop heap addr fuel (first cells none)
      = some ((Keyed.lookup cellAddr addr cells).map Prod.fst) := by
  induction cells generalizing prev fuel with
  | nil => rw [first_nil, findLoop, Keyed.lookup_nil, Option.map_none]
  | cons y cells ih =>
    obtain ⟨hy, hl⟩ := hl
    obtain ⟨fuel, rfl⟩ := Nat.exists_eq_add_of_le' (Nat.succ_le_of_lt (Nat.zero_lt_of_lt hfuel))
    rw [first_cons, findLoop, hy, Keyed.lookup_cons]
    simp only [Option.bind_eq_bind, Option.bind_some]
    split
    · rfl
    · exact ih hl (Nat.le_of_succ_le_succ hfuel)

theorem Holds.getNodeReferenceByAddress (h : lst.Holds cells) (addr : UInt16) :
    lst.getNodeReferenceByAddress addr
      = some ((Keyed.lookup cellAddr addr cells).map Prod.fst) := by
  rw [NodeLinks.getNodeReferenceByAddress, h.head_eq]
  exact findLoop_eq h.linked (h.linked.length_le_top h.nodup)

/-- The list search finds the node that the cell found holds. -/
theorem getNodeReferenceByAddress_list (lst : NodeLinks) (cells : List (ℕ × MngtNode))
    (addr : UInt16) : LoRaGwSv.getNodeReferenceByAddress (lst.list cells) addr
      = (Keyed.lookup cellAddr addr cells).map Prod.snd :=
  Keyed.lookup_map (fun _ => rfl) cells

/-- The list gives up the node that the first cell with the address holds. -/
theorem popNodeByAddress_list (lst : NodeLinks) (hpre : ∀ y ∈ pre, y.2.addr ≠ x.addr) :
    LoRaGwSv.popNodeByAddress (lst.list (pre ++ (p, x) :: post)) x.addr
      = (some x, (lst.list (pre ++ (p, x) :: post)).unlink x ((pre ++ post).map Prod.snd)) := by
  have hfound : LoRaGwSv.getNodeReferenceByAddress (lst.list (pre ++ (p, x) :: post)) x.addr
      = some x := by
    rw [getNodeReferenceByAddress_list, Keyed.lookup_place hpre rfl, Option.map_some]
  have herase : Keyed.erase MngtNode.addr x.addr (lst.list (pre ++ (p, x) :: post)).nodes
      = (Keyed.erase cellAddr x.addr (pre ++ (p, x) :: post)).map Prod.snd :=
    Keyed.erase_map (fun _ => rfl) _
  rw [LoRaGwSv.popNodeByAddress, hfound]
  rw [Keyed.erase_place hpre rfl] at herase
  simp only [herase]

/-! ## Putting a node in

Of the links of a node four may change.  Which assignments the source makes depends on whether it
comes first, last or in between, and each case leaves the same list. -/

/-- Once the links of a node agree, it is in the list. -/
theorem placed_of_opened {head tail : Pointer}
    (ho : Opened lst.heap heap pre (some p) p ⟨x, first post none, last none pre⟩ (some p) post)
    (hhead : head = first pre (some p)) (htail : tail = last (some p) post) :
    lst.Placed { lst with head := head, tail := tail, heap := heap } p x pre post where
  holds :=
    { head_eq := by rw [hhead, first_append, first_cons]
      tail_eq := fun _ => by rw [htail, last_append, last_cons]
      linked := ho.linked
      nodup := ho.nodup_linked x }
  frame := ho.frame
  size_eq := rfl
  nboSchReq_eq := rfl
  sort_eq := rfl

/-- A node that is not in the list has a place where it is to come. -/
theorem Holds.openedAt (h : lst.Holds (pre ++ post)) (hc : lst.heap.cells p = some c)
    (hp : p ∉ (pre ++ post).map Prod.fst) :
    Opened lst.heap lst.heap pre (first post none) p c (last none pre) post :=
  h.linked.openedAt h.nodup hc hp

theorem Holds.placed_head {q : ℕ} {y : MngtNode} (h : lst.Holds ((q, y) :: cells))
    (hc : lst.heap.cells p = some c) (hp : p ∉ ((q, y) :: cells).map Prod.fst) :
    ∃ h₁ h₂ h₃, lst.heap.setPrev (some p) none = some h₁ ∧
      h₁.setPrev (some q) (some p) = some h₂ ∧ h₂.setNext (some p) (some q) = some h₃ ∧
      lst.Placed { lst with head := some p, heap := h₃ } p c.val [] ((q, y) :: cells) := by
  have h' : lst.Holds ([] ++ (q, y) :: cells) := h
  obtain ⟨h₁, e₁, o₁⟩ := (h'.openedAt hc hp).setPrev_cell none
  obtain ⟨h₂, e₂, o₂⟩ := o₁.setPrev_behind rfl (some p)
  obtain ⟨h₃, e₃, o₃⟩ := o₂.setNext_cell (some q)
  have htail : lst.tail = last (some p) ((q, y) :: cells) := by
    rw [h.tail_eq (by simp), last_cons, last_cons]
  exact ⟨h₁, h₂, h₃, e₁, e₂, e₃, placed_of_opened (o₃.nil_before (some p)) rfl htail⟩

theorem Holds.placed_between {q t : ℕ} {y : MngtNode} (h : lst.Holds (pre ++ (q, y) :: post))
    (hc : lst.heap.cells p = some c) (hp : p ∉ (pre ++ (q, y) :: post).map Prod.fst)
    (hlast : last none pre = some t) :
    ∃ h₁ h₂ h₃ h₄, lst.heap.setPrev (some p) (some t) = some h₁ ∧
      h₁.setNext (some t) (some p) = some h₂ ∧ h₂.setPrev (some q) (some p) = some h₃ ∧
      h₃.setNext (some p) (some q) = some h₄ ∧
      lst.Placed { lst with heap := h₄ } p c.val pre ((q, y) :: post) := by
  have hpre : pre ≠ [] := fun hnil => by simp [hnil] at hlast
  obtain ⟨h₁, e₁, o₁⟩ := (h.openedAt hc hp).setPrev_cell (some t)
  obtain ⟨h₂, e₂, o₂⟩ := o₁.setNext_before hlast (some p)
  obtain ⟨h₃, e₃, o₃⟩ := o₂.setPrev_behind rfl (some p)
  obtain ⟨h₄, e₄, o₄⟩ := o₃.setNext_cell (some q)
  have hhead : lst.head = first pre (some p) := by
    rw [h.head_eq, first_append_of_ne_nil hpre]
    exact (first_of_ne_nil hpre).symm
  have htail : lst.tail = last (some p) ((q, y) :: post) := by
    rw [h.tail_eq (by simp), last_append, last_cons, last_cons]
  rw [← hlast] at o₄
  exact ⟨h₁, h₂, h₃, h₄, e₁, e₂, e₃, e₄, placed_of_opened o₄ hhead htail⟩

/-- What stands behind another node is not the head. -/
theorem Holds.ne_head {q : ℕ} {y : MngtNode} (h : lst.Holds (pre ++ (q, y) :: post))
    (hpre : pre ≠ []) : some q ≠ lst.head := by
  intro heq
  rw [h.head_eq, first_append_of_ne_nil hpre] at heq
  have hnodup := h.nodup
  rw [List.map_append, List.nodup_append] at hnodup
  exact hnodup.2.2 q (mem_of_first heq.symm) q (by simp) rfl

theorem Holds.placed_tail (h : lst.Holds cells) (hne : cells ≠ [])
    (ho : Opened lst.heap heap cells (some p) p ⟨c.val, none, last none cells⟩ none []) :
    lst.Placed { lst with tail := some p, heap := heap } p c.val cells [] :=
  placed_of_opened (ho.nil_behind (some p)) (h.head_eq.trans (first_of_ne_nil hne).symm) rfl

/-- **The loop puts the node before the first one that demands fewer slots**, on from where it
stands. -/
theorem Holds.placeLoop (h : lst.Holds (pre ++ post)) (hpost : post ≠ [])
    (hc : lst.heap.cells p = some c) (hp : p ∉ (pre ++ post).map Prod.fst) {fuel : ℕ}
    (hfuel : post.length ≤ fuel) :
    ∃ lst' pre' post', lst.placeLoop p c.val.genInfo.slotDmn fuel (first post none) = some lst' ∧
      pre.map Prod.snd ++ (post.map Prod.snd).orderedInsert MngtNode.DemandsMore c.val
        = pre'.map Prod.snd ++ c.val :: post'.map Prod.snd ∧
      pre ++ post = pre' ++ post' ∧ lst.Placed lst' p c.val pre' post' := by
  induction post generalizing pre fuel with
  | nil => exact absurd rfl hpost
  | cons y post ih =>
    obtain ⟨q, y⟩ := y
    obtain ⟨fuel, rfl⟩ := Nat.exists_eq_add_of_le' (Nat.succ_le_of_lt (Nat.zero_lt_of_lt hfuel))
    have hcur : lst.heap.cells q = some ⟨y, first post none, last none pre⟩ :=
      (h.openedAt hc hp).behind.1
    rw [NodeLinks.placeLoop, first_cons, Option.bind_some, hcur, List.map_cons,
      List.orderedInsert_cons]
    simp only [Option.bind_eq_bind, Option.bind_some]
    by_cases hlt : y.genInfo.slotDmn < c.val.genInfo.slotDmn
    · rw [if_pos hlt, if_pos hlt]
      cases hlast : last none pre with
      | none =>
        obtain rfl := last_eq_none.mp hlast
        obtain ⟨h₁, h₂, h₃, e₁, e₂, e₃, hplaced⟩ := h.placed_head hc hp
        rw [if_pos (h.head_eq.trans first_cons).symm, e₁, Option.bind_some, e₂, Option.bind_some,
          e₃, Option.bind_some]
        exact ⟨_, [], (q, y) :: post, rfl, rfl, rfl, hplaced⟩
      | some t =>
        have hpre : pre ≠ [] := fun hnil => by simp [hnil] at hlast
        obtain ⟨h₁, h₂, h₃, h₄, e₁, e₂, e₃, e₄, hplaced⟩ := h.placed_between hc hp hlast
        rw [if_neg (h.ne_head hpre), e₁, Option.bind_some, e₂, Option.bind_some, e₃,
          Option.bind_some, e₄, Option.bind_some]
        exact ⟨_, pre, (q, y) :: post, rfl, rfl, rfl, hplaced⟩
    · rw [if_neg hlt, if_neg hlt]
      have h' : lst.Holds ((pre ++ [(q, y)]) ++ post) := by
        rwa [List.append_assoc, List.singleton_append]
      have hp' : p ∉ ((pre ++ [(q, y)]) ++ post).map Prod.fst := by
        rwa [List.append_assoc, List.singleton_append]
      cases post with
      | nil =>
        -- the node becomes the tail
        obtain ⟨h₁, e₁, o₁⟩ := (h'.openedAt hc hp').setNext_before last_concat (some p)
        obtain ⟨h₂, e₂, o₂⟩ := o₁.setPrev_cell (some q)
        obtain ⟨h₃, e₃, o₃⟩ := o₂.setNext_cell none
        rw [first_nil, if_pos Option.isNone_none, e₁, Option.bind_some, e₂, Option.bind_some, e₃,
          Option.bind_some]
        rw [List.append_nil] at h'
        refine ⟨_, pre ++ [(q, y)], [], rfl, by simp, by simp,
          h'.placed_tail (by simp) ?_⟩
        rw [last_concat]
        exact o₃.nil_behind none
      | cons z post =>
        obtain ⟨lst', pre', post', e, hins, heq, hplaced⟩ := ih h' (List.cons_ne_nil z post) hp'
          (Nat.le_of_succ_le_succ hfuel)
        rw [first_cons, if_neg (by simp)]
        refine ⟨lst', pre', post', e, ?_, ?_, hplaced⟩
        · rw [← hins, List.map_append, List.append_assoc]
          rfl
        · rw [← heq, List.append_assoc]
          rfl

/-- **A new node comes where the list has it**: before the first one that demands fewer slots, or
at the end if the list is not sorted. -/
theorem Holds.place (h : lst.Holds cells) (hc : lst.heap.cells p = some c)
    (hp : p ∉ cells.map Prod.fst) :
    ∃ lst' pre post, lst.place p c.val.genInfo.slotDmn = some lst' ∧
      (if lst.sort then (cells.map Prod.snd).orderedInsert MngtNode.DemandsMore c.val
        else cells.map Prod.snd ++ [c.val]) = pre.map Prod.snd ++ c.val :: post.map Prod.snd ∧
      cells = pre ++ post ∧ lst.Placed lst' p c.val pre post := by
  rw [NodeLinks.place]
  simp only [Option.bind_eq_bind]
  by_cases hnil : cells = []
  · -- list is null currently
    subst hnil
    obtain ⟨h₁, e₁, o₁⟩ := (@Holds.openedAt lst [] [] p c h hc hp).setNext_cell none
    obtain ⟨h₂, e₂, o₂⟩ := o₁.setPrev_cell none
    rw [if_pos (by rw [h.head_eq]; rfl), e₁, Option.bind_some, e₂, Option.bind_some]
    refine ⟨_, [], [], rfl, by simp, rfl, ?_⟩
    exact placed_of_opened ((o₂.nil_before (some p)).nil_behind (some p)) rfl rfl
  · have hhead : ¬ lst.head.isNone = true := by
      rw [h.head_eq, Option.isNone_iff_eq_none, first_eq_none]
      exact hnil
    rw [if_neg hhead]
    by_cases hsort : lst.sort = false
    · obtain ⟨t, ht⟩ := Option.ne_none_iff_exists'.mp (mt last_eq_none.mp hnil)
      have h' : lst.Holds (cells ++ []) := by rwa [List.append_nil]
      have hp' : p ∉ (cells ++ []).map Prod.fst := by rwa [List.append_nil]
      obtain ⟨h₁, e₁, o₁⟩ := (h'.openedAt hc hp').setNext_before ht (some p)
      obtain ⟨h₂, e₂, o₂⟩ := o₁.setNext_cell none
      obtain ⟨h₃, e₃, o₃⟩ := o₂.setPrev_cell (some t)
      rw [if_pos hsort, h.tail_eq hnil, ht, e₁, Option.bind_some, e₂, Option.bind_some, e₃,
        Option.bind_some]
      refine ⟨_, cells, [], rfl, by simp [hsort], by simp, h.placed_tail hnil ?_⟩
      rw [ht]
      exact o₃.nil_behind none
    · rw [if_neg hsort, if_pos (by simpa using hsort), h.head_eq]
      have h' : lst.Holds ([] ++ cells) := h
      obtain ⟨lst', pre, post, e, hins, heq, hplaced⟩ := h'.placeLoop hnil hc hp
        (h.linked.length_le_top h.nodup)
      exact ⟨lst', pre, post, e, hins, heq, hplaced⟩

/-- The list holds the same in any memory that has the same cells of it. -/
theorem Holds.congr (h : lst.Holds cells)
    (heq : ∀ q ∈ cells.map Prod.fst, heap.cells q = lst.heap.cells q) :
    { lst with heap := heap }.Holds cells :=
  ⟨h.head_eq, h.tail_eq, h.linked.congr heq, h.nodup⟩

/-- **Updating the node that is there** rewrites its cell and leaves the links alone. -/
theorem Holds.dmNodeUpdateGenInfo {node y : MngtNode} {q : ℕ} (h : lst.Holds cells)
    (hfound : Keyed.lookup cellAddr node.addr cells = some (q, y)) :
    ∃ heap cells', lst.dmNodeUpdateGenInfo node = some (true, { lst with heap := heap }) ∧
      { lst with heap := heap }.Holds cells' ∧ cells'.map Prod.fst = cells.map Prod.fst ∧
      (lst.list cells).writeRef node.addr node.updateGenInfo = lst.list cells' ∧
      ∀ r ∉ cells.map Prod.fst, heap.cells r = lst.heap.cells r := by
  rw [NodeLinks.dmNodeUpdateGenInfo, h.getNodeReferenceByAddress, hfound]
  obtain ⟨pre, post, rfl, hpre, (hy : y.addr = node.addr)⟩ := Keyed.exists_of_lookup hfound
  have ho := h.linked.opened h.nodup
  simp only [Option.bind_eq_bind, Option.map_some, Option.bind_some, ho.cell]
  have hwrite := ho.write ⟨node.updateGenInfo y, first post none, last none pre⟩
  refine ⟨_, pre ++ (q, node.updateGenInfo y) :: post, rfl, ?_, by simp, ?_, ?_⟩
  · exact
      { head_eq := by rw [h.head_eq, first_append, first_append, first_cons, first_cons]
        tail_eq := fun _ => by
          rw [h.tail_eq (by simp), last_append, last_append, last_cons, last_cons]
        linked := hwrite.linked
        nodup := hwrite.nodup_linked _ }
  · rw [MngtNodeList.writeRef, NodeLinks.list, NodeLinks.list, List.map_append, List.map_cons,
      Keyed.update_place _ (by simpa using fun y a hy => hpre (a, y) hy) hy, List.map_append,
      List.map_cons]
  · exact fun r hr => hwrite.frame r (by simpa using hr)

/-- What `pushNode` leaves: the cells of the list, with the node among them if it is new, and the
rest of memory but for the node. -/
structure Pushed (lst lst' : NodeLinks) (p : ℕ) (x : MngtNode) (cells cells' : List (ℕ × MngtNode))
    (isNew : Bool) : Prop where
  holds : lst'.Holds cells'
  list_eq : LoRaGwSv.pushNode (lst.list cells) x = (isNew, lst'.list cells')
  addresses : (cells'.map Prod.fst).Perm
    (if isNew then p :: cells.map Prod.fst else cells.map Prod.fst)
  frame : ∀ q ∉ p :: cells.map Prod.fst, lst'.heap.cells q = lst.heap.cells q

/-- **`pushNode` on the links is `pushNode` on the list.** -/
theorem Holds.pushNode (h : lst.Holds cells) (hc : lst.heap.cells p = some c)
    (hp : p ∉ cells.map Prod.fst) :
    ∃ isNew lst' cells', lst.pushNode p = some (isNew, lst') ∧
      lst.Pushed lst' p c.val cells cells' isNew := by
  rw [NodeLinks.pushNode, hc]
  simp only [Option.bind_eq_bind, Option.bind_some]
  rw [isNodeExisted, h.getNodeReferenceByAddress, Option.map_some, Option.bind_some]
  have hsearch := getNodeReferenceByAddress_list lst cells c.val.addr
  cases hfound : Keyed.lookup cellAddr c.val.addr cells with
  | some y =>
    -- the node that is there takes over what is new, and the other one is freed
    obtain ⟨heap, cells', e, hholds, haddr, hlist, hframe⟩ := h.dmNodeUpdateGenInfo hfound
    rw [if_pos (by simp), e, Option.bind_some]
    rw [hfound, Option.map_some] at hsearch
    refine ⟨false, _, cells', rfl, ?_⟩
    exact
      { holds := hholds.congr fun q hq => cells_free_of_ne fun heq => hp (haddr ▸ heq ▸ hq)
        list_eq := by
          rw [LoRaGwSv.pushNode, LoRaGwSv.isNodeExisted, hsearch, Option.isSome_some, if_pos rfl,
            dmNodeUpdateGenInfo_snd hsearch, hlist]
          rfl
        addresses := List.Perm.of_eq haddr
        frame := fun q hq => by
          obtain ⟨hqp, hqcells⟩ := not_or.mp (mt List.mem_cons.mpr hq)
          exact (cells_free_of_ne hqp).trans (hframe q hqcells) }
  | none =>
    obtain ⟨lst', pre, post, e, hins, rfl, hplaced⟩ := h.place hc hp
    rw [if_neg (by simp), e, Option.bind_some]
    rw [hfound, Option.map_none] at hsearch
    have hnodes : (if (lst.list (pre ++ post)).sort then
        (lst.list (pre ++ post)).nodes.orderedInsert MngtNode.DemandsMore c.val
        else (lst.list (pre ++ post)).nodes ++ [c.val])
      = (pre ++ (p, c.val) :: post).map Prod.snd := by
      rw [List.map_append, List.map_cons]
      exact hins
    refine ⟨true, _, pre ++ (p, c.val) :: post, rfl, ?_⟩
    exact
      { holds := ⟨hplaced.holds.head_eq, hplaced.holds.tail_eq, hplaced.holds.linked,
          hplaced.holds.nodup⟩
        list_eq := by
          rw [LoRaGwSv.pushNode, LoRaGwSv.isNodeExisted, hsearch, Option.isSome_none,
            if_neg Bool.false_ne_true, hnodes]
          simp only [NodeLinks.list, hplaced.size_eq, hplaced.nboSchReq_eq, hplaced.sort_eq]
        addresses := by simp
        frame := fun q hq => hplaced.frame q (by simpa [or_left_comm] using hq) }

/-! ## Taking a node out

The neighbours are linked to each other, and the node is left without links. -/

/-- The head of a list without one of its cells. -/
theorem first_without (hnodup : (pre.map Prod.fst ++ p :: post.map Prod.fst).Nodup) :
    (if some p = first (pre ++ (p, x) :: post) none then first post none
      else first (pre ++ (p, x) :: post) none) = first (pre ++ post) none := by
  rw [first_append, first_append, first_cons]
  by_cases hnil : pre = []
  · subst hnil
    exact if_pos rfl
  · have hne : some p ≠ first pre none := fun heq =>
      (List.nodup_append.mp hnodup).2.2 p (mem_of_first heq.symm) p (by simp) rfl
    rw [first_of_ne_nil hnil]
    exact (if_neg hne).trans (first_of_ne_nil hnil).symm

/-- The tail of a list without one of its cells. -/
theorem last_without (hnodup : (pre.map Prod.fst ++ p :: post.map Prod.fst).Nodup) :
    (if some p = last none (pre ++ (p, x) :: post) then last none pre
      else last none (pre ++ (p, x) :: post)) = last none (pre ++ post) := by
  rw [last_append, last_append, last_cons]
  by_cases hnil : post = []
  · subst hnil
    exact if_pos rfl
  · have hpost := (List.nodup_cons.mp (List.nodup_middle.mp hnodup)).1
    have hne : some p ≠ last none post := fun heq =>
      hpost (List.mem_append_right _ (mem_of_last heq.symm))
    rw [last_of_ne_nil hnil]
    exact (if_neg hne).trans (last_of_ne_nil hnil).symm

/-- Once the lists before and behind are linked to each other, the node is released. -/
theorem unlinked_of_opened {head tail : Pointer}
    (ho : Opened lst.heap heap pre (first post none) p c (last none pre) post) (hx : c.val = x)
    (hhead : head = first (pre ++ post) none)
    (htail : pre ++ post ≠ [] → tail = last none (pre ++ post)) :
    ∃ lst', { lst with head := head, tail := tail, heap := heap }.release p x = some lst' ∧
      lst.Unlinked lst' p x pre post := by
  obtain ⟨h₁, e₁, o₁⟩ := ho.setNext_cell none
  obtain ⟨h₂, e₂, o₂⟩ := o₁.setPrev_cell none
  simp only [release, Option.bind_eq_bind, e₁, e₂, Option.bind_some]
  refine ⟨_, rfl, ?_⟩
  exact
    { holds := ⟨hhead, htail, o₂.unlinked, o₂.nodup_unlinked⟩
      cell := by rw [o₂.cell, hx]
      frame := o₂.frame
      list_eq := rfl }

/-- **`popHeadNode` takes the first node.** -/
theorem Holds.popHeadNode (h : lst.Holds ((p, x) :: cells)) :
    ∃ lst', lst.popHeadNode = some (some p, lst') ∧ lst.Unlinked lst' p x [] cells := by
  have h' : lst.Holds ([] ++ (p, x) :: cells) := h
  have ho := h'.linked.opened h'.nodup
  obtain ⟨h₁, e₁, o₁⟩ := ho.setPrevIf_behind none
  rw [NodeLinks.popHeadNode, h.head_eq, first_cons]
  simp only [Option.bind_eq_bind, ho.cell, Option.bind_some, e₁]
  obtain ⟨lst', e, hunlinked⟩ : ∃ lst',
      { lst with head := first cells none, heap := h₁ }.release p x = some lst' ∧
        lst.Unlinked lst' p x [] cells :=
    unlinked_of_opened (o₁.nil_before (first cells none)) rfl rfl
      fun hne => (h.tail_eq (by simp)).trans (last_cons.trans (last_of_ne_nil hne))
  rw [e, Option.bind_some]
  exact ⟨lst', rfl, hunlinked⟩

/-- **`popNodeByAddress` takes the node with the address**, wherever it stands. -/
theorem Holds.popNodeByAddress (h : lst.Holds cells)
    (hfound : Keyed.lookup cellAddr addr cells = some (p, x)) :
    ∃ lst' pre post, lst.popNodeByAddress addr = some (some p, lst') ∧
      cells = pre ++ (p, x) :: post ∧ (∀ y ∈ pre, y.2.addr ≠ addr) ∧
      lst.Unlinked lst' p x pre post := by
  have hsearch := h.getNodeReferenceByAddress addr
  rw [hfound] at hsearch
  obtain ⟨pre, post, rfl, hpre, -⟩ := Keyed.exists_of_lookup hfound
  have ho := h.linked.opened h.nodup
  obtain ⟨h₁, e₁, o₁⟩ := ho.setNextIf_before (first post none)
  obtain ⟨h₂, e₂, o₂⟩ := o₁.setPrevIf_behind (last none pre)
  rw [NodeLinks.popNodeByAddress, hsearch]
  simp only [Option.bind_eq_bind, Option.map_some, Option.bind_some, ho.cell, e₁, e₂]
  have hhead : (if some p = lst.head then first post none else lst.head)
      = first (pre ++ post) none := by
    rw [h.head_eq]
    exact first_without ho.nodup
  have htail : (if some p = lst.tail then last none pre else lst.tail)
      = last none (pre ++ post) := by
    rw [h.tail_eq (by simp)]
    exact last_without ho.nodup
  obtain ⟨lst', e, hunlinked⟩ := unlinked_of_opened o₂ rfl hhead fun _ => htail
  rw [e, Option.bind_some]
  exact ⟨lst', pre, post, rfl, rfl, hpre, hunlinked⟩

end NodeLinks

end LoRaGwSv
