import LoRaGwSv.Machinery.Chain
import LoRaGwSv.Server.Booking

/-!
# Server/ScheduleLinks — a schedule list and its links (`schedule_mngt.c`)

The entries of a list are cells in memory, each with a link to the next one.  Every call finds its
way along the links, and leaves the list that `Server/ScheduleMngt` has (`Holds.smAssignLsiToNode`,
`Holds.smAddNodeToScheduleList`, `Holds.smRemoveOneNode`).  **Scheduling a node either changes
nothing or can be taken back**: removing the node leaves the memory, the head and every counter as
they were (`scheduleOneNode_reversible`).
-/

namespace LoRaGwSv

open Chain Chain.Store
open Heap (Pointer first last first_append_of_ne_nil first_cons first_nil first_eq_none last_nil
  last_concat last_eq_none)

/-- `SchList_t`, with the memory its entries are in. -/
structure ScheduleLinks where
  head : Pointer
  nboNode : UInt32
  nboTotSlots : UInt32
  nboAsgSlots : UInt32
  nboRmnSlots : UInt32
  nboDistReq : UInt32
  store : Store SchNode

namespace ScheduleLinks

/-- `smInitSchedule`. -/
def smInitSchedule (nboTotSlots : UInt32) (store : Store SchNode) : ScheduleLinks where
  head := none
  nboNode := 0
  nboTotSlots := nboTotSlots
  nboRmnSlots := 0
  nboAsgSlots := 0
  nboDistReq := 0
  store := store

/-- The `while` loop of `smAssignLsiToNode`. -/
def assignLoop (list : ScheduleLinks) (demandSlot : UInt16) : ℕ → Pointer → Option UInt16
  | _, none => some 0
  | 0, some _ => none
  | fuel + 1, some curNode => do
    let cur ← list.store.cells curNode
    match cur.next with
    | none =>
      if demandSlot.toUInt32 ≤ list.nboTotSlots - cur.val.lastLsi.toUInt32 then
        some (cur.val.lastLsi + 1)
      else some 0
    | some next =>
      let nextNode ← list.store.cells next
      if (demandSlot.toNat : ℤ) < (nextNode.val.startLSI.toNat : ℤ) - cur.val.lastLsi.toNat then
        some (cur.val.lastLsi + 1)
      else assignLoop list demandSlot fuel cur.next

/-- `smAssignLsiToNode`, along the links. -/
def smAssignLsiToNode (list : ScheduleLinks) (demandSlot : UInt16) : Option UInt16 :=
  match list.head with
  | none => some 1
  | some curNode => do
    let cur ← list.store.cells curNode
    if demandSlot < cur.val.startLSI then some 1
    else assignLoop list demandSlot list.store.top list.head

/-- The loop of `smAddNodeToScheduleList`. -/
def addLoop (list : ScheduleLinks) (newNode : ℕ) (startLSI : UInt16) :
    ℕ → Pointer → Pointer → Option (Pointer × ScheduleLinks)
  | _, _, none => some (none, { list with store := list.store.free newNode })
  | 0, _, some _ => none
  | fuel + 1, prevNode, some curNode => do
    let cur ← list.store.cells curNode
    if startLSI < cur.val.startLSI then
      if prevNode.isNone then
        -- node will be the list's head
        let store ← list.store.setNext (some newNode) list.head
        some (some newNode, { list with head := some newNode, store := store })
      else
        let store ← list.store.setNext prevNode (some newNode)
        let store ← store.setNext (some newNode) (some curNode)
        some (some newNode, { list with store := store })
    else if cur.next.isNone then
      -- node becomes list's tail
      let store ← list.store.setNext (some curNode) (some newNode)
      let store ← store.setNext (some newNode) none
      some (some newNode, { list with store := store })
    else addLoop list newNode startLSI fuel (some curNode) cur.next

/-- The insertion of a new entry; null where the loop has come to the end, which frees the entry. -/
def place (list : ScheduleLinks) (newNode : ℕ) (startLSI : UInt16) :
    Option (Pointer × ScheduleLinks) :=
  if list.head.isNone then some (some newNode, { list with head := some newNode })
  else addLoop list newNode startLSI list.store.top none list.head

/-- What `smAddNodeToScheduleList` counts when it has succeeded. -/
def count (list : ScheduleLinks) (newNode : SchNode) : ScheduleLinks :=
  { list with
    nboNode := list.nboNode + 1
    nboAsgSlots := list.nboAsgSlots + newNode.slotDemand.toUInt32
    nboRmnSlots := list.nboRmnSlots - newNode.slotDemand.toUInt32
    nboDistReq := list.nboDistReq + 1 }

/-- The new entry, null where `malloc` fails. -/
def smAddNodeToScheduleList (list : ScheduleLinks) (node : SchNode) (proposed : Option ℕ) :
    Option (Pointer × ScheduleLinks) :=
  match list.store.malloc proposed with
  | none => some (none, list)
  | some newNode => do
    let list := { list with store := list.store.write newNode ⟨node, none⟩ }
    let (ret, list) ← list.place newNode node.startLSI
    if ret.isNone then some (none, list) else some (ret, list.count node)

/-- `smScheduleOneNode`; a `malloc` that yields nothing is told as an error. -/
def smScheduleOneNode (list : ScheduleLinks) (node : SchNode) (proposed : Option ℕ) :
    Option (SchErr × ScheduleLinks) := do
  let startLSI ← list.smAssignLsiToNode node.slotDemand
  if startLSI = 0 then some (.schFailed, list)
  else
    let (tmpNode, list) ← list.smAddNodeToScheduleList { node with startLSI := startLSI } proposed
    if tmpNode.isNone then some (.schFailed, list) else some (.schSucceeded, list)

/-- What `smRemoveOneNode` does with the entry it has found. -/
def unlink (list : ScheduleLinks) (prevNode : Pointer) (curNode : ℕ) (cur : Link SchNode) :
    Option ScheduleLinks := do
  let list ←
    if prevNode.isNone then some { list with head := cur.next }
    else do
      let store ← list.store.setNext prevNode cur.next
      let store ← store.setNext (some curNode) none
      some { list with store := store }
  some { list with
    nboNode := list.nboNode - 1
    nboRmnSlots := list.nboRmnSlots + cur.val.slotDemand.toUInt32
    nboAsgSlots := list.nboAsgSlots - cur.val.slotDemand.toUInt32
    nboDistReq := if 0 < cur.val.nboSchDist then list.nboDistReq - 1 else list.nboDistReq
    store := list.store.free curNode }

/-- The loop of `smRemoveOneNode`, with the link before. -/
def removeLoop (list : ScheduleLinks) (addr : UInt16) :
    ℕ → Pointer → Pointer → Option ScheduleLinks
  | _, _, none => some list
  | 0, _, some _ => none
  | fuel + 1, prevNode, some curNode => do
    let cur ← list.store.cells curNode
    if cur.val.addr = addr then list.unlink prevNode curNode cur
    else removeLoop list addr fuel (some curNode) cur.next

/-- `smRemoveOneNode`. -/
def smRemoveOneNode (list : ScheduleLinks) (addr : UInt16) : Option ScheduleLinks :=
  removeLoop list addr list.store.top none list.head

/-- The loop of `smClearSchedule`. -/
def clearLoop : ℕ → ScheduleLinks → Option ScheduleLinks
  | 0, list => if list.head.isNone then some list else none
  | fuel + 1, list =>
    match list.head with
    | none => some list
    | some curNode => do
      let cur ← list.store.cells curNode
      clearLoop fuel { list with head := cur.next, store := list.store.free curNode }

/-- `smClearSchedule`: every cell is given back. -/
def smClearSchedule (list : ScheduleLinks) : Option ScheduleLinks := do
  let list ← clearLoop list.store.top list
  some { list with nboNode := 0, nboAsgSlots := 0, nboRmnSlots := 0, nboDistReq := 0 }

/-- How `smNodeSetNboSchDist` counts the entry it has found. -/
def distReq (list : ScheduleLinks) (curNode : SchNode) (nboSchDist : UInt8) : UInt32 :=
  -- no more schedule update needed
  let nboDistReq :=
    if 0 < curNode.nboSchDist ∧ nboSchDist = 0 then list.nboDistReq - 1 else list.nboDistReq
  -- need to update schedule
  if curNode.nboSchDist = 0 ∧ 0 < nboSchDist then nboDistReq + 1 else nboDistReq

/-- The loop of `smNodeSetNboSchDist`. -/
def setLoop (list : ScheduleLinks) (addr : UInt16) (nboSchDist : UInt8) :
    ℕ → Pointer → Option ScheduleLinks
  | _, none => some list
  | 0, some _ => none
  | fuel + 1, some curNode => do
    let cur ← list.store.cells curNode
    if cur.val.addr = addr then
      some { list with
        nboDistReq := list.distReq cur.val nboSchDist
        store := list.store.write curNode
          { cur with val := { cur.val with nboSchDist := nboSchDist.toUInt16 } } }
    else setLoop list addr nboSchDist fuel cur.next

/-- `smNodeSetNboSchDist`. -/
def smNodeSetNboSchDist (list : ScheduleLinks) (addr : UInt16) (nboSchDist : UInt8) :
    Option ScheduleLinks := setLoop list addr nboSchDist list.store.top list.head

/-! ## What a list holds

The links from `head` on lead through distinct cells to null. -/

/-- The links of the list lead through `cells`. -/
structure Holds (list : ScheduleLinks) (cells : List (ℕ × SchNode)) : Prop where
  head_eq : list.head = first cells none
  chained : Chained list.store cells none
  nodup : (cells.map Prod.fst).Nodup

/-- The list as `Server/ScheduleMngt` has it. -/
def list (list : ScheduleLinks) (cells : List (ℕ × SchNode)) : SchList :=
  ⟨cells.map Prod.snd, list.nboNode, list.nboTotSlots, list.nboAsgSlots, list.nboRmnSlots,
    list.nboDistReq⟩

/-- What a schedule list is searched by, at the cells that hold it. -/
abbrev cellAddr (x : ℕ × SchNode) : UInt16 := x.2.addr

variable {list : ScheduleLinks} {cells pre post : List (ℕ × SchNode)} {p : ℕ} {node x : SchNode}
  {addr demandSlot : UInt16} {store : Store SchNode}

/-- A list has no more cells than the store has addresses. -/
theorem Holds.length_le_top (h : list.Holds cells) : cells.length ≤ list.store.top :=
  h.chained.length_le_top h.nodup

theorem Holds.length_lt_top (h : list.Holds (pre ++ (p, x) :: post)) :
    pre.length < list.store.top := by
  have hle := h.length_le_top
  rw [List.length_append, List.length_cons] at hle
  omega

/-! ## The search for free slots

The loop reads two neighbours at a time and writes nothing. -/

/-- By induction over the list: the loop computes what the list code does. -/
theorem assignLoop_eq {fuel : ℕ} {y : ℕ × SchNode} (hl : Chained list.store (y :: cells) none)
    (hfuel : (y :: cells).length ≤ fuel) :
    list.assignLoop demandSlot fuel (some y.1)
      = some (smAssignLsiToNodeLoop list.nboTotSlots demandSlot y.2 (cells.map Prod.snd)) := by
  induction cells generalizing y fuel with
  | nil =>
    obtain ⟨fuel, rfl⟩ := Nat.exists_eq_add_of_le' (Nat.succ_le_of_lt (Nat.zero_lt_of_lt hfuel))
    rw [assignLoop, hl.1, List.map_nil, smAssignLsiToNodeLoop]
    simp only [Option.bind_eq_bind, Option.bind_some, first_nil]
    split <;> rfl
  | cons z cells ih =>
    obtain ⟨fuel, rfl⟩ := Nat.exists_eq_add_of_le' (Nat.succ_le_of_lt (Nat.zero_lt_of_lt hfuel))
    obtain ⟨hy, hz⟩ := hl
    rw [assignLoop, hy, List.map_cons, smAssignLsiToNodeLoop]
    simp only [Option.bind_eq_bind, Option.bind_some, first_cons, hz.1]
    split
    · rfl
    · exact ih hz (Nat.le_of_succ_le_succ hfuel)

/-- **The LSI found along the links is the one found in the list.** -/
theorem Holds.smAssignLsiToNode (h : list.Holds cells) (demandSlot : UInt16) :
    list.smAssignLsiToNode demandSlot
      = some (LoRaGwSv.smAssignLsiToNode (list.list cells) demandSlot) := by
  rw [ScheduleLinks.smAssignLsiToNode, LoRaGwSv.smAssignLsiToNode, h.head_eq]
  cases cells with
  | nil => rfl
  | cons y cells =>
    simp only [first_cons, ScheduleLinks.list, List.map_cons, h.chained.1, Option.bind_eq_bind,
      Option.bind_some]
    split
    · rfl
    · exact assignLoop_eq h.chained h.length_le_top

/-! ## Adding an entry

The new cell is filled in first and then linked in, before the head or behind a cell of the list. -/

/-- The entry `p` has come into the list, between `pre` and `post`. -/
structure Added (list list' : ScheduleLinks) (p : ℕ) (x : SchNode) (pre post : List (ℕ × SchNode)) :
    Prop where
  holds : list'.Holds (pre ++ (p, x) :: post)
  frame : ∀ q ∉ p :: (pre ++ post).map Prod.fst, list'.store.cells q = list.store.cells q
  fields_eq : list' = { list with head := list'.head, store := list'.store }

/-- A cell from elsewhere keeps the cells distinct. -/
theorem nodup_insert (hnodup : ((pre ++ post).map Prod.fst).Nodup)
    (hp : p ∉ (pre ++ post).map Prod.fst) : ((pre ++ (p, x) :: post).map Prod.fst).Nodup := by
  rw [List.map_append, List.map_cons, List.nodup_middle, ← List.map_append]
  exact List.nodup_cons.mpr ⟨hp, hnodup⟩

/-- Without one of them they are distinct, too, and it is from elsewhere. -/
theorem nodup_remove (hnodup : ((pre ++ (p, x) :: post).map Prod.fst).Nodup) :
    p ∉ (pre ++ post).map Prod.fst ∧ ((pre ++ post).map Prod.fst).Nodup := by
  rw [List.map_append, List.map_cons, List.nodup_middle, ← List.map_append] at hnodup
  exact List.nodup_cons.mp hnodup

theorem Holds.added_head {next : Pointer} (h : list.Holds cells)
    (hc : list.store.cells p = some ⟨node, next⟩) (hp : p ∉ cells.map Prod.fst) :
    ∃ store, list.store.setNext (some p) (first cells none) = some store ∧
      list.Added { list with head := some p, store := store } p node [] cells := by
  have h' : list.Holds ([] ++ cells) := h
  obtain ⟨store, e, hchained, hframe⟩ := h'.chained.insert_head hc hp
  refine ⟨store, e, ?_⟩
  exact
    { holds := ⟨rfl, hchained, nodup_insert h'.nodup hp⟩
      frame := fun r hr => hframe r fun heq => hr (by simp [heq])
      fields_eq := rfl }

theorem Holds.added_behind {next : Pointer} {t : ℕ} (h : list.Holds (pre ++ post))
    (hc : list.store.cells p = some ⟨node, next⟩) (hp : p ∉ (pre ++ post).map Prod.fst)
    (hlast : last none pre = some t) :
    ∃ store store', list.store.setNext (some t) (some p) = some store ∧
      store.setNext (some p) (first post none) = some store' ∧
      list.Added { list with store := store' } p node pre post := by
  obtain ⟨store, store', e, e', hchained, hframe⟩ := h.chained.insert h.nodup hc hp hlast
  have hpre : pre ≠ [] := fun hnil => by simp [hnil] at hlast
  refine ⟨store, store', e, e', ?_⟩
  exact
    { holds :=
        { head_eq := by rw [h.head_eq, first_append_of_ne_nil hpre, first_append_of_ne_nil hpre]
          chained := hchained
          nodup := nodup_insert h.nodup hp }
      frame := hframe
      fields_eq := rfl }

/-- **The loop puts the entry before the first one that starts later**, on from where it stands. -/
theorem Holds.addLoop {next : Pointer} (h : list.Holds (pre ++ post)) (hpost : post ≠ [])
    (hc : list.store.cells p = some ⟨node, next⟩) (hp : p ∉ (pre ++ post).map Prod.fst) {fuel : ℕ}
    (hfuel : post.length ≤ fuel) :
    ∃ list' pre' post', list.addLoop p node.startLSI fuel (last none pre) (first post none)
        = some (some p, list') ∧
      pre.map Prod.snd ++ (post.map Prod.snd).orderedInsert SchNode.StartsBefore node
        = pre'.map Prod.snd ++ node :: post'.map Prod.snd ∧
      pre ++ post = pre' ++ post' ∧ list.Added list' p node pre' post' := by
  induction post generalizing pre fuel with
  | nil => exact absurd rfl hpost
  | cons y post ih =>
    obtain ⟨q, y⟩ := y
    obtain ⟨fuel, rfl⟩ := Nat.exists_eq_add_of_le' (Nat.succ_le_of_lt (Nat.zero_lt_of_lt hfuel))
    have hcur : list.store.cells q = some ⟨y, first post none⟩ := (chained_append.mp h.chained).2.1
    rw [first_cons, ScheduleLinks.addLoop, hcur, List.map_cons, List.orderedInsert_cons]
    simp only [Option.bind_eq_bind, Option.bind_some]
    by_cases hlt : node.startLSI < y.startLSI
    · rw [if_pos hlt, if_pos hlt]
      cases hlast : last none pre with
      | none =>
        -- the entry becomes the head
        obtain rfl := last_eq_none.mp hlast
        rw [List.nil_append] at h hp
        obtain ⟨store, e, hadded⟩ := h.added_head hc hp
        rw [if_pos Option.isNone_none, h.head_eq, e, Option.bind_some]
        exact ⟨_, [], (q, y) :: post, rfl, rfl, rfl, hadded⟩
      | some t =>
        -- the entry goes in between
        obtain ⟨store, store', e, e', hadded⟩ := h.added_behind hc hp hlast
        rw [first_cons] at e'
        rw [if_neg (by simp), e, Option.bind_some, e', Option.bind_some]
        exact ⟨_, pre, (q, y) :: post, rfl, rfl, rfl, hadded⟩
    · rw [if_neg hlt, if_neg hlt]
      have h' : list.Holds ((pre ++ [(q, y)]) ++ post) := by
        rwa [List.append_assoc, List.singleton_append]
      have hp' : p ∉ ((pre ++ [(q, y)]) ++ post).map Prod.fst := by
        rwa [List.append_assoc, List.singleton_append]
      cases post with
      | nil =>
        -- the entry becomes the tail
        obtain ⟨store, store', e, e', hadded⟩ := h'.added_behind hc hp' last_concat
        rw [first_nil] at e'
        rw [first_nil, if_pos Option.isNone_none, e, Option.bind_some, e', Option.bind_some]
        exact ⟨_, pre ++ [(q, y)], [], rfl, by simp, by simp, hadded⟩
      | cons z post =>
        obtain ⟨list', pre', post', e, hins, heq, hadded⟩ := ih h' (List.cons_ne_nil z post) hp'
          (Nat.le_of_succ_le_succ hfuel)
        rw [last_concat] at e
        rw [first_cons, if_neg (by simp)]
        refine ⟨list', pre', post', e, ?_, ?_, hadded⟩
        · rw [← hins, List.map_append, List.append_assoc]
          rfl
        · rw [← heq, List.append_assoc]
          rfl

theorem Holds.place (h : list.Holds cells) (hc : list.store.cells p = some ⟨node, none⟩)
    (hp : p ∉ cells.map Prod.fst) :
    ∃ list' pre post, list.place p node.startLSI = some (some p, list') ∧
      (cells.map Prod.snd).orderedInsert SchNode.StartsBefore node
        = pre.map Prod.snd ++ node :: post.map Prod.snd ∧
      cells = pre ++ post ∧ list.Added list' p node pre post := by
  rw [ScheduleLinks.place]
  by_cases hnil : cells = []
  · subst hnil
    rw [if_pos (by rw [h.head_eq]; rfl)]
    exact ⟨_, [], [], rfl, rfl, rfl,
      ⟨rfl, ⟨hc, trivial⟩, List.nodup_singleton p⟩, fun _ _ => rfl, rfl⟩
  · have hhead : ¬ list.head.isNone = true := by
      rw [h.head_eq, Option.isNone_iff_eq_none, first_eq_none]
      exact hnil
    rw [if_neg hhead, h.head_eq]
    have h' : list.Holds ([] ++ cells) := h
    obtain ⟨list', pre, post, e, hins, heq, hadded⟩ := h'.addLoop hnil hc hp h.length_le_top
    exact ⟨list', pre, post, e, hins, heq, hadded⟩

/-- What `smAddNodeToScheduleList` leaves where `malloc` has found the cell `p`. -/
structure Entered (list list' : ScheduleLinks) (p : ℕ) (node : SchNode)
    (pre post : List (ℕ × SchNode)) : Prop where
  fresh : list.store.cells p = none
  holds : list'.Holds (pre ++ (p, node) :: post)
  frame : ∀ q ∉ p :: (pre ++ post).map Prod.fst, list'.store.cells q = list.store.cells q
  fields_eq : list' = { list.count node with head := list'.head, store := list'.store }
  list_eq : list'.list (pre ++ (p, node) :: post)
    = LoRaGwSv.smAddNodeToScheduleList (list.list (pre ++ post)) node

/-- Where `malloc` fails nothing has changed. -/
theorem smAddNodeToScheduleList_of_null {proposed : Option ℕ}
    (hp : list.store.malloc proposed = none) :
    list.smAddNodeToScheduleList node proposed = some (none, list) := by
  rw [ScheduleLinks.smAddNodeToScheduleList, hp]

/-- **The entry is added where the list has it**, at the cell that `malloc` has found. -/
theorem Holds.smAddNodeToScheduleList {proposed : Option ℕ} (h : list.Holds cells)
    (hp : list.store.malloc proposed = some p) (node : SchNode) :
    ∃ list' pre post, list.smAddNodeToScheduleList node proposed = some (some p, list') ∧
      cells = pre ++ post ∧ list.Entered list' p node pre post := by
  have hfree := cells_malloc hp
  have hpcells : p ∉ cells.map Prod.fst := fun hmem => h.chained.ne_none hmem hfree
  have hwrite : Holds { list with store := list.store.write p ⟨node, none⟩ } cells :=
    ⟨h.head_eq, h.chained.write hpcells, h.nodup⟩
  obtain ⟨list', pre, post, e, hins, rfl, hadded⟩ := hwrite.place cells_write_self hpcells
  rw [ScheduleLinks.smAddNodeToScheduleList, hp]
  simp only [Option.bind_eq_bind]
  rw [e, Option.bind_some, if_neg (by simp)]
  refine ⟨_, pre, post, rfl, rfl, hfree, ⟨hadded.holds.head_eq, hadded.holds.chained,
    hadded.holds.nodup⟩, fun q hq => ?_, ?_, ?_⟩
  · have hne : q ≠ p := fun heq => hq (heq ▸ List.mem_cons_self)
    exact (hadded.frame q hq).trans (cells_write_of_ne hne)
  · rw [hadded.fields_eq]
    rfl
  · rw [hadded.fields_eq, LoRaGwSv.smAddNodeToScheduleList]
    simp only [ScheduleLinks.list, count, List.map_append, List.map_cons] at hins ⊢
    rw [hins]

/-! ## Removing an entry

The link before the entry is led past it, and the cell is given back. -/

/-- What `smRemoveOneNode` leaves where it has found the entry `p`. -/
structure Removed (list list' : ScheduleLinks) (p : ℕ) (x : SchNode)
    (pre post : List (ℕ × SchNode)) : Prop where
  holds : list'.Holds (pre ++ post)
  freed : list'.store.cells p = none
  frame : ∀ q ∉ p :: (pre ++ post).map Prod.fst, list'.store.cells q = list.store.cells q
  fields_eq : list' = { list with
    head := list'.head
    store := list'.store
    nboNode := list.nboNode - 1
    nboRmnSlots := list.nboRmnSlots + x.slotDemand.toUInt32
    nboAsgSlots := list.nboAsgSlots - x.slotDemand.toUInt32
    nboDistReq := if 0 < x.nboSchDist then list.nboDistReq - 1 else list.nboDistReq }

/-- **An entry is taken out of its place**, wherever it is. -/
theorem Holds.unlink (h : list.Holds (pre ++ (p, x) :: post)) :
    ∃ list', list.unlink (last none pre) p ⟨x, first post none⟩ = some list' ∧
      list.Removed list' p x pre post := by
  obtain ⟨hp, hnodup⟩ := nodup_remove h.nodup
  rw [ScheduleLinks.unlink]
  simp only [Option.bind_eq_bind]
  cases hlast : last none pre with
  | none =>
    obtain rfl := last_eq_none.mp hlast
    rw [if_pos Option.isNone_none, Option.bind_some]
    refine ⟨_, rfl, ?_⟩
    exact
      { holds := ⟨rfl, h.chained.2.free hp, hnodup⟩
        freed := cells_free_self
        frame := fun q hq => cells_free_of_ne fun heq => hq (heq ▸ List.mem_cons_self)
        fields_eq := rfl }
  | some q =>
    obtain ⟨m₁, m₂, e₁, e₂, hchained, hframe⟩ := h.chained.remove h.nodup hlast
    have hpre : pre ≠ [] := fun hnil => by simp [hnil] at hlast
    rw [if_neg (by simp), e₁, Option.bind_some, e₂, Option.bind_some, Option.bind_some]
    refine ⟨_, rfl, ?_⟩
    exact
      { holds := ⟨by rw [h.head_eq, first_append_of_ne_nil hpre, first_append_of_ne_nil hpre],
          hchained, hnodup⟩
        freed := cells_free_self
        frame := hframe
        fields_eq := rfl }

/-- The loop goes past the entries with other addresses. -/
theorem Holds.removeLoop {mid : List (ℕ × SchNode)} (h : list.Holds (pre ++ mid ++ (p, x) :: post))
    (hmid : ∀ y ∈ mid, y.2.addr ≠ addr) (hx : x.addr = addr) {fuel : ℕ}
    (hfuel : mid.length < fuel) :
    list.removeLoop addr fuel (last none pre) (first (mid ++ (p, x) :: post) none)
      = list.unlink (last none (pre ++ mid)) p ⟨x, first post none⟩ := by
  obtain ⟨fuel, rfl⟩ := Nat.exists_eq_add_of_le' (Nat.succ_le_of_lt (Nat.zero_lt_of_lt hfuel))
  induction mid generalizing pre fuel with
  | nil =>
    rw [List.append_nil] at h ⊢
    rw [List.nil_append, first_cons, ScheduleLinks.removeLoop, (chained_append.mp h.chained).2.1]
    exact if_pos hx
  | cons y mid ih =>
    obtain ⟨hy, hmid⟩ := List.forall_mem_cons.mp hmid
    obtain ⟨fuel, rfl⟩ := Nat.exists_eq_add_of_le' (Nat.le_of_lt_succ
      (Nat.lt_of_le_of_lt (Nat.succ_le_succ (Nat.zero_le mid.length)) hfuel))
    have h' : list.Holds ((pre ++ [y]) ++ mid ++ (p, x) :: post) := by
      rwa [List.append_assoc pre, List.singleton_append]
    have hcell : list.store.cells y.1 = some ⟨y.2, first (mid ++ (p, x) :: post) none⟩ := by
      have hchained := h.chained
      rw [List.append_assoc] at hchained
      exact (chained_append.mp hchained).2.1
    have hrest := ih h' hmid fuel (Nat.lt_of_succ_lt_succ hfuel)
    rw [last_concat, List.append_assoc pre, List.singleton_append] at hrest
    rw [List.cons_append, first_cons, ScheduleLinks.removeLoop, hcell]
    exact (if_neg hy).trans hrest

/-- **`smRemoveOneNode` takes out the entry it finds.** -/
theorem Holds.smRemoveOneNode (h : list.Holds (pre ++ (p, x) :: post))
    (hpre : ∀ y ∈ pre, y.2.addr ≠ x.addr) :
    ∃ list', list.smRemoveOneNode x.addr = some list' ∧ list.Removed list' p x pre post := by
  have h' : list.Holds ([] ++ pre ++ (p, x) :: post) := h
  have hloop := h'.removeLoop hpre rfl h.length_lt_top
  rw [last_nil] at hloop
  rw [ScheduleLinks.smRemoveOneNode, h.head_eq, hloop]
  exact h.unlink

/-! ## Taking a schedule back -/

/-- What has been entered and is removed again has left no trace. -/
theorem Removed.restores {list' list'' : ScheduleLinks} (hrem : list'.Removed list'' p x pre post)
    (hadd : list.Entered list' p x pre post) (h : list.Holds (pre ++ post))
    (hp : 0 < x.nboSchDist) :
    list'' = { list with store := list''.store } ∧ list''.store.cells = list.store.cells := by
  constructor
  · rw [hrem.fields_eq, hrem.holds.head_eq, ← h.head_eq, hadd.fields_eq, count]
    simp only [if_pos hp, UInt32.add_sub_cancel, UInt32.sub_add_cancel]
  · refine h.chained.cells_eq hrem.holds.chained fun q hq => ?_
    by_cases heq : q = p
    · rw [heq, hrem.freed, hadd.fresh]
    · have hout : q ∉ p :: (pre ++ post).map Prod.fst := fun hmem =>
        (List.mem_cons.mp hmem).elim heq hq
      rw [hrem.frame q hout, hadd.frame q hout]

/-- **Scheduling one node is atomic and reversible.**  A request that is refused has changed
nothing; one that is granted has put an entry of its own between those that were there, and removing
the node leaves everything as it was. -/
theorem scheduleOneNode_reversible (h : list.Holds cells) (hnew : ∀ y ∈ cells, y.2.addr ≠ node.addr)
    (hp : 0 < node.nboSchDist) (proposed : Option ℕ) :
    ∃ err list', list.smScheduleOneNode node proposed = some (err, list') ∧
      (err = .schFailed → list' = list) ∧
      (err = .schSucceeded →
        (∃ p x pre post, cells = pre ++ post ∧ x.addr = node.addr ∧
          list'.Holds (pre ++ (p, x) :: post)) ∧
        ∃ list'', list'.smRemoveOneNode node.addr = some list'' ∧
          list'' = { list with store := list''.store } ∧
          list''.store.cells = list.store.cells) := by
  rw [ScheduleLinks.smScheduleOneNode, h.smAssignLsiToNode]
  simp only [Option.bind_eq_bind, Option.bind_some]
  generalize LoRaGwSv.smAssignLsiToNode (list.list cells) node.slotDemand = startLSI
  by_cases hlsi : startLSI = 0
  · rw [if_pos hlsi]
    exact ⟨.schFailed, list, rfl, fun _ => rfl, fun herr => absurd herr (by simp)⟩
  · rw [if_neg hlsi]
    cases hmalloc : list.store.malloc proposed with
    | none =>
      rw [smAddNodeToScheduleList_of_null hmalloc, Option.bind_some, if_pos Option.isNone_none]
      exact ⟨.schFailed, list, rfl, fun _ => rfl, fun herr => absurd herr (by simp)⟩
    | some p =>
      obtain ⟨list', pre, post, e, rfl, hadd⟩ := h.smAddNodeToScheduleList hmalloc
        { node with startLSI := startLSI }
      rw [e, Option.bind_some, if_neg (by simp)]
      refine ⟨.schSucceeded, list', rfl, fun herr => absurd herr (by simp), fun _ => ⟨?_, ?_⟩⟩
      · exact ⟨p, { node with startLSI := startLSI }, pre, post, rfl, rfl, hadd.holds⟩
      · obtain ⟨list'', e', hrem⟩ := hadd.holds.smRemoveOneNode fun y hy =>
          hnew y (List.mem_append_left post hy)
        exact ⟨list'', e', hrem.restores hadd h hp⟩

/-- Two entries with a hole of two slots between them. -/
def twoEntries : ScheduleLinks where
  head := some 0
  nboNode := 2
  nboTotSlots := 8
  nboAsgSlots := 4
  nboRmnSlots := 4294967292
  nboDistReq := 2
  store := (Store.empty.write 0 ⟨⟨1, 0, 1, 2, 1⟩, some 1⟩).write 1 ⟨⟨2, 0, 5, 2, 1⟩, none⟩

theorem holds_twoEntries :
    twoEntries.Holds [(0, ⟨1, 0, 1, 2, 1⟩), (1, ⟨2, 0, 5, 2, 1⟩)] :=
  ⟨rfl, ⟨rfl, rfl, trivial⟩, by decide⟩

/-- A third one goes in between. -/
theorem scheduleOneNode_reversible_two :
    ∃ err list', twoEntries.smScheduleOneNode ⟨3, 0, 0, 2, 1⟩ (some 7) = some (err, list') ∧
      (err = .schFailed → list' = twoEntries) ∧
      (err = .schSucceeded →
        (∃ p x pre post, [(0, ⟨1, 0, 1, 2, 1⟩), (1, ⟨2, 0, 5, 2, 1⟩)] = pre ++ post ∧
          x.addr = 3 ∧ list'.Holds (pre ++ (p, x) :: post)) ∧
        ∃ list'', list'.smRemoveOneNode 3 = some list'' ∧
          list'' = { twoEntries with store := list''.store } ∧
          list''.store.cells = twoEntries.store.cells) :=
  scheduleOneNode_reversible holds_twoEntries (by decide) (by decide) (some 7)

end ScheduleLinks

end LoRaGwSv
