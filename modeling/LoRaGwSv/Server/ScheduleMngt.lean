import LoRaGwSv.Machinery.Keyed

/-!
# Server/ScheduleMngt — the schedule list of one group (`schedule_mngt.c`)

A schedule list is a linked list of `SchNode`s in ascending `startLSI`, with five counters; the
`next` links are the order of `SchList.nodes`.  LSIs are the slots `1, …, nboTotSlots` of a frame.
The fields have the widths of the source, so sums and differences wrap as they do there.  `malloc`
succeeds throughout: where it fails the source refuses the node and leaves the list alone.
-/

namespace LoRaGwSv

/-- One scheduled node (`SchNode_t`). -/
structure SchNode where
  addr : UInt16
  cls : UInt16
  startLSI : UInt16
  slotDemand : UInt16
  /-- How many more times the schedule of this node must be distributed. -/
  nboSchDist : UInt16
deriving DecidableEq, Repr

/-- The schedule of one group (`SchList_t`). -/
structure SchList where
  nodes : List SchNode
  nboNode : UInt32
  nboTotSlots : UInt32
  nboAsgSlots : UInt32
  nboRmnSlots : UInt32
  nboDistReq : UInt32
deriving DecidableEq, Repr

/-- `SchErr_t`. -/
inductive SchErr
  | schSucceeded
  | schFailed
deriving DecidableEq, Repr

/-- `smInitSchedule`. -/
def smInitSchedule (nboTotSlots : UInt32) : SchList where
  nodes := []
  nboNode := 0
  nboTotSlots := nboTotSlots
  nboRmnSlots := 0
  nboAsgSlots := 0
  nboDistReq := 0

/-- The last LSI assigned to a node, in the 16 bits the source computes it in. -/
def SchNode.lastLsi (n : SchNode) : UInt16 := n.startLSI + n.slotDemand - 1

/-- The `while` loop of `smAssignLsiToNode`, at `curNode` with the nodes after it. -/
def smAssignLsiToNodeLoop (nboTotSlots : UInt32) (demandSlot : UInt16) (curNode : SchNode) :
    List SchNode → UInt16
  | [] =>
    if demandSlot.toUInt32 ≤ nboTotSlots - curNode.lastLsi.toUInt32 then curNode.lastLsi + 1 else 0
  | next :: rest =>
    -- both operands are promoted to `int`, so this difference is signed
    if (demandSlot.toNat : ℤ) < (next.startLSI.toNat : ℤ) - curNode.lastLsi.toNat then
      curNode.lastLsi + 1
    else
      smAssignLsiToNodeLoop nboTotSlots demandSlot next rest

/-- The LSI a node of `demandSlot` slots would start at, `0` if none is found. -/
def smAssignLsiToNode (list : SchList) (demandSlot : UInt16) : UInt16 :=
  match list.nodes with
  | [] => 1
  | head :: rest =>
    if demandSlot < head.startLSI then 1
    else smAssignLsiToNodeLoop list.nboTotSlots demandSlot head rest

/-- The place a node is inserted at: before the first node that starts later. -/
abbrev SchNode.StartsBefore (a b : SchNode) : Prop := a.startLSI < b.startLSI

/-- `smAddNodeToScheduleList`: by its start, behind those that start no later. -/
def smAddNodeToScheduleList (list : SchList) (node : SchNode) : SchList :=
  { list with
    nodes := list.nodes.orderedInsert SchNode.StartsBefore node
    nboNode := list.nboNode + 1
    nboAsgSlots := list.nboAsgSlots + node.slotDemand.toUInt32
    nboRmnSlots := list.nboRmnSlots - node.slotDemand.toUInt32
    nboDistReq := list.nboDistReq + 1 }

/-- `smScheduleOneNode`. -/
def smScheduleOneNode (list : SchList) (node : SchNode) : SchErr × SchList :=
  let startLSI := smAssignLsiToNode list node.slotDemand
  if startLSI = 0 then (.schFailed, list)
  else (.schSucceeded, smAddNodeToScheduleList list { node with startLSI := startLSI })

/-- `smRemoveOneNode`. -/
def smRemoveOneNode (list : SchList) (addr : UInt16) : SchList :=
  match Keyed.lookup SchNode.addr addr list.nodes with
  | none => list
  | some curNode =>
    { list with
      nodes := Keyed.erase SchNode.addr addr list.nodes
      nboNode := list.nboNode - 1
      nboRmnSlots := list.nboRmnSlots + curNode.slotDemand.toUInt32
      nboAsgSlots := list.nboAsgSlots - curNode.slotDemand.toUInt32
      nboDistReq := if 0 < curNode.nboSchDist then list.nboDistReq - 1 else list.nboDistReq }

/-- `smClearSchedule`. -/
def smClearSchedule (list : SchList) : SchList :=
  { list with nodes := [], nboNode := 0, nboAsgSlots := 0, nboRmnSlots := 0, nboDistReq := 0 }

/-- `smNodeSetNboSchDist`, with the count of what is still to be distributed. -/
def smNodeSetNboSchDist (list : SchList) (addr : UInt16) (nboSchDist : UInt8) : SchList :=
  match Keyed.lookup SchNode.addr addr list.nodes with
  | none => list
  | some curNode =>
    -- no more schedule update needed
    let nboDistReq :=
      if 0 < curNode.nboSchDist ∧ nboSchDist = 0 then list.nboDistReq - 1 else list.nboDistReq
    -- need to update schedule
    let nboDistReq :=
      if curNode.nboSchDist = 0 ∧ 0 < nboSchDist then nboDistReq + 1 else nboDistReq
    { list with
      nodes := Keyed.update SchNode.addr addr
        (fun n => { n with nboSchDist := nboSchDist.toUInt16 }) list.nodes
      nboDistReq := nboDistReq }

/-- `smGetLastAsgLsi`: the last slot of the last entry. -/
def smGetLastAsgLsi (list : SchList) : UInt16 :=
  match list.nodes.getLast? with
  | none => 0
  | some curNode => curNode.lastLsi

/-! ## What each operation does to the nodes

Of an operation the other modules know what it does to the nodes and to each counter. -/

variable {list : SchList} {node : SchNode} {addr : UInt16}

theorem nodes_smRemoveOneNode (list : SchList) (addr : UInt16) :
    (smRemoveOneNode list addr).nodes = Keyed.erase SchNode.addr addr list.nodes := by
  rw [smRemoveOneNode]
  split
  case h_1 h =>
    rw [Keyed.erase, List.eraseP_of_forall_not]
    intro n hn
    simpa using Keyed.lookup_eq_none.mp h n hn
  case h_2 => rfl

/-- Setting the number rewrites one entry. -/
theorem nodes_smNodeSetNboSchDist (list : SchList) (addr : UInt16) (k : UInt8) :
    (smNodeSetNboSchDist list addr k).nodes = Keyed.update SchNode.addr addr
      (fun n => { n with nboSchDist := k.toUInt16 }) list.nodes := by
  rw [smNodeSetNboSchDist]
  split
  case h_1 h => exact (Keyed.update_eq_self h).symm
  case h_2 => rfl

/-- **What scheduling a node does**: it is refused and nothing changes, or it is inserted at the LSI
assigned to it. -/
theorem smScheduleOneNode_cases (list : SchList) (node : SchNode) :
    (smAssignLsiToNode list node.slotDemand = 0 ∧
      smScheduleOneNode list node = (.schFailed, list)) ∨
    (smAssignLsiToNode list node.slotDemand ≠ 0 ∧
      smScheduleOneNode list node = (.schSucceeded, smAddNodeToScheduleList list
        { node with startLSI := smAssignLsiToNode list node.slotDemand })) := by
  by_cases h : smAssignLsiToNode list node.slotDemand = 0
  · exact Or.inl ⟨h, by simp only [smScheduleOneNode, h, if_true]⟩
  · exact Or.inr ⟨h, by simp only [smScheduleOneNode, h, if_false]⟩

/-! ## The number of slots never changes -/

@[simp] theorem nboTotSlots_smRemoveOneNode :
    (smRemoveOneNode list addr).nboTotSlots = list.nboTotSlots := by
  rw [smRemoveOneNode]
  split <;> rfl

@[simp] theorem nboTotSlots_smNodeSetNboSchDist (k : UInt8) :
    (smNodeSetNboSchDist list addr k).nboTotSlots = list.nboTotSlots := by
  rw [smNodeSetNboSchDist]
  split <;> rfl

end LoRaGwSv
