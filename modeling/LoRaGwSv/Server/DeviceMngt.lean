import LoRaGwSv.Machinery.Keyed
import LoRaGwSv.Machinery.Table

/-!
# Server/DeviceMngt — the list of end nodes (`device_mngt.c`)

Nodes live in a doubly linked list searched by address; the links are the order of
`MngtNodeList.nodes`.  A relay keeps a table of its children (`Child`), where address `0` marks an
empty cell.  A function that follows a pointer the source does not test returns `none` where that
pointer is `NULL`.
-/

namespace LoRaGwSv

/-- `TWOHOP_MAX_NBO_CHILDREN`. -/
abbrev twohopMaxNboChildren : ℕ := 2

/-- `NodeType_e`. -/
inductive NodeType
  | onehop
  | twohop
deriving DecidableEq, Repr

/-- One cell of a child table (`Child_t`). -/
structure Child where
  addr : UInt16
  cls : UInt8
  slotDemand : UInt8
deriving DecidableEq, Repr

/-- `NodeGenInfo_t`. -/
structure NodeGenInfo where
  addr : UInt16
  cls : UInt8
  slotDmn : UInt8
  type : NodeType
deriving DecidableEq, Repr

/-- One end node (`MngtNode_t`), its list links left out. -/
structure MngtNode where
  genInfo : NodeGenInfo
  isConnected : Bool
  /-- The node has been scheduled. -/
  schFlag : Bool
  /-- Only for a two-hop node. -/
  parrentAddr : UInt16
  /-- Only for a relay node. -/
  nboChildren : UInt8
  children : Vector Child twohopMaxNboChildren
  dataMissCount : UInt16
  latestSeqNo : UInt16
  dataCount : UInt16
  dataCountMainLink : UInt16
  dataCountDirectLink : UInt16
  prevSeqNo : UInt16
deriving DecidableEq, Repr

/-- A list of end nodes (`MngtNodeList_t`); with `sort` it is kept by decreasing slot demand. -/
structure MngtNodeList where
  nodes : List MngtNode
  size : UInt32
  nboSchReq : UInt32
  sort : Bool
deriving DecidableEq, Repr

/-- The key a list is searched by. -/
abbrev MngtNode.addr (n : MngtNode) : UInt16 := n.genInfo.addr

/-- The children table `memset` leaves. -/
def noChildren : Vector Child twohopMaxNboChildren := Vector.replicate _ ⟨0, 0, 0⟩

/-- `initNodeList`. -/
def initNodeList (sort : Bool) : MngtNodeList where
  nodes := []
  size := 0
  nboSchReq := 0
  sort := sort

/-- `createNewNode`. -/
def createNewNode (genInfo : NodeGenInfo) (parrent : UInt16) : MngtNode where
  genInfo := genInfo
  isConnected := false
  schFlag := false
  parrentAddr := parrent
  nboChildren := 0
  children := noChildren
  dataMissCount := 0
  latestSeqNo := 0
  dataCount := 0
  dataCountMainLink := 0
  dataCountDirectLink := 0
  prevSeqNo := 0

/-! ## Searching, and writing through a reference -/

/-- `getNodeReferenceByAddress`: the first node with the address. -/
def getNodeReferenceByAddress (lst : MngtNodeList) (addr : UInt16) : Option MngtNode :=
  Keyed.lookup MngtNode.addr addr lst.nodes

/-- Write through the reference `getNodeReferenceByAddress` returns. -/
def MngtNodeList.writeRef (lst : MngtNodeList) (addr : UInt16) (f : MngtNode → MngtNode) :
    MngtNodeList := { lst with nodes := Keyed.update MngtNode.addr addr f lst.nodes }

/-- `isNodeExisted`. -/
def isNodeExisted (lst : MngtNodeList) (addr : UInt16) : Bool :=
  (getNodeReferenceByAddress lst addr).isSome

/-- The fields `dmNodeUpdateGenInfo` copies; the data statistics stay. -/
def MngtNode.updateGenInfo (node tmpNode : MngtNode) : MngtNode :=
  { tmpNode with
    genInfo := node.genInfo
    schFlag := node.schFlag
    parrentAddr := node.parrentAddr
    nboChildren := node.nboChildren
    isConnected := node.isConnected
    children := node.children }

/-- `dmNodeUpdateGenInfo`; an address that is not known changes nothing. -/
def dmNodeUpdateGenInfo (lst : MngtNodeList) (node : MngtNode) : Bool × MngtNodeList :=
  match getNodeReferenceByAddress lst node.addr with
  | none => (false, lst)
  | some _ => (true, lst.writeRef node.addr node.updateGenInfo)

/-! ## Pushing and popping -/

/-- A sorted list takes a node in before the first one that demands fewer slots. -/
abbrev MngtNode.DemandsMore (a b : MngtNode) : Prop := b.genInfo.slotDmn < a.genInfo.slotDmn

/-- `true` when the node is new, `false` when an old one is updated. -/
def pushNode (lst : MngtNodeList) (node : MngtNode) : Bool × MngtNodeList :=
  if isNodeExisted lst node.addr then (false, (dmNodeUpdateGenInfo lst node).2)
  else
    (true,
      { lst with
        nodes :=
          if lst.sort then lst.nodes.orderedInsert MngtNode.DemandsMore node
          else lst.nodes ++ [node]
        nboSchReq := if node.schFlag = false then lst.nboSchReq + 1 else lst.nboSchReq
        size := lst.size + 1 })

/-- What both pops do to the counters. -/
def MngtNodeList.unlink (lst : MngtNodeList) (retNode : MngtNode) (nodes : List MngtNode) :
    MngtNodeList :=
  { lst with
    nodes := nodes
    size := lst.size - 1
    nboSchReq := if retNode.schFlag = false then lst.nboSchReq - 1 else lst.nboSchReq }

/-- `popHeadNode`. -/
def popHeadNode (lst : MngtNodeList) : Option MngtNode × MngtNodeList :=
  match lst.nodes with
  | [] => (none, lst)
  | retNode :: rest => (some retNode, lst.unlink retNode rest)

/-- `popNodeByAddress`. -/
def popNodeByAddress (lst : MngtNodeList) (addr : UInt16) : Option MngtNode × MngtNodeList :=
  match getNodeReferenceByAddress lst addr with
  | none => (none, lst)
  | some retNode =>
    (some retNode, lst.unlink retNode (Keyed.erase MngtNode.addr addr lst.nodes))

/-! ## Data statistics -/

/-- `TWOHOP_MAX_MISS_DATA_ALLOWED`. -/
def twohopMaxMissDataAllowed : UInt16 := 65535

/-- A lower sequence number than the latest starts the statistics anew, an equal one is a
duplicate. -/
def MngtNode.takeSeqNo (curNode : MngtNode) (seq : UInt16) : MngtNode :=
  if curNode.latestSeqNo < seq then
    { curNode with dataCount := curNode.dataCount + 1, latestSeqNo := seq, dataMissCount := 0 }
  else if seq < curNode.latestSeqNo then
    { curNode with
      dataCount := 1
      dataCountMainLink := 0
      dataCountDirectLink := 0
      latestSeqNo := seq
      dataMissCount := 0
      prevSeqNo := seq - 1 }
  else curNode

/-- Whether the data came over the main link or the direct one. -/
def MngtNode.countLink (curNode : MngtNode) (isDataRelay : Bool) : MngtNode :=
  match curNode.genInfo.type, isDataRelay with
  | .onehop, false =>
    { curNode with
      dataCountMainLink := curNode.dataCountMainLink + 1
      dataCountDirectLink := curNode.dataCountDirectLink + 1 }
  | .onehop, true => curNode
  | .twohop, true => { curNode with dataCountMainLink := curNode.dataCountMainLink + 1 }
  | .twohop, false => { curNode with dataCountDirectLink := curNode.dataCountDirectLink + 1 }

/-- What a data frame changes of its node. -/
def MngtNode.updateDataInfo (curNode : MngtNode) (seq : UInt16) (isDataRelay : Bool) : MngtNode :=
  (curNode.takeSeqNo seq).countLink isDataRelay

/-- `dmNodeUpdateDataInfo`; an address that is not known changes nothing. -/
def dmNodeUpdateDataInfo (lst : MngtNodeList) (addr seq : UInt16) (isDataRelay : Bool) :
    MngtNodeList := lst.writeRef addr fun curNode => curNode.updateDataInfo seq isDataRelay

/-- The `else` belongs to the inner test: it is the count that has reached its limit that starts
anew. -/
def MngtNode.checkDataMissed (curNode : MngtNode) : MngtNode :=
  if curNode.isConnected then
    { curNode with
      dataMissCount :=
        if curNode.prevSeqNo = curNode.latestSeqNo then
          if curNode.dataMissCount < twohopMaxMissDataAllowed then curNode.dataMissCount + 1 else 0
        else curNode.dataMissCount
      prevSeqNo := curNode.latestSeqNo }
  else curNode

/-- The loop of `checkDataMissed` over NODES. -/
def dmCheckDataMissed (lst : MngtNodeList) : MngtNodeList :=
  { lst with nodes := lst.nodes.map MngtNode.checkDataMissed }

/-! ## Relays and their children -/

/-- `dmIsRelayNode`: a node that has children. -/
def dmIsRelayNode (lst : MngtNodeList) (addr : UInt16) : Bool :=
  match getNodeReferenceByAddress lst addr with
  | none => false
  | some curNode => 0 < curNode.nboChildren

/-- Counted in 16 bits, returned in 8. -/
def dmGetNboRelays (lst : MngtNodeList) : UInt8 :=
  (UInt16.ofNat (lst.nodes.countP fun n => 0 < n.nboChildren)).toUInt8

/-- `dmNodeGetChildList`; `none` for an address that is not known. -/
def dmNodeGetChildList (lst : MngtNodeList) (addr : UInt16) :
    Option (Vector Child twohopMaxNboChildren × UInt8) :=
  (getNodeReferenceByAddress lst addr).map fun curNode => (curNode.children, curNode.nboChildren)

/-- The loop of `dmSetChildConnStatus` over the cells left, with `nboChild` children to go. -/
def dmSetChildConnStatusLoop (status : Bool) :
    List Child → UInt8 → MngtNodeList → Option MngtNodeList
  | [], _, lst => some lst
  | c :: cells, nboChild, lst =>
    if c.addr ≠ 0 then
      match getNodeReferenceByAddress lst c.addr with
      | none => none
      | some _ =>
        let lst := lst.writeRef c.addr fun child => { child with isConnected := status }
        if nboChild - 1 = 0 then some lst
        else dmSetChildConnStatusLoop status cells (nboChild - 1) lst
    else if nboChild = 0 then some lst
    else dmSetChildConnStatusLoop status cells nboChild lst

/-- `dmSetChildConnStatus`. -/
def dmSetChildConnStatus (lst : MngtNodeList) (node : MngtNode) (status : Bool) :
    Option MngtNodeList :=
  dmSetChildConnStatusLoop status node.children.toList node.nboChildren lst

/-- `dmSetSchFlagAll`. -/
def dmSetSchFlagAll (lst : MngtNodeList) (val : Bool) : MngtNodeList :=
  { lst with nodes := lst.nodes.map fun n => { n with schFlag := val } }

/-- The macro `POW2`. -/
def pow2 (n : UInt8) : ℕ := 1 <<< n.toNat

/-- `dmRemoveChildOfNode`: all cells are cleared, and the demand is that of the node alone. -/
def dmRemoveChildOfNode (destNode : MngtNode) : MngtNode :=
  { destNode with
    children := noChildren
    genInfo := { destNode.genInfo with slotDmn := UInt8.ofNat (pow2 destNode.genInfo.cls) }
    nboChildren := 0 }

/-- What a child table records of a child. -/
def MngtNode.asChild (child : MngtNode) : Child :=
  ⟨child.addr, child.genInfo.cls, child.genInfo.slotDmn⟩

/-- Add `d` to the slot demand of a node and write a cell of its table. -/
def MngtNode.putChild (parent : MngtNode) (i : Fin twohopMaxNboChildren) (slotDmn : UInt8)
    (child : MngtNode) : MngtNode :=
  { parent with
    genInfo := { parent.genInfo with slotDmn := slotDmn + child.genInfo.slotDmn * 2 }
    children := parent.children.set i child.asChild }

/-- The parent with the child in its table; `none` where the source returns false. -/
def dmAddChildToNode (parent child : MngtNode) : Option MngtNode :=
  match Table.firstIdx (fun c => c.addr = child.addr) parent.children with
  | some i =>
    -- the child is there already, its old demand is taken back first
    some (parent.putChild i (parent.genInfo.slotDmn - parent.children[i].slotDemand * 2) child)
  | none =>
    match Table.firstIdx (fun c => c.addr = 0) parent.children with
    | some i =>
      some { parent.putChild i parent.genInfo.slotDmn child with
        nboChildren := parent.nboChildren + 1 }
    | none => none

variable {parent parent' child : MngtNode}

/-- **Taking a child in writes one cell of the table**, the one that has its address or else an
empty one, and adds its demand to what the parent demanded without that cell. -/
theorem dmAddChildToNode_some (h : dmAddChildToNode parent child = some parent') :
    ∃ i : Fin twohopMaxNboChildren,
      (parent.children[i].addr = child.addr ∧ parent' =
        parent.putChild i (parent.genInfo.slotDmn - parent.children[i].slotDemand * 2) child) ∨
      (parent.children[i].addr = 0 ∧ (∀ c ∈ parent.children, c.addr ≠ child.addr) ∧ parent' =
        { parent.putChild i parent.genInfo.slotDmn child with
          nboChildren := parent.nboChildren + 1 }) := by
  rw [dmAddChildToNode] at h
  split at h
  case h_1 i hi =>
    exact ⟨i, Or.inl ⟨by simpa using Table.firstIdx_some hi, (Option.some.inj h).symm⟩⟩
  case h_2 hnone =>
    split at h
    case h_2 => exact absurd h (by simp)
    case h_1 i hi =>
      refine ⟨i, Or.inr ⟨by simpa using Table.firstIdx_some hi, fun c hc => ?_,
        (Option.some.inj h).symm⟩⟩
      obtain ⟨j, rfl⟩ := Table.mem_iff_getElem.mp hc
      simpa using Table.firstIdx_none.mp hnone j

end LoRaGwSv
