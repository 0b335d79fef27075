import LoRaGwSv.Server.Booking

/-!
# Server/ChildRefs — the addresses in child tables

`dmSetChildConnStatus` follows the addresses of a child table into NODES without a test, and counts
the children it has left to visit down from `nboChildren`.  Both are safe because in every state a
child table is in order (`ChildrenResolve`).  The calls of an operation are listed by
`MacOp.connStatusCalls`, each with the list and the node it is made on; they are the ones the
functions make (`addOnehopNode_eq`, `run_markCall`).
-/

namespace LoRaGwSv

/-- **Child tables are in order**: each address in one is that of an entry of NODES, and
`nboChildren` says how many there are. -/
structure ChildrenResolve (nodes : List MngtNode) : Prop where
  resolve : ∀ n ∈ nodes, ∀ c ∈ n.children, c.addr ≠ 0 → ∃ d ∈ nodes, d.addr = c.addr
  nboChildren : ∀ n ∈ nodes, n.nboChildren.toNat = n.children.toList.countP (fun c => c.addr ≠ 0)
  nboChildren_le : ∀ n ∈ nodes, n.nboChildren.toNat ≤ twohopMaxNboChildren

/-- A call of `dmSetChildConnStatus`. -/
structure ConnStatusCall where
  lst : MngtNodeList
  node : MngtNode
  status : Bool
deriving DecidableEq, Repr

/-- What the call does. -/
def ConnStatusCall.run (c : ConnStatusCall) : Option MngtNodeList :=
  dmSetChildConnStatus c.lst c.node c.status

/-- Each turn of the loop of `dmSetChildConnStatus` that looks a child up finds it, and has a child
left to count down. -/
def SafeTurns (status : Bool) : List Child → UInt8 → MngtNodeList → Prop
  | [], _, _ => True
  | c :: cells, nboChild, lst =>
    if c.addr ≠ 0 then
      (getNodeReferenceByAddress lst c.addr).isSome ∧ 0 < nboChild ∧
        (nboChild - 1 ≠ 0 → SafeTurns status cells (nboChild - 1)
          (lst.writeRef c.addr fun child => { child with isConnected := status }))
    else nboChild ≠ 0 → SafeTurns status cells nboChild lst

/-- It finds every child that it looks for, and does not count below zero. -/
def ConnStatusCall.Safe (c : ConnStatusCall) : Prop :=
  SafeTurns c.status c.node.children.toList c.node.nboChildren c.lst

/-! ## The calls of an operation

The calls are listed beside the operation, with the list they are made on, so that each can be said
to be safe. -/

/-- The call `addOnehopNode` makes for a node that is there already. -/
def onehopCalls (lst : MngtNodeList) (node : MngtNode) : List ConnStatusCall :=
  match getNodeReferenceByAddress lst node.addr with
  | none => []
  | some temp => [⟨lst, temp, false⟩]

/-- The call `markScheduled` makes. -/
def markCall (lst : MngtNodeList) (i : ℕ) (mngtNode : MngtNode) : ConnStatusCall :=
  ⟨lst.markAt i, mngtNode, true⟩

/-- The call of one turn of the loop of `schedule`. -/
def scheduleStepCalls (phase : OperationPhase) (s : Mac) (i : ℕ) : List ConnStatusCall :=
  match s.NODES.nodes[i]? with
  | none => []
  | some mngtNode =>
    if mngtNode.genInfo.type = .onehop ∧ mngtNode.schFlag = false then
      let (schCheck, s) := scheduleOneNode s phase mngtNode
      if schCheck = .schSucceeded then [markCall s.NODES i mngtNode] else []
    else []

/-- The calls of the loop of `schedule`, turn by turn. -/
def scheduleLoopCalls (phase : OperationPhase) : ℕ → ℕ → Mac → List ConnStatusCall
  | 0, _, _ => []
  | n + 1, i, s => scheduleStepCalls phase s i ++
    ((scheduleStep phase s i).map (scheduleLoopCalls phase n (i + 1))).getD []

/-- All calls of `dmSetChildConnStatus` an operation makes, in order. -/
def MacOp.connStatusCalls (s : Mac) : MacOp → List ConnStatusCall
  | .register r =>
    match r.node.genInfo.type with
    | .onehop => onehopCalls s.NODES r.node
    | .twohop => []
  | .schedule phase => scheduleLoopCalls phase s.NODES.nodes.length 0 s
  | .reset => []

/-- The registration of a one-hop node makes the calls that are listed for it. -/
theorem addOnehopNode_eq (lst : MngtNodeList) (node : MngtNode) :
    addOnehopNode lst node = match onehopCalls lst node with
      | [] => some (pushNode lst node).2
      | call :: _ => call.run.map fun lst =>
        (pushNode (lst.writeRef node.addr dmRemoveChildOfNode) node).2 := by
  rw [addOnehopNode, onehopCalls]
  cases getNodeReferenceByAddress lst node.addr <;> rfl

/-- So does the search for a schedule where it marks a node as scheduled. -/
theorem run_markCall (lst : MngtNodeList) (i : ℕ) (mngtNode : MngtNode) :
    (markCall lst i mngtNode).run = markScheduled lst i mngtNode := rfl

/-! ## Each call is safe

The cells with an address are as many as the node counts, and each address is registered. -/

variable {lst : MngtNodeList} {n : MngtNode} {s : Mac} {p : MacParams}

/-- The cells that are taken are those with an address. -/
theorem MngtNode.takenCells_eq_countP (n : MngtNode) :
    n.takenCells = n.children.toList.countP (fun c => c.addr ≠ 0) := by
  rw [takenCells, Table.total_eq_sum]
  induction n.children.toList with
  | nil => rfl
  | cons c cells ih =>
    rw [List.map_cons, List.sum_cons, ih, List.countP_cons, Nat.add_comm]
    simp only [decide_eq_true_eq, ne_eq, ite_not]

/-- By induction over the cells: with as many children to go as there are addresses left, each turn
is safe. -/
theorem safeTurns (status : Bool) {cells : List Child} {nboChild : UInt8}
    (hcells : ∀ c ∈ cells, c.addr ≠ 0 → (lst.registry c.addr).isSome)
    (hnbo : nboChild.toNat = cells.countP fun c => c.addr ≠ 0) :
    SafeTurns status cells nboChild lst := by
  induction cells generalizing nboChild lst with
  | nil => trivial
  | cons c cells ih =>
    rw [SafeTurns]
    split
    case isTrue hc =>
      rw [List.countP_cons_of_pos (by simpa using hc)] at hnbo
      have hsome := hcells c (by simp) hc
      rw [registry_eq, Option.isSome_map] at hsome
      refine ⟨hsome, UInt8.lt_iff_toNat_lt.mpr (by rw [hnbo]; exact Nat.succ_pos _), fun _ => ?_⟩
      refine ih (fun d hd hd0 => ?_) ?_
      · have hprof := @profiles_writeRef lst c.addr
          (fun child => { child with isConnected := status }) fun _ => rfl
        rw [MngtNodeList.registry, hprof]
        exact hcells d (List.mem_cons_of_mem _ hd) hd0
      · have := nboChild.toNat_lt
        rw [UInt8.toNat_sub, hnbo, UInt8.toNat_one]
        omega
    case isFalse hc =>
      rw [List.countP_cons_of_neg (by simpa using hc)] at hnbo
      exact fun _ => ih (fun d hd => hcells d (List.mem_cons_of_mem _ hd)) hnbo

/-- A well-formed node has as many children as addresses. -/
theorem MngtNode.WellFormed.nboChildren_eq_countP (h : n.WellFormed) :
    n.nboChildren.toNat = n.children.toList.countP fun c => c.addr ≠ 0 :=
  h.nboChildren_eq.trans n.takenCells_eq_countP

/-- A profile is well formed when the node is. -/
theorem wellFormed_of_mem (h : lst.Sound) (hn : n ∈ lst.nodes) : n.WellFormed :=
  (h.distinct.forall_mem_iff fun _ => ⟨fun h => ⟨h.1, h.2, h.3, h.4, h.5⟩,
    fun h => ⟨h.1, h.2, h.3, h.4, h.5⟩⟩).mpr h.registry.wellFormed n hn

/-- A call on an entry of the list, or on what the entry was before its flags changed, is safe. -/
theorem safe_of_children {call : ConnStatusCall} (h : call.lst.Sound) (hn : n ∈ call.lst.nodes)
    (hnode : call.node.children = n.children ∧ call.node.nboChildren = n.nboChildren) :
    call.Safe := by
  rw [ConnStatusCall.Safe, hnode.1, hnode.2]
  refine safeTurns _ (fun c hc hc0 => ?_) (wellFormed_of_mem h hn).nboChildren_eq_countP
  exact h.registry.closed _ _ (h.distinct.registry_self hn) c (Vector.mem_toList_iff.mp hc) hc0

/-- A registration calls it for a node of a sound list. -/
theorem safe_onehopCalls (h : lst.Sound) : ∀ call ∈ onehopCalls lst n, call.Safe := by
  rw [onehopCalls]
  cases ht : getNodeReferenceByAddress lst n.addr with
  | none => simp
  | some temp =>
    intro call hcall
    obtain rfl := List.mem_singleton.mp hcall
    exact safe_of_children h (Keyed.mem_of_lookup ht) ⟨rfl, rfl⟩

theorem safe_scheduleStepCalls (h : s.NODES.Sound) (phase : OperationPhase) (i : ℕ) :
    ∀ call ∈ scheduleStepCalls phase s i, call.Safe := by
  rw [scheduleStepCalls]
  cases hi : s.NODES.nodes[i]? with
  | none => simp
  | some n =>
    by_cases hdue : n.genInfo.type = .onehop ∧ n.schFlag = false
    · simp only [if_pos hdue]
      split
      case isTrue =>
        intro call hcall
        have hnodes : (scheduleOneNode s phase n).2.NODES = s.NODES := by
          rcases scheduleOneNode_cases s phase n with heq | ⟨_, _, -, -, heq⟩ <;> rw [heq] <;> rfl
        obtain rfl := List.mem_singleton.mp hcall
        rw [hnodes]
        -- the entry was marked before the call, its table was not touched
        have hmem : { n with schFlag := true, isConnected := true } ∈ (s.NODES.markAt i).nodes := by
          refine List.mem_of_getElem? (i := i) ?_
          rw [MngtNodeList.markAt, List.getElem?_modify_eq, hi]
          rfl
        exact safe_of_children (h.markAt hi) hmem ⟨rfl, rfl⟩
      case isFalse => simp
    · simp [hdue]

theorem safe_scheduleLoopCalls (phase : OperationPhase) (n i : ℕ)
    (h : s.NODES.Sound) : ∀ call ∈ scheduleLoopCalls phase n i s, call.Safe := by
  induction n generalizing i s with
  | zero => simp [scheduleLoopCalls]
  | succ n ih =>
    obtain ⟨s', hs', hturn⟩ := scheduleStep_cases h phase i
    have hs'sound : s'.NODES.Sound := by
      obtain rfl | ⟨n, -, -, -, hturn⟩ := hturn
      · exact h
      · cases hturn with
        | refused => exact h
        | booked _ _ _ hsound => exact hsound
    rw [scheduleLoopCalls, hs', Option.map_some, Option.getD_some]
    exact List.forall_mem_append.mpr ⟨safe_scheduleStepCalls h phase i, ih (i + 1) hs'sound⟩

/-- **Each call of an operation is safe.** -/
theorem safe_connStatusCalls (h : s.NODES.Sound) (op : MacOp) :
    ∀ call ∈ op.connStatusCalls s, call.Safe := by
  cases op with
  | register r =>
    rw [MacOp.connStatusCalls]
    split
    · exact safe_onehopCalls h
    · simp
  | schedule phase => exact safe_scheduleLoopCalls phase _ 0 h
  | reset => simp [MacOp.connStatusCalls]

/-! ## Any history -/

/-- In a sound list every child table is in order. -/
theorem MngtNodeList.Sound.childrenResolve (h : lst.Sound) : ChildrenResolve lst.nodes where
  resolve n hn c hc hc0 := by
    obtain ⟨e, he⟩ := Option.isSome_iff_exists.mp
      (h.registry.closed _ _ (h.distinct.registry_self hn) c hc hc0)
    obtain ⟨d, hd, haddr, -⟩ := exists_mem_of_registry he
    exact ⟨d, hd, haddr⟩
  nboChildren n hn := (wellFormed_of_mem h hn).nboChildren_eq_countP
  nboChildren_le n hn := (wellFormed_of_mem h hn).nboChildren_eq.trans_le n.takenCells_le

/-- **Child references always resolve**: in every state of every history child tables are in order,
and each call of `dmSetChildConnStatus` on the way finds every child it follows and counts none too
many. -/
theorem childRefs_run (p : MacParams) (ops : List MacOp) :
    Runs.Always MacOp.step (fun s => ChildrenResolve s.NODES.nodes) (twohopLoRaMacInit p) ops ∧
      Runs.EachStep MacOp.step (fun s op => ∀ call ∈ op.connStatusCalls s, call.Safe)
        (twohopLoRaMacInit p) ops := by
  have hstep : ∀ s op, Mac.Consistent p s → True →
      ∃ s', MacOp.step s op = some s' ∧ s'.Consistent p := fun _ op h _ => h.step op
  have hinit := consistent_twohopLoRaMacInit p
  refine ⟨(Runs.always_of_inv hstep hinit ops fun _ _ => trivial).imp fun s h =>
      h.sound.childrenResolve, ?_⟩
  exact Runs.eachStep_of_inv hstep (fun s op h _ => safe_connStatusCalls h.sound op) hinit ops
    fun _ _ => trivial

end LoRaGwSv
