import LoRaGwSv.Server.RtloraMac

/-!
# Server/Registry — NODES as a map from addresses

Registration reads and writes NODES only by address.  A `Registry` is what it amounts to: for each
address the node registered there, without its connection state and data statistics (`profile`),
which registration never looks at.  `Registry.register` says in those terms what one registration
is for, and `registry_addNodeToNodeList` that the list code does exactly that, as long as addresses
are distinct and no child is missing.
-/

namespace LoRaGwSv

open Function

/-- A node without its connection state and data statistics. -/
def MngtNode.profile (n : MngtNode) : MngtNode :=
  { n with
    isConnected := false
    dataMissCount := 0
    latestSeqNo := 0
    dataCount := 0
    dataCountMainLink := 0
    dataCountDirectLink := 0
    prevSeqNo := 0 }

/-- For each address, the profile of the node registered there. -/
abbrev Registry : Type := UInt16 → Option MngtNode

/-- The registry a node list stands for. -/
def MngtNodeList.registry (lst : MngtNodeList) : Registry := fun a =>
  Keyed.lookup MngtNode.addr a (lst.nodes.map MngtNode.profile)

/-- No two nodes of the list have one address. -/
def MngtNodeList.Distinct (lst : MngtNodeList) : Prop := (lst.nodes.map MngtNode.addr).Nodup

/-- Every child in a child table is itself registered. -/
def Registry.Closed (m : Registry) : Prop :=
  ∀ a n, m a = some n → ∀ c ∈ n.children, c.addr ≠ 0 → (m c.addr).isSome

/-- The parent of a two-hop node once it has taken the node in, if it can. -/
def Registry.adopt (m : Registry) (n : MngtNode) : Option MngtNode :=
  (m n.parrentAddr).bind fun parent => dmAddChildToNode parent n

/-- Pushing a node: an entry that is there already keeps what `updateGenInfo` keeps. -/
def Registry.push (m : Registry) (n : MngtNode) : Registry :=
  update m n.addr (some (((m n.addr).map n.updateGenInfo).getD n))

/-- **What a registration is for.**  A one-hop node starts afresh; a two-hop node is entered in its
parent's table, if the parent is there and has room, and its parent is to be scheduled again. -/
def Registry.register (m : Registry) (n : MngtNode) : Registry :=
  match n.genInfo.type with
  | .onehop => update m n.addr (some n)
  | .twohop =>
    match m.adopt n with
    | some parent =>
      update (update m n.parrentAddr (some { parent with schFlag := false })) n.addr (some n)
    | none => m

variable {lst : MngtNodeList} {a : UInt16} {n : MngtNode}

/-! ## Profiles

What registration neither reads nor writes is left out of a node: whether it is connected, and the
statistics of its data. -/

/-- An entry is the profile of the node that is found. -/
theorem registry_eq (lst : MngtNodeList) (a : UInt16) :
    lst.registry a = (getNodeReferenceByAddress lst a).map MngtNode.profile :=
  Keyed.lookup_map (g := MngtNode.profile) (fun _ => rfl) _

/-- Each entry without its connection state and data statistics. -/
def Registry.profiles (m : Registry) : Registry := fun b => (m b).map MngtNode.profile

theorem registry_eq_profiles (lst : MngtNodeList) :
    lst.registry = Registry.profiles (getNodeReferenceByAddress lst) := funext (registry_eq lst)

theorem profiles_update (m : Registry) (a : UInt16) (e : Option MngtNode) :
    Registry.profiles (update m a e) = update m.profiles a (e.map MngtNode.profile) := by
  funext b
  rw [Registry.profiles, update_apply, update_apply]
  split <;> rfl

/-- A node that is pushed becomes the entry of its address. -/
theorem profiles_push (m : Registry) (n : MngtNode) :
    (m.push n).profiles = update m.profiles n.addr (some n.profile) := by
  rw [Registry.push, profiles_update, Option.map_some]
  cases m n.addr <;> rfl

theorem registry_eq_some (h : getNodeReferenceByAddress lst a = some n) :
    lst.registry a = some n.profile := by rw [registry_eq, h, Option.map_some]

theorem registry_eq_none : lst.registry a = none ↔ getNodeReferenceByAddress lst a = none := by
  rw [registry_eq, Option.map_eq_none_iff]

/-- The registry is what the entries of the list are, for distinct addresses. -/
theorem MngtNodeList.Distinct.registry_self (h : lst.Distinct) (hn : n ∈ lst.nodes) :
    lst.registry n.addr = some n.profile := registry_eq_some (Keyed.lookup_self h hn)

/-- An entry is that of a node in the list. -/
theorem exists_mem_of_registry {e : MngtNode} (h : lst.registry a = some e) :
    ∃ n ∈ lst.nodes, n.addr = a ∧ n.profile = e := by
  rw [registry_eq, Option.map_eq_some_iff] at h
  obtain ⟨n, hn, rfl⟩ := h
  exact ⟨n, Keyed.mem_of_lookup hn, Keyed.key_of_lookup hn, rfl⟩

/-- A list with the same profiles has the same addresses. -/
theorem distinct_of_profiles {lst' : MngtNodeList}
    (h : lst'.nodes.map MngtNode.profile = lst.nodes.map MngtNode.profile) (hd : lst.Distinct) :
    lst'.Distinct := by
  have := congrArg (List.map MngtNode.addr) h
  rw [List.map_map, List.map_map] at this
  exact (congrArg List.Nodup this).mpr hd

/-- Rewriting through a reference what a profile leaves out changes no profile. -/
theorem profiles_writeRef {f : MngtNode → MngtNode} (hf : ∀ n, (f n).profile = n.profile) :
    (lst.writeRef a f).nodes.map MngtNode.profile = lst.nodes.map MngtNode.profile :=
  Keyed.map_update fun n _ => hf n

/-! ## Pushing and popping

The list has one node for each address, so pushing is an update of the map, and popping a removal.
-/

/-- Writing through a reference keeps the addresses apart, if it keeps the address. -/
theorem distinct_writeRef {f : MngtNode → MngtNode} (hf : ∀ n, n.addr = a → (f n).addr = n.addr)
    (hd : lst.Distinct) : (lst.writeRef a f).Distinct :=
  (congrArg List.Nodup (Keyed.map_update hf)).mpr hd

theorem registry_writeRef {f g : MngtNode → MngtNode} (hf : ∀ n, n.addr = a → (f n).addr = a)
    (hg : ∀ n, (f n).profile = g n.profile) (b : UInt16) :
    (lst.writeRef a f).registry b
      = if b = a then (lst.registry a).map g else lst.registry b := by
  rw [registry_eq, registry_eq, registry_eq, getNodeReferenceByAddress, MngtNodeList.writeRef,
    Keyed.lookup_update hf]
  split
  · rw [Option.map_map, Option.map_map]
    exact congrArg (fun k => Option.map k _) (funext hg)
  · rfl

/-- A node that is known is updated in its place. -/
theorem dmNodeUpdateGenInfo_snd {t : MngtNode}
    (ht : getNodeReferenceByAddress lst n.addr = some t) :
    (dmNodeUpdateGenInfo lst n).2 = lst.writeRef n.addr n.updateGenInfo := by
  rw [dmNodeUpdateGenInfo, ht]

/-- Pushing a node puts it in its place, new or not. -/
theorem reference_pushNode (hd : lst.Distinct) (n : MngtNode) :
    getNodeReferenceByAddress (pushNode lst n).2
      = Registry.push (getNodeReferenceByAddress lst) n := by
  funext b
  rw [Registry.push, update_apply, pushNode, isNodeExisted]
  split
  case isTrue h =>
    obtain ⟨t, ht⟩ := Option.isSome_iff_exists.mp h
    rw [dmNodeUpdateGenInfo_snd ht, ht, Option.map_some, Option.getD_some,
      getNodeReferenceByAddress, MngtNodeList.writeRef,
      Keyed.lookup_update (f := n.updateGenInfo) fun _ _ => rfl]
    split
    · exact (congrArg (Option.map n.updateGenInfo) ht).trans (Option.map_some ..)
    · rfl
  case isFalse h =>
    have hnone := Option.not_isSome_iff_eq_none.mp h
    have hnew : ∀ x ∈ lst.nodes, x.addr ≠ n.addr := Keyed.lookup_eq_none.mp hnone
    have hcons : ((n :: lst.nodes).map MngtNode.addr).Nodup :=
      List.nodup_cons.mpr ⟨by simpa using hnew, hd⟩
    have hperm : (n :: lst.nodes).Perm
        (if lst.sort then lst.nodes.orderedInsert MngtNode.DemandsMore n
          else lst.nodes ++ [n]) := by
      split
      · exact (List.perm_orderedInsert _ _ _).symm
      · exact (List.perm_append_singleton _ _).symm
    rw [hnone, Option.map_none, Option.getD_none, getNodeReferenceByAddress,
      ← Keyed.lookup_perm hcons hperm, Keyed.lookup_cons]
    by_cases hb : b = n.addr
    · rw [if_pos hb, if_pos hb.symm]
    · rw [if_neg hb, if_neg (Ne.symm hb)]
      rfl

/-- **Pushing a node makes it the entry of its address**, known or not. -/
theorem registry_pushNode (hd : lst.Distinct) (n : MngtNode) :
    (pushNode lst n).2.registry = update lst.registry n.addr (some n.profile) := by
  rw [registry_eq_profiles, reference_pushNode hd, profiles_push, ← registry_eq_profiles]

theorem distinct_pushNode (hd : lst.Distinct) (n : MngtNode) : (pushNode lst n).2.Distinct := by
  rw [pushNode, isNodeExisted]
  split
  case isTrue h =>
    obtain ⟨t, ht⟩ := Option.isSome_iff_exists.mp h
    rw [dmNodeUpdateGenInfo_snd ht]
    exact distinct_writeRef (fun _ hx => hx.symm) hd
  case isFalse h =>
    have hnew : ∀ x ∈ lst.nodes, x.addr ≠ n.addr :=
      Keyed.lookup_eq_none.mp (Option.not_isSome_iff_eq_none.mp h)
    have hcons : ((n :: lst.nodes).map MngtNode.addr).Nodup :=
      List.nodup_cons.mpr ⟨by simpa using hnew, hd⟩
    rw [MngtNodeList.Distinct]
    split
    · exact (((List.perm_orderedInsert _ _ _).map _).nodup_iff).mpr hcons
    · exact (((List.perm_append_singleton _ _).map _).nodup_iff).mpr hcons

theorem popNodeByAddress_fst (lst : MngtNodeList) (a : UInt16) :
    (popNodeByAddress lst a).1 = getNodeReferenceByAddress lst a := by
  rw [popNodeByAddress]
  split
  case h_1 h => exact h.symm
  case h_2 h => exact h.symm

theorem reference_popNodeByAddress (hd : lst.Distinct) (a : UInt16) :
    getNodeReferenceByAddress (popNodeByAddress lst a).2
      = update (getNodeReferenceByAddress lst) a none := by
  funext b
  rw [update_apply, popNodeByAddress]
  split
  case h_1 h =>
    split
    · subst b
      exact h
    · rfl
  case h_2 h => exact Keyed.lookup_erase hd

theorem registry_popNodeByAddress (hd : lst.Distinct) (a : UInt16) :
    (popNodeByAddress lst a).2.registry = update lst.registry a none := by
  rw [registry_eq_profiles, reference_popNodeByAddress hd, profiles_update, Option.map_none,
    ← registry_eq_profiles]

theorem distinct_popNodeByAddress (hd : lst.Distinct) (a : UInt16) :
    (popNodeByAddress lst a).2.Distinct := by
  rw [popNodeByAddress]
  split
  case h_1 => exact hd
  case h_2 => exact Keyed.nodup_erase hd a

/-! ## The connection state of children

The call follows a reference for each child of a node without a test.  With closed registries none
of them is null. -/

/-- Setting the connection state of children changes no profile. -/
theorem profiles_dmSetChildConnStatusLoop (status : Bool) : ∀ (cells : List Child)
    (nboChild : UInt8) {lst lst' : MngtNodeList},
    dmSetChildConnStatusLoop status cells nboChild lst = some lst' →
    lst'.nodes.map MngtNode.profile = lst.nodes.map MngtNode.profile := by
  intro cells
  induction cells with
  | nil =>
    intro _ lst lst' h
    rw [← Option.some.inj h]
  | cons c cells ih =>
    intro nboChild lst lst' h
    rw [dmSetChildConnStatusLoop] at h
    split at h
    case isTrue =>
      have hprof : (lst.writeRef c.addr fun child => { child with isConnected := status }).nodes.map
          MngtNode.profile = lst.nodes.map MngtNode.profile := profiles_writeRef fun _ => rfl
      split at h
      case h_1 => exact absurd h (by simp)
      case h_2 =>
        dsimp only at h
        split at h
        · rw [← Option.some.inj h]
          exact hprof
        · exact (ih _ h).trans hprof
    case isFalse =>
      split at h
      · rw [← Option.some.inj h]
      · exact ih _ h

/-- **It follows no null pointer** when they are all in the list. -/
theorem isSome_dmSetChildConnStatusLoop (status : Bool) : ∀ (cells : List Child) (nboChild : UInt8)
    (lst : MngtNodeList), (∀ c ∈ cells, c.addr ≠ 0 → (lst.registry c.addr).isSome) →
    (dmSetChildConnStatusLoop status cells nboChild lst).isSome := by
  intro cells
  induction cells with
  | nil => exact fun _ _ _ => rfl
  | cons c cells ih =>
    intro nboChild lst hcells
    rw [dmSetChildConnStatusLoop]
    split
    case isTrue hc =>
      have hsome := hcells c (by simp) hc
      rw [registry_eq, Option.isSome_map] at hsome
      obtain ⟨t, ht⟩ := Option.isSome_iff_exists.mp hsome
      have hprof : (lst.writeRef c.addr fun child => { child with isConnected := status }).nodes.map
          MngtNode.profile = lst.nodes.map MngtNode.profile := profiles_writeRef fun _ => rfl
      simp only [ht]
      split
      · rfl
      · refine ih (nboChild - 1) _ fun d hd hd0 => ?_
        rw [MngtNodeList.registry, hprof]
        exact hcells d (List.mem_cons_of_mem _ hd) hd0
    case isFalse =>
      split
      · rfl
      · exact ih nboChild lst fun d hd => hcells d (List.mem_cons_of_mem _ hd)

/-- **Where every child has an entry the call is defined**, and changes no profile. -/
theorem dmSetChildConnStatus_spec {node : MngtNode} (status : Bool)
    (h : ∀ c ∈ node.children, c.addr ≠ 0 → (lst.registry c.addr).isSome) :
    ∃ lst', dmSetChildConnStatus lst node status = some lst' ∧
      lst'.nodes.map MngtNode.profile = lst.nodes.map MngtNode.profile := by
  obtain ⟨lst', hlst'⟩ := Option.isSome_iff_exists.mp (isSome_dmSetChildConnStatusLoop status
    node.children.toList node.nboChildren lst fun c hc => h c (Vector.mem_toList_iff.mp hc))
  exact ⟨lst', hlst', profiles_dmSetChildConnStatusLoop status _ _ hlst'⟩

/-! ## Taking a child in

Whether there is room, and what becomes of the parent, depends on the profile of the parent and on
the child alone. -/

/-- A child table has a cell for `addr`: the one it has already, or an empty one. -/
def MngtNode.HasRoomFor (parent : MngtNode) (addr : UInt16) : Prop :=
  ∃ c ∈ parent.children, c.addr = addr ∨ c.addr = 0

instance (parent : MngtNode) (addr : UInt16) : Decidable (parent.HasRoomFor addr) :=
  inferInstanceAs (Decidable (∃ c ∈ parent.children, c.addr = addr ∨ c.addr = 0))

variable {parent parent' child : MngtNode}

/-- A child is taken in exactly if there is room for it. -/
theorem isSome_dmAddChildToNode :
    (dmAddChildToNode parent child).isSome ↔ parent.HasRoomFor child.addr := by
  rw [dmAddChildToNode, MngtNode.HasRoomFor]
  split
  case h_1 i hi =>
    exact iff_of_true rfl ⟨_, Table.getElem_mem _ i, Or.inl (by simpa using Table.firstIdx_some hi)⟩
  case h_2 hnone =>
    split
    case h_1 i hi =>
      exact iff_of_true rfl
        ⟨_, Table.getElem_mem _ i, Or.inr (by simpa using Table.firstIdx_some hi)⟩
    case h_2 hfull =>
      refine iff_of_false (by simp) ?_
      rintro ⟨c, hc, hroom⟩
      obtain ⟨j, rfl⟩ := Table.mem_iff_getElem.mp hc
      have hne := Table.firstIdx_none.mp hnone j
      have hne0 := Table.firstIdx_none.mp hfull j
      simp only [decide_eq_false_iff_not] at hne hne0
      exact hroom.elim hne hne0

/-- Nothing of the parent but its demand and its table changes. -/
theorem dmAddChildToNode_frame (h : dmAddChildToNode parent child = some parent') :
    parent'.addr = parent.addr ∧ parent'.genInfo.cls = parent.genInfo.cls ∧
      parent'.genInfo.type = parent.genInfo.type ∧ parent'.parrentAddr = parent.parrentAddr := by
  obtain ⟨i, ⟨-, rfl⟩ | ⟨-, -, rfl⟩⟩ := dmAddChildToNode_some h <;> exact ⟨rfl, rfl, rfl, rfl⟩

/-- The children afterwards are the new one and some of the old ones. -/
theorem mem_children_of_dmAddChildToNode (h : dmAddChildToNode parent child = some parent')
    {c : Child} (hc : c ∈ parent'.children) : c = child.asChild ∨ c ∈ parent.children := by
  have hset : ∀ i : Fin twohopMaxNboChildren, c ∈ parent.children.set i child.asChild →
      c = child.asChild ∨ c ∈ parent.children := by
    intro i hc
    obtain rfl | ⟨j, -, rfl⟩ := Table.mem_set.mp hc
    · exact Or.inl rfl
    · exact Or.inr (Table.getElem_mem _ j)
  obtain ⟨i, ⟨-, rfl⟩ | ⟨-, -, rfl⟩⟩ := dmAddChildToNode_some h <;> exact hset i hc

/-- Whether it is, and what becomes of the parent, is told by the profile. -/
theorem dmAddChildToNode_profile (parent child : MngtNode) :
    dmAddChildToNode parent.profile child
      = (dmAddChildToNode parent child).map MngtNode.profile := by
  rw [dmAddChildToNode, dmAddChildToNode]
  have hchildren : parent.profile.children = parent.children := rfl
  rw [hchildren]
  split
  case h_1 => rfl
  case h_2 => split <;> rfl

/-! ## The list code is the registration -/

/-- The registration is accepted: a one-hop one always, a two-hop one if its parent takes it. -/
def Registry.accepts (m : Registry) (n : MngtNode) : Bool :=
  match n.genInfo.type with
  | .onehop => true
  | .twohop => (m.adopt n).isSome

/-- A one-hop node is pushed, into a list in which only its own entry may have changed. -/
theorem addOnehopNode_eq_pushNode (hd : lst.Distinct) (hc : lst.registry.Closed) (n : MngtNode) :
    ∃ lst₁ : MngtNodeList, addOnehopNode lst n = some (pushNode lst₁ n).2 ∧ lst₁.Distinct ∧
      ∀ b, b ≠ n.addr → lst₁.registry b = lst.registry b := by
  rw [addOnehopNode]
  split
  case h_1 => exact ⟨lst, rfl, hd, fun _ _ => rfl⟩
  case h_2 temp ht =>
    obtain ⟨lst₁, hlst₁, hprof⟩ := @dmSetChildConnStatus_spec lst temp false
      fun c hmem => hc n.addr _ (registry_eq_some ht) c hmem
    rw [hlst₁]
    refine ⟨_, rfl, distinct_writeRef (fun _ _ => rfl) (distinct_of_profiles hprof hd),
      fun b hb => ?_⟩
    have hother := @registry_writeRef lst₁ n.addr dmRemoveChildOfNode
      (fun e => (dmRemoveChildOfNode e).profile) (fun _ hx => hx) (fun _ => rfl) b
    rw [hother, if_neg hb, MngtNodeList.registry, hprof, MngtNodeList.registry]

/-- **A one-hop node becomes the entry of its address**, and no pointer leads nowhere. -/
theorem registry_addOnehopNode (hd : lst.Distinct) (hc : lst.registry.Closed)
    (hn : n.profile = n) :
    ∃ lst', addOnehopNode lst n = some lst' ∧ lst'.Distinct ∧
      lst'.registry = update lst.registry n.addr (some n) := by
  obtain ⟨lst₁, hlst₁, hd₁, hother⟩ := addOnehopNode_eq_pushNode hd hc n
  refine ⟨_, hlst₁, distinct_pushNode hd₁ n, ?_⟩
  rw [registry_pushNode hd₁, hn]
  funext b
  rw [update_apply, update_apply]
  split
  case isTrue => rfl
  case isFalse hb => exact hother b hb

/-- **What entering a node in its parent's table comes to**: the parent is taken out and pushed
again, with the node in its table if there is room, and then the node. -/
theorem reference_addTwohopNode (hd : lst.Distinct) (n : MngtNode) :
    (addTwohopNode lst n).1 = (Registry.adopt (getNodeReferenceByAddress lst) n).isSome ∧
      (addTwohopNode lst n).2.Distinct ∧
      getNodeReferenceByAddress (addTwohopNode lst n).2 =
        match Registry.adopt (getNodeReferenceByAddress lst) n with
        | some parent => Registry.push (update (getNodeReferenceByAddress lst) n.parrentAddr
            (some { parent with schFlag := false })) n
        | none => getNodeReferenceByAddress lst := by
  have hfst := popNodeByAddress_fst lst n.parrentAddr
  have href := reference_popNodeByAddress hd n.parrentAddr
  have hd₁ := distinct_popNodeByAddress hd n.parrentAddr
  rw [addTwohopNode, Registry.adopt, ← hfst]
  rcases hpop : popNodeByAddress lst n.parrentAddr with ⟨_ | parent, lst₁⟩
  case none =>
    rw [hpop] at hfst href hd₁
    simp only [Option.bind_none]
    exact ⟨rfl, hd₁, href.trans (update_eq_self_iff.mpr hfst)⟩
  case some =>
    rw [hpop] at hfst href hd₁
    have hparent : parent.addr = n.parrentAddr := Keyed.key_of_lookup hfst.symm
    -- the parent is not there when it is pushed, so it goes back as it is
    have hback : ∀ e : MngtNode, e.addr = n.parrentAddr →
        getNodeReferenceByAddress (pushNode lst₁ e).2
          = update (getNodeReferenceByAddress lst) n.parrentAddr (some e) := fun e he => by
      rw [reference_pushNode hd₁, Registry.push, he, href, update_self, Option.map_none,
        Option.getD_none, update_idem]
    simp only [Option.bind_some]
    cases hadd : dmAddChildToNode parent n with
    | none =>
      refine ⟨rfl, distinct_pushNode hd₁ parent, (hback parent hparent).trans ?_⟩
      exact update_eq_self_iff.mpr hfst
    | some parent' =>
      have haddr : parent'.addr = n.parrentAddr := (dmAddChildToNode_frame hadd).1.trans hparent
      have hd₂ := distinct_pushNode hd₁ { parent' with schFlag := false }
      refine ⟨rfl, distinct_pushNode hd₂ n, (reference_pushNode hd₂ n).trans ?_⟩
      rw [hback { parent' with schFlag := false } haddr]

/-- The parent that takes a child in is told by the registry. -/
theorem adopt_registry (lst : MngtNodeList) (n : MngtNode) : lst.registry.adopt n
    = (Registry.adopt (getNodeReferenceByAddress lst) n).map MngtNode.profile := by
  rw [Registry.adopt, Registry.adopt, registry_eq]
  cases getNodeReferenceByAddress lst n.parrentAddr with
  | none => rfl
  | some parent => exact dmAddChildToNode_profile parent n

/-- **A two-hop node becomes an entry if its parent takes it in**, and changes nothing otherwise. -/
theorem registry_addTwohopNode (hd : lst.Distinct) (hn : n.profile = n) :
    (addTwohopNode lst n).1 = (lst.registry.adopt n).isSome ∧
      (addTwohopNode lst n).2.Distinct ∧
      (addTwohopNode lst n).2.registry = match lst.registry.adopt n with
        | some parent => update
            (update lst.registry n.parrentAddr (some { parent with schFlag := false })) n.addr
            (some n)
        | none => lst.registry := by
  obtain ⟨hdone, hd', href⟩ := reference_addTwohopNode hd n
  refine ⟨hdone.trans ?_, hd', ?_⟩
  · rw [adopt_registry, Option.isSome_map]
  · rw [registry_eq_profiles, href, adopt_registry]
    cases Registry.adopt (getNodeReferenceByAddress lst) n with
    | none => exact (registry_eq_profiles lst).symm
    | some parent =>
      simp only [Option.map_some, profiles_push, profiles_update, hn, registry_eq_profiles]
      rfl

/-- **The list code does what a registration is for**, and follows no null pointer.  A two-hop
registration takes the node's slots away besides. -/
theorem addNodeToNodeList_registry {s : Mac} (hd : s.NODES.Distinct)
    (hc : s.NODES.registry.Closed) (hn : n.profile = n) :
    ∃ s', addNodeToNodeList s .NODES n = some (s.NODES.registry.accepts n, s') ∧
      s'.NODES.Distinct ∧ s'.NODES.registry = s.NODES.registry.register n ∧ s'.RNL = s.RNL ∧
      s'.SCHEDULES = match n.genInfo.type with
        | .onehop => s.SCHEDULES
        | .twohop => (removeNodeFromSchedule s n.addr).SCHEDULES := by
  rw [addNodeToNodeList, Registry.accepts, Registry.register]
  cases n.genInfo.type with
  | onehop =>
    obtain ⟨lst', hlst', hd', hreg⟩ := registry_addOnehopNode hd hc hn
    simp only [hlst', Option.map_some]
    exact ⟨_, rfl, hd', hreg, rfl, rfl⟩
  | twohop =>
    obtain ⟨hdone, hd', hreg⟩ := registry_addTwohopNode hd hn
    refine ⟨{ removeNodeFromSchedule s n.addr with NODES := (addTwohopNode s.NODES n).2 }, ?_,
      hd', hreg, rfl, rfl⟩
    rw [← hdone]
    rfl

end LoRaGwSv
