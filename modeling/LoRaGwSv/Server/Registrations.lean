import LoRaGwSv.Machinery.Runs
import LoRaGwSv.Server.Registry

/-!
# Server/Registrations — what any history of registrations leaves in NODES

The input handler only builds `Fresh` nodes, and registering those keeps NODES `Sound`: addresses
are distinct, no child is missing, and every entry is `WellFormed`, its address and class within
their bit fields and its child table in order.  `register_spec` is the one fact about a registration
that later modules use.
-/

namespace LoRaGwSv

open Function

/-- A node as the input handler creates it. -/
structure MngtNode.Fresh (n : MngtNode) : Prop where
  profile_eq : n.profile = n
  children_eq : n.children = noChildren
  nboChildren_eq : n.nboChildren = 0
  schFlag_eq : n.schFlag = false
  addr_lt : n.addr.toNat < 8192
  cls_lt : n.genInfo.cls.toNat < 8
  slotDmn_eq : n.genInfo.slotDmn.toNat = 2 ^ n.genInfo.cls.toNat
  parrentAddr_ne : n.genInfo.type = .twohop → n.parrentAddr ≠ n.addr

/-- How many cells of a child table are taken. -/
def MngtNode.takenCells (n : MngtNode) : ℕ :=
  Table.total (fun c => if c.addr = 0 then 0 else 1) n.children

/-- An entry whose fields fit their bit fields and whose child table is in order. -/
structure MngtNode.WellFormed (n : MngtNode) : Prop where
  addr_lt : n.addr.toNat < 8192
  cls_lt : n.genInfo.cls.toNat < 8
  child_lt : ∀ c ∈ n.children, c.addr.toNat < 8192 ∧ c.cls.toNat < 8
  nboChildren_eq : n.nboChildren.toNat = n.takenCells
  cell_unique : ∀ i j : Fin twohopMaxNboChildren, n.children[i].addr = n.children[j].addr →
    n.children[i].addr ≠ 0 → i = j

/-- A registry of well-formed entries, each under its own address, with no child missing. -/
structure Registry.Sound (m : Registry) : Prop where
  keyed : ∀ a e, m a = some e → e.addr = a
  closed : m.Closed
  wellFormed : ∀ a e, m a = some e → e.WellFormed

/-- What NODES is at any time. -/
structure MngtNodeList.Sound (lst : MngtNodeList) : Prop where
  distinct : lst.Distinct
  registry : lst.registry.Sound

variable {lst : MngtNodeList} {m : Registry} {n parent parent' : MngtNode} {a b : UInt16}

/-! ## The nodes of a request

The fields of a request have few bits, so the node that is made of one is well formed. -/

/-- A cleared table has nothing but cleared cells. -/
theorem mem_noChildren {c : Child} : c ∈ noChildren ↔ c = ⟨0, 0, 0⟩ := by
  rw [noChildren, Vector.mem_replicate]
  exact ⟨fun h => h.2, fun h => ⟨by decide, h⟩⟩

/-- A class demands the power of two that it names. -/
theorem slotDemandCalculation_cls (cls : Fin 8) :
    (slotDemandCalculation (UInt16.ofNat cls)).toUInt8.toNat = 2 ^ (cls : ℕ) := by
  revert cls
  decide

theorem TwohopNodeAddrFormat.address_lt (f : TwohopNodeAddrFormat) : f.address.toNat < 8192 := by
  rw [address, UInt16.toNat_mod]
  exact Nat.mod_lt _ (by decide)

theorem TwohopNodeAddrFormat.cls_lt (f : TwohopNodeAddrFormat) : f.cls.toNat < 8 := by
  have := f.value.toNat_lt
  rw [cls, UInt16.toNat_div, show (8192 : UInt16).toNat = 8192 from rfl]
  omega

theorem TwohopNodeAddrFormat.toNat_genInfo_cls (f : TwohopNodeAddrFormat) (type : NodeType) :
    (f.genInfo type).cls.toNat = f.cls.toNat := by
  have := f.cls_lt
  rw [genInfo, UInt16.toNat_toUInt8]
  omega

theorem TwohopNodeAddrFormat.genInfo_slotDmn (f : TwohopNodeAddrFormat) (type : NodeType) :
    (f.genInfo type).slotDmn.toNat = 2 ^ (f.genInfo type).cls.toNat := by
  have hcls := f.toNat_genInfo_cls type
  have hlt := f.cls_lt
  have hval := slotDemandCalculation_cls ⟨f.cls.toNat, hlt⟩
  have harg : f.cls.toUInt8.toUInt16 = UInt16.ofNat f.cls.toNat := by
    apply UInt16.toNat_inj.mp
    rw [UInt8.toNat_toUInt16, UInt16.toNat_toUInt8, UInt16.toNat_ofNat']
    omega
  rw [hcls, ← hval, genInfo, harg]

/-- **A node that a request makes is fresh.** -/
theorem fresh_createNewNode (f : TwohopNodeAddrFormat) {type : NodeType} {parrent : UInt16}
    (h : type = .twohop → parrent ≠ f.address) :
    (createNewNode (f.genInfo type) parrent).Fresh where
  profile_eq := rfl
  children_eq := rfl
  nboChildren_eq := rfl
  schFlag_eq := rfl
  addr_lt := f.address_lt
  cls_lt := (f.toNat_genInfo_cls type).trans_lt f.cls_lt
  slotDmn_eq := f.genInfo_slotDmn type
  parrentAddr_ne := h

/-- **The input handler only creates fresh nodes.** -/
theorem Registration.fresh_node (r : Registration) : r.node.Fresh := by
  cases r with
  | itself addFmt => exact fresh_createNewNode addFmt (by simp)
  | listed addFmt srcAddr =>
    rw [node]
    split
    case isTrue => exact fresh_createNewNode addFmt (by simp)
    case isFalse h => exact fresh_createNewNode addFmt fun _ => Ne.symm h

theorem MngtNode.Fresh.child_eq (h : n.Fresh) {c : Child} (hc : c ∈ n.children) :
    c = ⟨0, 0, 0⟩ := mem_noChildren.mp (h.children_eq ▸ hc)

theorem MngtNode.Fresh.wellFormed (h : n.Fresh) : n.WellFormed where
  addr_lt := h.addr_lt
  cls_lt := h.cls_lt
  child_lt := fun c hc => by
    rw [h.child_eq hc]
    decide
  nboChildren_eq := by
    rw [takenCells, h.nboChildren_eq, h.children_eq]
    decide
  cell_unique := fun i j _ h0 => by
    have hmem := Table.getElem_mem n.children i
    exact absurd (congrArg Child.addr (h.child_eq hmem)) h0

/-! ## A child table stays in order

A child is written in the cell that has its address, or in an empty one. -/

theorem MngtNode.WellFormed.setSchFlag (h : n.WellFormed) (flag : Bool) :
    MngtNode.WellFormed { n with schFlag := flag } :=
  ⟨h.addr_lt, h.cls_lt, h.child_lt, h.nboChildren_eq, h.cell_unique⟩

/-- No more cells are taken than there are. -/
theorem MngtNode.takenCells_le (n : MngtNode) : n.takenCells ≤ twohopMaxNboChildren := by
  rw [takenCells, Table.total, Fin.sum_univ_two]
  split <;> split <;> decide

/-- Only taking an empty cell changes how many are taken, and there the source counts up. -/
theorem MngtNode.WellFormed.nboChildren_dmAddChildToNode (h : parent.WellFormed)
    (hadd : dmAddChildToNode parent n = some parent') :
    parent'.nboChildren.toNat = parent'.takenCells := by
  have hset : ∀ i : Fin twohopMaxNboChildren, _ := fun i =>
    Table.total_set (fun c : Child => if c.addr = 0 then 0 else 1) parent.children i n.asChild
  have hnew : n.asChild.addr = n.addr := rfl
  have hle : parent.takenCells ≤ 2 := takenCells_le parent
  have hold := h.nboChildren_eq
  obtain ⟨i, ⟨hi, rfl⟩ | ⟨hi, hnot, rfl⟩⟩ := dmAddChildToNode_some hadd
  · have hi' := hset i
    rw [hi, hnew] at hi'
    exact hold.trans (Nat.add_right_cancel hi').symm
  · have hne : n.addr ≠ 0 := fun h0 => hnot _ (Table.getElem_mem _ i) (hi.trans h0.symm)
    have hi' := hset i
    rw [hi, hnew, if_pos rfl, if_neg hne, Nat.add_zero] at hi'
    change (parent.nboChildren + 1).toNat = Table.total _ (parent.children.set i n.asChild)
    rw [hi', UInt8.toNat_add, UInt8.toNat_one, hold]
    exact Nat.mod_eq_of_lt (by rw [takenCells] at hle ⊢; omega)

/-- The address written is either the one its cell had or in no cell. -/
theorem MngtNode.WellFormed.cell_unique_dmAddChildToNode (h : parent.WellFormed)
    (hadd : dmAddChildToNode parent n = some parent') (j k : Fin twohopMaxNboChildren) :
    (parent'.children.get j).addr = (parent'.children.get k).addr →
      (parent'.children.get j).addr ≠ 0 → j = k := by
  change parent'.children[j].addr = parent'.children[k].addr → parent'.children[j].addr ≠ 0 → j = k
  have hset : ∀ i l : Fin twohopMaxNboChildren, (parent.children.set i n.asChild)[l].addr
      = if l = i then n.addr else parent.children[l].addr := fun i l => by
    rw [Table.getElem_set]
    split <;> rfl
  obtain ⟨i, ⟨hi, rfl⟩ | ⟨hi, hnot, rfl⟩⟩ := dmAddChildToNode_some hadd
  · have hsame : ∀ l : Fin twohopMaxNboChildren,
        (parent.children.set i n.asChild)[l].addr = parent.children[l].addr := fun l => by
      rw [hset]
      split
      case isTrue hl => rw [hl, hi]
      case isFalse => rfl
    simp only [putChild, hsame]
    exact h.cell_unique j k
  · have hne : ∀ l : Fin twohopMaxNboChildren, parent.children[l].addr ≠ n.addr :=
      fun l => hnot _ (Table.getElem_mem _ l)
    simp only [putChild, hset]
    by_cases hj : j = i
    · by_cases hk : k = i
      · exact fun _ _ => hj.trans hk.symm
      · rw [if_pos hj, if_neg hk]
        exact fun heq => absurd heq.symm (hne k)
    · by_cases hk : k = i
      · rw [if_neg hj, if_pos hk]
        exact fun heq => absurd heq (hne j)
      · rw [if_neg hj, if_neg hk]
        exact h.cell_unique j k

/-- **Taking a child in keeps the parent well formed.** -/
theorem MngtNode.WellFormed.dmAddChildToNode (h : parent.WellFormed) (hn : n.Fresh)
    (hadd : dmAddChildToNode parent n = some parent') : parent'.WellFormed := by
  obtain ⟨haddr, hcls, -⟩ := dmAddChildToNode_frame hadd
  refine ⟨haddr ▸ h.addr_lt, hcls ▸ h.cls_lt, fun c hc => ?_, ?_, ?_⟩
  · rcases mem_children_of_dmAddChildToNode hadd hc with rfl | hc
    · exact ⟨hn.addr_lt, hn.cls_lt⟩
    · exact h.child_lt c hc
  · exact h.nboChildren_dmAddChildToNode hadd
  · exact h.cell_unique_dmAddChildToNode hadd

/-! ## One registration

Three cases, as `register_cases` has them; the other lemmas read from them what an entry may become.
-/

/-- **What a registration does**: it starts a one-hop node afresh; it enters a two-hop node in its
parent's table; or, where the parent is missing or full, it does nothing. -/
theorem Registry.register_cases (m : Registry) (n : MngtNode) :
    (n.genInfo.type = .onehop ∧ m.register n = update m n.addr (some n)) ∨
    (∃ parent parent', n.genInfo.type = .twohop ∧ m n.parrentAddr = some parent ∧
      dmAddChildToNode parent n = some parent' ∧
      m.register n = update (update m n.parrentAddr (some { parent' with schFlag := false }))
        n.addr (some n)) ∨
    (n.genInfo.type = .twohop ∧ m.adopt n = none ∧ m.register n = m) := by
  rw [register]
  cases n.genInfo.type with
  | onehop => exact Or.inl ⟨rfl, rfl⟩
  | twohop =>
    refine Or.inr ?_
    cases hadopt : m.adopt n with
    | none => exact Or.inr ⟨rfl, rfl, rfl⟩
    | some parent' =>
      obtain ⟨parent, hparent, hadd⟩ := Option.bind_eq_some_iff.mp hadopt
      exact Or.inl ⟨parent, parent', rfl, hparent, hadd, rfl⟩

/-- A registration is accepted exactly if it is one-hop or its parent has room for it. -/
theorem Registry.isSome_adopt :
    (m.adopt n).isSome ↔ ∃ parent, m n.parrentAddr = some parent ∧ parent.HasRoomFor n.addr := by
  rw [adopt]
  cases hparent : m n.parrentAddr with
  | none => simp
  | some parent =>
    rw [Option.bind_some, isSome_dmAddChildToNode]
    refine ⟨fun h => ⟨parent, rfl, h⟩, ?_⟩
    rintro ⟨e, he, h⟩
    exact Option.some.inj he ▸ h

theorem Registry.isSome_register (h : (m b).isSome) : (m.register n b).isSome := by
  obtain ⟨-, heq⟩ | ⟨parent, parent', -, -, -, heq⟩ | ⟨-, -, heq⟩ := register_cases m n
  · rw [heq, update_apply]
    split
    · rfl
    · exact h
  · rw [heq, update_apply, update_apply]
    split
    · rfl
    · split
      · rfl
      · exact h
  · rwa [heq]

/-- The entries afterwards: the new node, its parent, and entries that were there. -/
theorem Registry.register_eq_some {e : MngtNode} (h : m.register n b = some e) :
    (b = n.addr ∧ e = n) ∨
    (∃ parent parent', b = n.parrentAddr ∧ n.genInfo.type = .twohop ∧
      m n.parrentAddr = some parent ∧ dmAddChildToNode parent n = some parent' ∧
      e = { parent' with schFlag := false }) ∨
    m b = some e := by
  obtain ⟨-, heq⟩ | ⟨parent, parent', htype, hparent, hadd, heq⟩ | ⟨-, -, heq⟩ :=
    register_cases m n
  · rw [heq, update_apply] at h
    split at h
    case isTrue hb => exact Or.inl ⟨hb, (Option.some.inj h).symm⟩
    case isFalse => exact Or.inr (Or.inr h)
  · rw [heq, update_apply, update_apply] at h
    split at h
    case isTrue hb => exact Or.inl ⟨hb, (Option.some.inj h).symm⟩
    case isFalse =>
      split at h
      case isTrue hb =>
        exact Or.inr (Or.inl
          ⟨parent, parent', hb, htype, hparent, hadd, (Option.some.inj h).symm⟩)
      case isFalse => exact Or.inr (Or.inr h)
  · exact Or.inr (Or.inr (heq ▸ h))

/-- **A registration keeps the registry sound.** -/
theorem Registry.Sound.register (h : m.Sound) (hn : n.Fresh) : (m.register n).Sound where
  keyed b e he := by
    obtain ⟨rfl, rfl⟩ | ⟨parent, parent', rfl, -, hparent, hadd, rfl⟩ | he := register_eq_some he
    · rfl
    · exact (dmAddChildToNode_frame hadd).1.trans (h.keyed _ _ hparent)
    · exact h.keyed b e he
  closed b e he c hc hc0 := by
    obtain ⟨rfl, rfl⟩ | ⟨parent, parent', rfl, -, hparent, hadd, rfl⟩ | he := register_eq_some he
    · exact absurd (congrArg Child.addr (hn.child_eq hc)) hc0
    · rcases mem_children_of_dmAddChildToNode hadd hc with rfl | hc
      · change (m.register n n.addr).isSome
        obtain ⟨-, heq⟩ | ⟨_, _, -, -, -, heq⟩ | ⟨-, hnone, -⟩ := register_cases m n
        · rw [heq, update_self, Option.isSome_some]
        · rw [heq, update_self, Option.isSome_some]
        · rw [adopt, hparent, Option.bind_some, hadd] at hnone
          exact absurd hnone (Option.some_ne_none _)
      · exact isSome_register (h.closed _ _ hparent c hc hc0)
    · exact isSome_register (h.closed b e he c hc hc0)
  wellFormed b e he := by
    obtain ⟨rfl, rfl⟩ | ⟨parent, parent', rfl, -, hparent, hadd, rfl⟩ | he := register_eq_some he
    · exact hn.wellFormed
    · exact ((h.wellFormed _ _ hparent).dmAddChildToNode hn hadd).setSchFlag false
    · exact h.wellFormed b e he

/-! ## The type of an entry

An entry changes its type only when its own node registers. -/

/-- The type of the node registered at `b`. -/
def Registry.Is (m : Registry) (b : UInt16) (type : NodeType) : Prop :=
  ∃ e, m b = some e ∧ e.genInfo.type = type

/-- What is registered at `b` after something is registered at `a`. -/
theorem Registry.exists_update {e : MngtNode} {P : MngtNode → Prop} :
    (∃ x, update m a (some e) b = some x ∧ P x) ↔
      b = a ∧ P e ∨ b ≠ a ∧ ∃ x, m b = some x ∧ P x := by
  rw [update_apply]
  split
  case isTrue h => exact ⟨fun ⟨x, hx, hP⟩ => Or.inl ⟨h, Option.some.inj hx ▸ hP⟩,
    fun h' => ⟨e, rfl, h'.elim And.right fun h' => absurd h h'.1⟩⟩
  case isFalse h => exact ⟨fun h' => Or.inr ⟨h, h'⟩, fun h' =>
    h'.elim (fun h' => absurd h'.1 h) And.right⟩

/-- A registry in which the entry at `a` is rewritten without changing what `P` reads. -/
theorem Registry.exists_update_of_iff {e e' : MngtNode} {P : MngtNode → Prop} (he : m a = some e)
    (hP : P e' ↔ P e) :
    (∃ x, update m a (some e') b = some x ∧ P x) ↔ ∃ x, m b = some x ∧ P x := by
  rw [exists_update, hP]
  constructor
  · rintro (⟨rfl, h⟩ | ⟨-, h⟩)
    · exact ⟨e, he, h⟩
    · exact h
  · intro h
    refine (eq_or_ne b a).imp (fun hb => ⟨hb, ?_⟩) fun hb => ⟨hb, h⟩
    obtain ⟨x, hx, hPx⟩ := h
    rwa [Option.some.inj (he.symm.trans (hb ▸ hx))]

/-- A new entry has the type of its node, and the others keep theirs. -/
theorem Registry.is_update {type : NodeType} :
    Is (update m n.addr (some n)) b type ↔
      b = n.addr ∧ n.genInfo.type = type ∨ b ≠ n.addr ∧ m.Is b type := exists_update

theorem Registry.is_adopt (hparent : m n.parrentAddr = some parent)
    (hadd : dmAddChildToNode parent n = some parent') {type : NodeType} :
    Is (update m n.parrentAddr (some { parent' with schFlag := false })) b type ↔
      m.Is b type := by
  obtain ⟨-, -, htype, -⟩ := dmAddChildToNode_frame hadd
  exact exists_update_of_iff hparent (by rw [← htype])

/-- What a registration does not look at in another node's entry, it leaves there: only a parent's
demand, table and flag change. -/
theorem Registry.exists_register_of_ne {P : MngtNode → Prop}
    (hP : ∀ e e', e'.genInfo.cls = e.genInfo.cls → e'.genInfo.type = e.genInfo.type →
      e'.parrentAddr = e.parrentAddr → (P e' ↔ P e)) (hb : b ≠ n.addr) :
    (∃ x, m.register n b = some x ∧ P x) ↔ ∃ x, m b = some x ∧ P x := by
  have hself : ∀ m' : Registry, (∃ x, update m' n.addr (some n) b = some x ∧ P x) ↔
      ∃ x, m' b = some x ∧ P x := fun m' =>
    exists_update.trans
      ⟨fun h => h.elim (fun h => absurd h.1 hb) And.right, fun h => Or.inr ⟨hb, h⟩⟩
  obtain ⟨-, heq⟩ | ⟨parent, parent', -, hparent, hadd, heq⟩ | ⟨-, -, heq⟩ := register_cases m n
  · rw [heq, hself]
  · obtain ⟨-, hcls, htype, hpar⟩ := dmAddChildToNode_frame hadd
    rw [heq, hself]
    exact exists_update_of_iff hparent (hP parent _ hcls htype hpar)
  · rw [heq]

/-- A registration changes no other node's type. -/
theorem Registry.is_register_of_ne {type : NodeType} (hb : b ≠ n.addr) :
    (m.register n).Is b type ↔ m.Is b type :=
  exists_register_of_ne (fun _ _ _ htype _ => by rw [htype]) hb

/-! ## Registrations as steps of the MAC -/

/-- One node is registered in NODES. -/
def Mac.registerNode (s : Mac) (n : MngtNode) : Option Mac :=
  (addNodeToNodeList s .NODES n).map Prod.snd

/-- One registration of NODES. -/
def Mac.register (s : Mac) (r : Registration) : Option Mac := s.registerNode r.node

/-- **Registering a fresh node**, in terms of the registry. -/
theorem Mac.registerNode_spec {s : Mac} (h : s.NODES.Sound) (hn : n.Fresh) :
    ∃ s', s.registerNode n = some s' ∧ s'.NODES.Sound ∧
      s'.NODES.registry = s.NODES.registry.register n ∧ s'.RNL = s.RNL ∧
      s'.SCHEDULES = match n.genInfo.type with
        | .onehop => s.SCHEDULES
        | .twohop => (removeNodeFromSchedule s n.addr).SCHEDULES := by
  obtain ⟨s', hs', hd, hreg, hrnl, hsch⟩ :=
    addNodeToNodeList_registry h.distinct h.registry.closed hn.profile_eq
  exact ⟨s', by rw [registerNode, hs', Option.map_some], ⟨hd, hreg ▸ h.registry.register hn⟩,
    hreg, hrnl, hsch⟩

/-- **What a registration does to the state of the MAC.** -/
theorem Mac.register_spec {s : Mac} (h : s.NODES.Sound) (r : Registration) :
    ∃ s', s.register r = some s' ∧ s'.NODES.Sound ∧
      s'.NODES.registry = s.NODES.registry.register r.node ∧ s'.RNL = s.RNL ∧
      s'.SCHEDULES = match r.node.genInfo.type with
        | .onehop => s.SCHEDULES
        | .twohop => (removeNodeFromSchedule s r.node.addr).SCHEDULES :=
  registerNode_spec h r.fresh_node

theorem sound_initNodeList (sort : Bool) : (initNodeList sort).Sound where
  distinct := List.nodup_nil
  registry := ⟨fun _ _ h => absurd h (by simp [MngtNodeList.registry, initNodeList]),
    fun _ _ h => absurd h (by simp [MngtNodeList.registry, initNodeList]),
    fun _ _ h => absurd h (by simp [MngtNodeList.registry, initNodeList])⟩

/-- What holds of every profile holds of every entry, and conversely. -/
theorem MngtNodeList.Distinct.forall_mem_iff (hd : lst.Distinct) {P : MngtNode → Prop}
    (hP : ∀ n, P n.profile ↔ P n) :
    (∀ n ∈ lst.nodes, P n) ↔ ∀ a e, lst.registry a = some e → P e := by
  constructor
  · intro h a e he
    obtain ⟨n, hn, -, rfl⟩ := exists_mem_of_registry he
    exact (hP n).mpr (h n hn)
  · exact fun h n hn => (hP n).mp (h _ _ (hd.registry_self hn))

/-- What is said of an entry of the registry is said of the node in the list. -/
theorem MngtNodeList.Distinct.forall_registry_iff (hd : lst.Distinct) {P : MngtNode → Prop}
    (hP : ∀ n, P n.profile ↔ P n) :
    (∀ e, lst.registry a = some e → P e) ↔ ∀ n ∈ lst.nodes, n.addr = a → P n := by
  constructor
  · rintro h n hn rfl
    exact (hP n).mp (h _ (hd.registry_self hn))
  · intro h e he
    obtain ⟨n, hn, haddr, rfl⟩ := exists_mem_of_registry he
    exact (hP n).mpr (h n hn haddr)

theorem MngtNodeList.Distinct.exists_registry_iff (hd : lst.Distinct) {P : MngtNode → Prop}
    (hP : ∀ n, P n.profile ↔ P n) :
    (∃ e, lst.registry a = some e ∧ P e) ↔ ∃ n ∈ lst.nodes, n.addr = a ∧ P n := by
  constructor
  · rintro ⟨e, he, hPe⟩
    obtain ⟨n, hn, haddr, rfl⟩ := exists_mem_of_registry he
    exact ⟨n, hn, haddr, (hP n).mp hPe⟩
  · rintro ⟨n, hn, rfl, hPn⟩
    exact ⟨_, hd.registry_self hn, (hP n).mpr hPn⟩

end LoRaGwSv
