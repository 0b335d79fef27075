import LoRaGwSv.Server.Registrations

/-!
# Server/Forest — relays and their children

NODES is meant to encode a two-level forest: relays are one-hop, their children two-hop, and each
child has one owner.  A registration does not always look at the old place of the node it puts in a
new one, so the forest survives a registration exactly if `Registration.FitsForest` holds of it.
-/

namespace LoRaGwSv

open Function

/-- **A two-level forest.** -/
structure TwoLevel (nodes : List MngtNode) : Prop where
  owner_onehop : ∀ n ∈ nodes, ∀ c ∈ n.children, c.addr ≠ 0 → n.genInfo.type = .onehop
  child_twohop : ∀ n ∈ nodes, ∀ c ∈ n.children, c.addr ≠ 0 →
    ∃ d ∈ nodes, d.addr = c.addr ∧ d.genInfo.type = .twohop ∧ d.parrentAddr = n.addr
  owner_unique : ∀ n ∈ nodes, ∀ n' ∈ nodes, ∀ c ∈ n.children, ∀ c' ∈ n'.children,
    c.addr ≠ 0 → c.addr = c'.addr → n = n'

/-- What a registration must find: a one-hop node in no child table; a two-hop node, where it will
be taken in, at a one-hop parent and in no other node's table.  Address `0` never enters a table. -/
def Registration.FitsForest (s : Mac) (r : Registration) : Prop :=
  match r.node.genInfo.type with
  | .onehop => ∀ n ∈ s.NODES.nodes, ∀ c ∈ n.children, c.addr ≠ 0 → c.addr ≠ r.node.addr
  | .twohop => ∀ parent ∈ s.NODES.nodes, parent.addr = r.node.parrentAddr →
      parent.HasRoomFor r.node.addr → r.node.addr ≠ 0 → parent.genInfo.type = .onehop ∧
      ∀ n ∈ s.NODES.nodes, ∀ c ∈ n.children, c.addr = r.node.addr → n = parent

/-! ## The same, in the registry

The list is read through the map from addresses to entries, where an update is an update of a
function; at the end it is read back. -/

/-- The node registered at `b` has the nonzero address `a` in its child table. -/
def Registry.Owns (m : Registry) (b a : UInt16) : Prop :=
  ∃ e, m b = some e ∧ ∃ c ∈ e.children, c.addr = a ∧ a ≠ 0

/-- A two-hop node is registered at `a`, with parent `b`. -/
def Registry.ChildOf (m : Registry) (a b : UInt16) : Prop :=
  ∃ d, m a = some d ∧ d.genInfo.type = .twohop ∧ d.parrentAddr = b

/-- A two-level forest. -/
structure Registry.TwoLevel (m : Registry) : Prop where
  owner_onehop : ∀ b a, m.Owns b a → m.Is b .onehop
  child_twohop : ∀ b a, m.Owns b a → m.ChildOf a b

variable {m : Registry} {n parent parent' : MngtNode} {a b : UInt16}

theorem Registry.Owns.ne_zero (h : m.Owns b a) : a ≠ 0 := by
  obtain ⟨-, -, -, -, -, h0⟩ := h
  exact h0

/-- No child has two owners: it names its owner itself. -/
theorem Registry.ChildOf.unique {b' : UInt16} (h : m.ChildOf a b) (h' : m.ChildOf a b') :
    b = b' := by
  obtain ⟨d, hd, -, rfl⟩ := h
  obtain ⟨d', hd', -, rfl⟩ := h'
  rw [Option.some.inj (hd.symm.trans hd')]

theorem Registry.Is.not_childOf (h : m.Is a .onehop) : ¬ m.ChildOf a b := by
  rintro ⟨d, hd, htype, -⟩
  obtain ⟨e, he, he'⟩ := h
  rw [Option.some.inj (he.symm.trans hd), htype] at he'
  exact absurd he' (by decide)

theorem Registry.TwoLevel.not_owns_self (h : m.TwoLevel) : ¬ m.Owns a a := fun hown =>
  (h.owner_onehop a a hown).not_childOf (h.child_twohop a a hown)

/-! ## A fresh node

A one-hop node that registers gets an entry without children, so what it owned before is nobody's.
-/

/-- A fresh node owns nobody, and the others own whom they owned. -/
theorem Registry.owns_update (hn : n.Fresh) :
    Owns (update m n.addr (some n)) b a ↔ b ≠ n.addr ∧ m.Owns b a := by
  rw [Owns, exists_update]
  refine or_iff_right ?_
  rintro ⟨-, c, hc, rfl, h0⟩
  exact h0 (congrArg Child.addr (hn.child_eq hc))

theorem Registry.childOf_update :
    ChildOf (update m n.addr (some n)) a b ↔
      a = n.addr ∧ (n.genInfo.type = .twohop ∧ n.parrentAddr = b) ∨ a ≠ n.addr ∧ m.ChildOf a b :=
  exists_update

/-! ## A parent that takes a child in

The child is written in a cell of its own, or in an empty one; with no cell left it is refused. -/

/-- The parent owns the child, and what it owned before. -/
theorem owns_dmAddChildToNode (hadd : dmAddChildToNode parent n = some parent') :
    (∃ c ∈ parent'.children, c.addr = a ∧ a ≠ 0) ↔
      (∃ c ∈ parent.children, c.addr = a ∧ a ≠ 0) ∨ a = n.addr ∧ a ≠ 0 := by
  constructor
  · rintro ⟨c, hc, rfl, h0⟩
    rcases mem_children_of_dmAddChildToNode hadd hc with rfl | hc
    · exact Or.inr ⟨rfl, h0⟩
    · exact Or.inl ⟨c, hc, rfl, h0⟩
  · have hset : ∀ i : Fin twohopMaxNboChildren,
        (parent.children[i].addr = n.addr ∨ parent.children[i].addr = 0) →
        ((∃ c ∈ parent.children, c.addr = a ∧ a ≠ 0) ∨ a = n.addr ∧ a ≠ 0) →
        ∃ c ∈ parent.children.set i n.asChild, c.addr = a ∧ a ≠ 0 := by
      rintro i hi (⟨c, hc, rfl, h0⟩ | ⟨rfl, h0⟩)
      · obtain ⟨j, rfl⟩ := Table.mem_iff_getElem.mp hc
        rcases eq_or_ne j i with rfl | hj
        · exact ⟨n.asChild, Table.mem_set.mpr (Or.inl rfl), (hi.resolve_right h0).symm, h0⟩
        · exact ⟨_, Table.mem_set.mpr (Or.inr ⟨j, hj, rfl⟩), rfl, h0⟩
      · exact ⟨n.asChild, Table.mem_set.mpr (Or.inl rfl), rfl, h0⟩
    obtain ⟨i, ⟨hi, rfl⟩ | ⟨hi, -, rfl⟩⟩ := dmAddChildToNode_some hadd
    · exact hset i (Or.inl hi)
    · exact hset i (Or.inr hi)

variable (hparent : m n.parrentAddr = some parent)
  (hadd : dmAddChildToNode parent n = some parent')

include hparent hadd

/-- A parent that takes a child in owns that one, and those it had. -/
theorem Registry.owns_adopt :
    Owns (update m n.parrentAddr (some { parent' with schFlag := false })) b a ↔
      m.Owns b a ∨ b = n.parrentAddr ∧ a = n.addr ∧ a ≠ 0 := by
  rw [Owns, exists_update, Owns]
  change b = _ ∧ (∃ c ∈ parent'.children, c.addr = a ∧ a ≠ 0) ∨ _ ↔ _
  rw [owns_dmAddChildToNode hadd]
  constructor
  · rintro (⟨rfl, h | h⟩ | ⟨-, h⟩)
    · exact Or.inl ⟨parent, hparent, h⟩
    · exact Or.inr ⟨rfl, h⟩
    · exact Or.inl h
  · rintro (h | ⟨hb, h⟩)
    · refine (eq_or_ne b n.parrentAddr).imp (fun hb => ⟨hb, Or.inl ?_⟩) fun hb => ⟨hb, h⟩
      obtain ⟨e, he, hown⟩ := h
      rwa [Option.some.inj (hparent.symm.trans (hb ▸ he))]
    · exact Or.inl ⟨hb, Or.inr h⟩

/-- Taking a child in makes nobody a child of another. -/
theorem Registry.childOf_adopt :
    ChildOf (update m n.parrentAddr (some { parent' with schFlag := false })) a b ↔
      m.ChildOf a b := by
  obtain ⟨-, -, htype, hpar⟩ := dmAddChildToNode_frame hadd
  exact exists_update_of_iff hparent (by rw [← htype, ← hpar])

omit hparent hadd

/-! ## One registration -/

/-- What `Registration.FitsForest` says, in the registry. -/
def Registry.FitsForest (m : Registry) (n : MngtNode) : Prop :=
  match n.genInfo.type with
  | .onehop => ∀ b, ¬ m.Owns b n.addr
  | .twohop => (m.adopt n).isSome → n.addr ≠ 0 →
      m.Is n.parrentAddr .onehop ∧ ∀ b, m.Owns b n.addr → b = n.parrentAddr

/-- **A one-hop node keeps the two levels exactly if nobody has it as a child.** -/
theorem Registry.TwoLevel.register_onehop (h : m.TwoLevel) (hn : n.Fresh)
    (htype : n.genInfo.type = .onehop) :
    TwoLevel (update m n.addr (some n)) ↔ ∀ b, ¬ m.Owns b n.addr := by
  constructor
  · intro h' b hown
    have hb : b ≠ n.addr := by
      rintro rfl
      exact h.not_owns_self hown
    exact (is_update.mpr (Or.inl ⟨rfl, htype⟩)).not_childOf
      (h'.child_twohop b n.addr ((owns_update hn).mpr ⟨hb, hown⟩))
  · refine fun hfit => ⟨fun b a hown => ?_, fun b a hown => ?_⟩
    · obtain ⟨hb, hown⟩ := (owns_update hn).mp hown
      exact is_update.mpr (Or.inr ⟨hb, h.owner_onehop b a hown⟩)
    · obtain ⟨-, hown⟩ := (owns_update hn).mp hown
      refine childOf_update.mpr (Or.inr ⟨?_, h.child_twohop b a hown⟩)
      rintro rfl
      exact hfit b hown

/-- **A two-hop node does exactly if its parent is one-hop and no other has it as a child**; address
0 is never seen. -/
theorem Registry.TwoLevel.register_twohop (h : m.TwoLevel) (hn : n.Fresh)
    (htype : n.genInfo.type = .twohop) (hparent : m n.parrentAddr = some parent)
    (hadd : dmAddChildToNode parent n = some parent') :
    TwoLevel (update (update m n.parrentAddr (some { parent' with schFlag := false })) n.addr
      (some n)) ↔
      (n.addr ≠ 0 → m.Is n.parrentAddr .onehop ∧ ∀ b, m.Owns b n.addr → b = n.parrentAddr) := by
  have hne := hn.parrentAddr_ne htype
  constructor
  · intro h' h0
    have hnew := (owns_update hn).mpr
      ⟨hne, (owns_adopt hparent hadd).mpr (Or.inr ⟨rfl, rfl, h0⟩)⟩
    refine ⟨?_, fun b hown => ?_⟩
    · obtain ⟨heq, -⟩ | ⟨-, his⟩ := is_update.mp (h'.owner_onehop _ _ hnew)
      · exact absurd heq hne
      · exact (is_adopt hparent hadd).mp his
    · have hb : b ≠ n.addr := by
        rintro rfl
        exact h.not_owns_self hown
      exact (h'.child_twohop b _ ((owns_update hn).mpr
        ⟨hb, (owns_adopt hparent hadd).mpr (Or.inl hown)⟩)).unique (h'.child_twohop _ _ hnew)
  · refine fun hfit => ⟨fun b a hown => ?_, fun b a hown => ?_⟩
    · obtain ⟨hb, hown⟩ := (owns_update hn).mp hown
      refine is_update.mpr (Or.inr ⟨hb, (is_adopt hparent hadd).mpr ?_⟩)
      obtain hown | ⟨rfl, rfl, h0⟩ := (owns_adopt hparent hadd).mp hown
      · exact h.owner_onehop b a hown
      · exact (hfit h0).1
    · obtain ⟨hb, hown⟩ := (owns_update hn).mp hown
      rcases eq_or_ne a n.addr with rfl | ha
      · have hb' : b = n.parrentAddr := by
          obtain hown | ⟨hb', -⟩ := (owns_adopt hparent hadd).mp hown
          · exact (hfit hown.ne_zero).2 b hown
          · exact hb'
        exact childOf_update.mpr (Or.inl ⟨rfl, htype, hb'.symm⟩)
      · refine childOf_update.mpr (Or.inr ⟨ha, (childOf_adopt hparent hadd).mpr ?_⟩)
        obtain hown | ⟨-, ha', -⟩ := (owns_adopt hparent hadd).mp hown
        · exact h.child_twohop b a hown
        · exact absurd ha' ha

/-- **When one registration keeps the forest.** -/
theorem Registry.TwoLevel.register_iff (h : m.TwoLevel) (hn : n.Fresh) :
    (m.register n).TwoLevel ↔ m.FitsForest n := by
  rw [FitsForest]
  obtain ⟨htype, heq⟩ | ⟨parent, parent', htype, hparent, hadd, heq⟩ | ⟨htype, hnone, heq⟩ :=
    register_cases m n
  · rw [heq, htype]
    exact h.register_onehop hn htype
  · have hsome : (m.adopt n).isSome := by rw [adopt, hparent, Option.bind_some, hadd]; rfl
    rw [heq, htype, h.register_twohop hn htype hparent hadd]
    exact ⟨fun hfit _ => hfit, fun hfit => hfit hsome⟩
  · rw [heq, htype, hnone]
    exact iff_of_true h fun hsome => absurd hsome (by simp)

/-! ## The same, in the list -/

section List

variable {lst : MngtNodeList} (hd : lst.Distinct)

include hd

/-- Who owns whom is told by the child tables of the list. -/
theorem owns_registry :
    lst.registry.Owns b a ↔ ∃ n ∈ lst.nodes, n.addr = b ∧ ∃ c ∈ n.children, c.addr = a ∧ a ≠ 0 :=
  hd.exists_registry_iff fun _ => Iff.rfl

theorem is_registry {type : NodeType} :
    lst.registry.Is b type ↔ ∃ n ∈ lst.nodes, n.addr = b ∧ n.genInfo.type = type :=
  hd.exists_registry_iff fun _ => Iff.rfl

theorem childOf_registry :
    lst.registry.ChildOf a b ↔
      ∃ n ∈ lst.nodes, n.addr = a ∧ n.genInfo.type = .twohop ∧ n.parrentAddr = b :=
  hd.exists_registry_iff fun _ => Iff.rfl

/-- The entries of a list are told apart by their addresses. -/
theorem MngtNodeList.Distinct.eq_of_addr {n n' : MngtNode} (hn : n ∈ lst.nodes)
    (hn' : n' ∈ lst.nodes) (h : n.addr = n'.addr) : n = n' :=
  List.inj_on_of_nodup_map hd hn hn' h

/-- The registry has two levels exactly if the list has. -/
theorem twoLevel_registry : lst.registry.TwoLevel ↔ TwoLevel lst.nodes := by
  constructor
  · intro h
    have hown : ∀ n ∈ lst.nodes, ∀ c ∈ n.children, c.addr ≠ 0 →
        lst.registry.Owns n.addr c.addr := fun n hn c hc h0 =>
      (owns_registry hd).mpr ⟨n, hn, rfl, c, hc, rfl, h0⟩
    refine ⟨fun n hn c hc h0 => ?_, fun n hn c hc h0 => ?_,
      fun n hn n' hn' c hc c' hc' h0 heq => ?_⟩
    · obtain ⟨n', hn', haddr, htype⟩ :=
        (is_registry hd).mp (h.owner_onehop _ _ (hown n hn c hc h0))
      rwa [hd.eq_of_addr hn hn' haddr.symm]
    · exact (childOf_registry hd).mp (h.child_twohop _ _ (hown n hn c hc h0))
    · exact hd.eq_of_addr hn hn' ((h.child_twohop _ _ (hown n hn c hc h0)).unique
        (heq ▸ h.child_twohop _ _ (hown n' hn' c' hc' (heq ▸ h0))))
  · refine fun h => ⟨fun b a hown => ?_, fun b a hown => ?_⟩
    · obtain ⟨n, hn, haddr, c, hc, rfl, h0⟩ := (owns_registry hd).mp hown
      exact (is_registry hd).mpr ⟨n, hn, haddr, h.owner_onehop n hn c hc h0⟩
    · obtain ⟨n, hn, rfl, c, hc, rfl, h0⟩ := (owns_registry hd).mp hown
      exact (childOf_registry hd).mpr (h.child_twohop n hn c hc h0)

end List

/-- Whether a registration fits is told by the registry. -/
theorem fitsForest_registry {s : Mac} (hd : s.NODES.Distinct) (r : Registration) :
    s.NODES.registry.FitsForest r.node ↔ r.FitsForest s := by
  rw [Registry.FitsForest, Registration.FitsForest]
  cases r.node.genInfo.type with
  | onehop =>
    constructor
    · exact fun h n hn c hc h0 heq =>
        h n.addr ((owns_registry hd).mpr ⟨n, hn, rfl, c, hc, heq, heq ▸ h0⟩)
    · intro h b hown
      obtain ⟨n, hn, -, c, hc, heq, h0⟩ := (owns_registry hd).mp hown
      exact h n hn c hc (heq ▸ h0) heq
  | twohop =>
    have hadopt : (s.NODES.registry.adopt r.node).isSome ↔ ∃ parent ∈ s.NODES.nodes,
        parent.addr = r.node.parrentAddr ∧ parent.HasRoomFor r.node.addr :=
      Registry.isSome_adopt.trans (hd.exists_registry_iff fun _ => Iff.rfl)
    constructor
    · intro h parent hmem haddr hroom h0
      obtain ⟨his, honly⟩ := h (hadopt.mpr ⟨parent, hmem, haddr, hroom⟩) h0
      obtain ⟨n, hn, hn', htype⟩ := (is_registry hd).mp his
      refine ⟨?_, fun n' hn' c hc heq => hd.eq_of_addr hn' hmem ?_⟩
      · rwa [hd.eq_of_addr hmem hn (haddr.trans hn'.symm)]
      · exact (honly _ ((owns_registry hd).mpr ⟨n', hn', rfl, c, hc, heq, h0⟩)).trans haddr.symm
    · intro h hsome h0
      obtain ⟨parent, hmem, haddr, hroom⟩ := hadopt.mp hsome
      obtain ⟨htype, honly⟩ := h parent hmem haddr hroom h0
      refine ⟨(is_registry hd).mpr ⟨parent, hmem, haddr, htype⟩, fun b hown => ?_⟩
      obtain ⟨n, hn, rfl, c, hc, heq, -⟩ := (owns_registry hd).mp hown
      rw [honly n hn c hc heq, haddr]

/-! ## Any history -/

/-- Two nodes register, then a third as a child of each. -/
theorem not_twoLevel_moved :
    ¬ Runs.Always Mac.register (fun s => TwoLevel s.NODES.nodes)
      (twohopLoRaMacInit macDefaults)
      [.itself (.ofBits 1 0), .itself (.ofBits 2 0), .listed (.ofBits 3 0) 1,
        .listed (.ofBits 3 0) 2] := by
  refine Runs.not_always_of_last (fun s => ∀ n ∈ s.NODES.nodes, ∀ n' ∈ s.NODES.nodes,
    ∀ c ∈ n.children, ∀ c' ∈ n'.children, c.addr ≠ 0 → c.addr = c'.addr → n = n')
    (fun s h => h.owner_unique) (by decide +kernel)

/-- **NODES encodes a two-level forest all along a history of registrations exactly if each of them
finds its node where it fits.** -/
theorem twoLevel_run_iff (p : MacParams) (rs : List Registration) :
    Runs.Always Mac.register (fun s => TwoLevel s.NODES.nodes) (twohopLoRaMacInit p) rs ↔
      Runs.EachStep Mac.register (fun s r => r.FitsForest s) (twohopLoRaMacInit p) rs := by
  refine Runs.always_iff_eachStep (I := fun s => s.NODES.Sound) (fun s r hs hQ => ?_)
    (sound_initNodeList true) ⟨by simp [twohopLoRaMacInit, initNodeList],
      by simp [twohopLoRaMacInit, initNodeList], by simp [twohopLoRaMacInit, initNodeList]⟩ rs
  obtain ⟨s', hs', hsound, hreg, -, -⟩ := Mac.register_spec hs r
  refine ⟨s', hs', ?_, fun _ => hsound⟩
  rw [← twoLevel_registry hsound.distinct, hreg,
    ((twoLevel_registry hs.distinct).mpr hQ).register_iff r.fresh_node,
    fitsForest_registry hs.distinct]

end LoRaGwSv
