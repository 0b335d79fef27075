import LoRaGwSv.Server.Counters
import LoRaGwSv.Server.ScheduleLinks

/-!
# Server/ScheduleRefines — histories of a schedule list in memory

A call on the links of a schedule list does what `Server/ScheduleMngt` does with the list, as long
as `malloc` yields a cell (`Holds.refines`).  So does a whole history (`refines_run`): it follows no
pointer that leads nowhere, it ends, and what is known of the histories of a schedule list is known
of its links.
-/

namespace LoRaGwSv

open Chain Chain.Store
open Heap (first first_append first_cons first_nil)

namespace ScheduleLinks

variable {list : ScheduleLinks} {cells pre post : List (ℕ × SchNode)} {p : ℕ} {node x : SchNode}
  {addr : UInt16} {store : Store SchNode}

theorem holds_smInitSchedule (T : UInt32) (store : Store SchNode) :
    (smInitSchedule T store).Holds [] := ⟨rfl, trivial, List.nodup_nil⟩

/-! ## Searching an address -/

/-- What the list search finds is what a cell holds. -/
theorem lookup_list (list : ScheduleLinks) (cells : List (ℕ × SchNode)) (addr : UInt16) :
    Keyed.lookup SchNode.addr addr (list.list cells).nodes
      = (Keyed.lookup cellAddr addr cells).map Prod.snd :=
  Keyed.lookup_map (fun _ => rfl) cells

/-- Taking an entry out of the list takes its cell out of the links. -/
theorem erase_list (list : ScheduleLinks) (cells : List (ℕ × SchNode)) (addr : UInt16) :
    Keyed.erase SchNode.addr addr (list.list cells).nodes
      = (Keyed.erase cellAddr addr cells).map Prod.snd :=
  Keyed.erase_map (fun _ => rfl) cells

/-- An address that is not there is looked for to the end, and nothing is changed. -/
theorem removeLoop_none {prevNode : Heap.Pointer} (hl : Chained list.store cells none)
    (hcells : ∀ y ∈ cells, y.2.addr ≠ addr) {fuel : ℕ} (hfuel : cells.length ≤ fuel) :
    list.removeLoop addr fuel prevNode (first cells none) = some list := by
  induction cells generalizing prevNode fuel with
  | nil => rw [first_nil, removeLoop]
  | cons y cells ih =>
    obtain ⟨hy, hl⟩ := hl
    obtain ⟨hne, hcells⟩ := List.forall_mem_cons.mp hcells
    obtain ⟨fuel, rfl⟩ := Nat.exists_eq_add_of_le' (Nat.succ_le_of_lt (Nat.zero_lt_of_lt hfuel))
    rw [first_cons, removeLoop, hy]
    exact (if_neg hne).trans (ih hl hcells (Nat.le_of_succ_le_succ hfuel))

theorem setLoop_none {k : UInt8} (hl : Chained list.store cells none)
    (hcells : ∀ y ∈ cells, y.2.addr ≠ addr) {fuel : ℕ} (hfuel : cells.length ≤ fuel) :
    list.setLoop addr k fuel (first cells none) = some list := by
  induction cells generalizing fuel with
  | nil => rw [first_nil, setLoop]
  | cons y cells ih =>
    obtain ⟨hy, hl⟩ := hl
    obtain ⟨hne, hcells⟩ := List.forall_mem_cons.mp hcells
    obtain ⟨fuel, rfl⟩ := Nat.exists_eq_add_of_le' (Nat.succ_le_of_lt (Nat.zero_lt_of_lt hfuel))
    rw [first_cons, setLoop, hy]
    exact (if_neg hne).trans (ih hl hcells (Nat.le_of_succ_le_succ hfuel))

/-! ## Each call

A call on the links ends, follows no link that leads nowhere, and leaves links that hold what the
list operation leaves. -/

/-- The links hold what the list operation leaves. -/
def Leads (list : ScheduleLinks) (lst : SchList) : Prop :=
  ∃ cells, list.Holds cells ∧ list.list cells = lst

/-- **Scheduling on the links does what it does on the list**, with the same answer. -/
theorem Holds.refines_smScheduleOneNode (h : list.Holds cells) (node : SchNode) (a : ℕ) :
    ∃ err list', list.smScheduleOneNode node (some a) = some (err, list') ∧
      err = (LoRaGwSv.smScheduleOneNode (list.list cells) node).1 ∧
      list'.Leads (LoRaGwSv.smScheduleOneNode (list.list cells) node).2 := by
  obtain ⟨p, hp⟩ : ∃ p, list.store.malloc (some a) = some p := ⟨_, rfl⟩
  rw [ScheduleLinks.smScheduleOneNode, h.smAssignLsiToNode]
  simp only [Option.bind_eq_bind, Option.bind_some]
  rcases smScheduleOneNode_cases (list.list cells) node with ⟨hzero, heq⟩ | ⟨hne, heq⟩
  · rw [if_pos hzero, heq]
    exact ⟨_, list, rfl, rfl, cells, h, rfl⟩
  · obtain ⟨list', pre, post, e, rfl, hadd⟩ := h.smAddNodeToScheduleList hp
      { node with startLSI := LoRaGwSv.smAssignLsiToNode (list.list cells) node.slotDemand }
    rw [if_neg hne, e, Option.bind_some, if_neg (by simp), heq]
    exact ⟨_, list', rfl, rfl, _, hadd.holds, hadd.list_eq⟩

/-- **So does removing.** -/
theorem Holds.refines_smRemoveOneNode (h : list.Holds cells) (addr : UInt16) :
    ∃ list', list.smRemoveOneNode addr = some list' ∧
      list'.Leads (LoRaGwSv.smRemoveOneNode (list.list cells) addr) := by
  have hlookup := lookup_list list cells addr
  rw [LoRaGwSv.smRemoveOneNode]
  cases hfound : Keyed.lookup cellAddr addr cells with
  | none =>
    rw [hfound, Option.map_none] at hlookup
    rw [hlookup, ScheduleLinks.smRemoveOneNode, h.head_eq,
      removeLoop_none h.chained (Keyed.lookup_eq_none.mp hfound) h.length_le_top]
    exact ⟨list, rfl, cells, h, rfl⟩
  | some y =>
    obtain ⟨p, x⟩ := y
    obtain ⟨pre, post, rfl, hpre, (rfl : x.addr = addr)⟩ := Keyed.exists_of_lookup hfound
    rw [hfound, Option.map_some] at hlookup
    obtain ⟨list', e, hrem⟩ := h.smRemoveOneNode hpre
    refine ⟨list', e, pre ++ post, hrem.holds, ?_⟩
    have herase : Keyed.erase SchNode.addr x.addr (list.list (pre ++ (p, x) :: post)).nodes
        = (pre ++ post).map Prod.snd := by
      rw [erase_list, Keyed.erase_place hpre rfl]
    rw [hlookup, hrem.fields_eq]
    simp only [herase]
    rfl

/-- By induction over the list: each turn gives the first cell back. -/
theorem clearLoop_eq (h : list.Holds cells) {fuel : ℕ} (hfuel : cells.length ≤ fuel) :
    ∃ store, clearLoop fuel list = some { list with head := none, store := store } := by
  induction cells generalizing list fuel with
  | nil =>
    have hhead : list.head = none := h.head_eq
    refine ⟨list.store, ?_⟩
    cases fuel with
    | zero => rw [clearLoop, hhead]; simp [← hhead]
    | succ fuel => rw [clearLoop, hhead]; simp [← hhead]
  | cons y cells ih =>
    obtain ⟨fuel, rfl⟩ := Nat.exists_eq_add_of_le' (Nat.succ_le_of_lt (Nat.zero_lt_of_lt hfuel))
    obtain ⟨hy, hl⟩ := h.chained
    obtain ⟨hynot, hnodup⟩ := List.nodup_cons.mp (List.map_cons ▸ h.nodup)
    have hrest : Holds { list with
        head := first cells none
        store := list.store.free y.1 } cells := ⟨rfl, hl.free hynot, hnodup⟩
    obtain ⟨store, e⟩ := ih hrest (Nat.le_of_succ_le_succ hfuel)
    refine ⟨store, ?_⟩
    rw [clearLoop, h.head_eq, first_cons]
    simp only [Option.bind_eq_bind, hy, Option.bind_some]
    exact e

/-- **So does clearing.** -/
theorem Holds.refines_smClearSchedule (h : list.Holds cells) :
    ∃ list', list.smClearSchedule = some list' ∧
      list'.Leads (LoRaGwSv.smClearSchedule (list.list cells)) := by
  obtain ⟨store, e⟩ := clearLoop_eq h h.length_le_top
  rw [ScheduleLinks.smClearSchedule, e]
  exact ⟨_, rfl, [], ⟨rfl, trivial, List.nodup_nil⟩, rfl⟩

/-- The loop goes past the entries with other addresses and rewrites the one it finds. -/
theorem setLoop_some {k : UInt8} (hl : Chained list.store (pre ++ (p, x) :: post) none)
    (hpre : ∀ y ∈ pre, y.2.addr ≠ x.addr) {fuel : ℕ} (hfuel : pre.length < fuel) :
    list.setLoop x.addr k fuel (first (pre ++ (p, x) :: post) none)
      = some { list with
        nboDistReq := list.distReq x k
        store := list.store.write p ⟨{ x with nboSchDist := k.toUInt16 }, first post none⟩ } := by
  obtain ⟨fuel, rfl⟩ := Nat.exists_eq_add_of_le' (Nat.succ_le_of_lt (Nat.zero_lt_of_lt hfuel))
  induction pre generalizing fuel with
  | nil =>
    rw [List.nil_append, first_cons, setLoop, hl.1]
    exact if_pos rfl
  | cons y pre ih =>
    obtain ⟨hy, hpre⟩ := List.forall_mem_cons.mp hpre
    obtain ⟨fuel, rfl⟩ := Nat.exists_eq_add_of_le' (Nat.le_of_lt_succ
      (Nat.lt_of_le_of_lt (Nat.succ_le_succ (Nat.zero_le pre.length)) hfuel))
    rw [List.cons_append, first_cons, setLoop, hl.1]
    exact (if_neg hy).trans (ih hl.2 hpre fuel (Nat.lt_of_succ_lt_succ hfuel))

/-- **So does setting a number.** -/
theorem Holds.refines_smNodeSetNboSchDist (h : list.Holds cells) (addr : UInt16) (k : UInt8) :
    ∃ list', list.smNodeSetNboSchDist addr k = some list' ∧
      list'.Leads (LoRaGwSv.smNodeSetNboSchDist (list.list cells) addr k) := by
  have hlookup := lookup_list list cells addr
  rw [ScheduleLinks.smNodeSetNboSchDist, h.head_eq]
  cases hfound : Keyed.lookup cellAddr addr cells with
  | none =>
    rw [hfound, Option.map_none] at hlookup
    rw [setLoop_none h.chained (Keyed.lookup_eq_none.mp hfound) h.length_le_top,
      LoRaGwSv.smNodeSetNboSchDist, hlookup]
    exact ⟨list, rfl, cells, h, rfl⟩
  | some y =>
    obtain ⟨p, x⟩ := y
    obtain ⟨pre, post, rfl, hpre, (rfl : x.addr = addr)⟩ := Keyed.exists_of_lookup hfound
    rw [hfound, Option.map_some] at hlookup
    rw [setLoop_some h.chained hpre h.length_lt_top]
    refine ⟨_, rfl, pre ++ (p, { x with nboSchDist := k.toUInt16 }) :: post, ?_, ?_⟩
    · exact
        { head_eq := by rw [h.head_eq, first_append, first_append, first_cons, first_cons]
          chained := h.chained.setVal h.nodup _
          nodup := by simpa using h.nodup }
    · have hupdate : Keyed.update SchNode.addr x.addr
          (fun n => { n with nboSchDist := k.toUInt16 }) (list.list (pre ++ (p, x) :: post)).nodes
          = (pre ++ (p, { x with nboSchDist := k.toUInt16 }) :: post).map Prod.snd := by
        rw [ScheduleLinks.list, List.map_append, List.map_cons,
          Keyed.update_place _ (by simpa using fun b n hb => hpre (n, b) hb) rfl, List.map_append,
          List.map_cons]
      rw [LoRaGwSv.smNodeSetNboSchDist, hlookup]
      simp only [hupdate]
      rfl

/-! ## Histories -/

/-- The links a call leaves, with where `malloc` proposes to put an entry. -/
def step (list : ScheduleLinks) : SmOp × ℕ → Option ScheduleLinks
  | (.scheduleOneNode node, proposed) =>
    (list.smScheduleOneNode node (some proposed)).map Prod.snd
  | (.removeOneNode addr, _) => list.smRemoveOneNode addr
  | (.nodeSetNboSchDist addr nboSchDist, _) => list.smNodeSetNboSchDist addr nboSchDist
  | (.clearSchedule, _) => list.smClearSchedule

/-- **A call on the links does what it does with the list.** -/
theorem Holds.refines (h : list.Holds cells) (op : SmOp) (proposed : ℕ) :
    ∃ list' lst, list.step (op, proposed) = some list' ∧ op.step (list.list cells) = some lst ∧
      list'.Leads lst := by
  cases op with
  | scheduleOneNode node =>
    obtain ⟨err, list', e, -, hleads⟩ := h.refines_smScheduleOneNode node proposed
    exact ⟨list', _, by rw [step, e, Option.map_some], rfl, hleads⟩
  | removeOneNode addr =>
    obtain ⟨list', e, hleads⟩ := h.refines_smRemoveOneNode addr
    exact ⟨list', _, e, rfl, hleads⟩
  | nodeSetNboSchDist addr k =>
    obtain ⟨list', e, hleads⟩ := h.refines_smNodeSetNboSchDist addr k
    exact ⟨list', _, e, rfl, hleads⟩
  | clearSchedule =>
    obtain ⟨list', e, hleads⟩ := h.refines_smClearSchedule
    exact ⟨list', _, e, rfl, hleads⟩

theorem Leads.step {list : ScheduleLinks} {lst : SchList} (h : list.Leads lst) (call : SmOp × ℕ) :
    ∃ list' lst', list.step call = some list' ∧ call.1.step lst = some lst' ∧ list'.Leads lst' := by
  obtain ⟨cells, h, rfl⟩ := h
  exact h.refines call.1 call.2

/-- **A history of the links is a history of the list**, and it ends. -/
theorem refines_run (T : UInt32) (store : Store SchNode) (calls : List (SmOp × ℕ)) :
    ∃ list lst, Runs.run step (smInitSchedule T store) calls = some list ∧
      Runs.run SmOp.step (LoRaGwSv.smInitSchedule T) (calls.map Prod.fst) = some lst ∧
      list.Leads lst :=
  Runs.run_of_simulates (R := Leads) (fun _ _ call h => h.step call)
    ⟨[], holds_smInitSchedule T store, rfl⟩ calls

end ScheduleLinks

end LoRaGwSv
