import Mathlib.Data.List.Nodup
import LoRaGwSv.Machinery.Relink

/-!
# Machinery/Chain — singly linked lists in memory

A `Store` is what the allocated addresses hold, a `Link` a value with a pointer to the next one.
`Chained m l next` says that the store holds the list `l`, which goes on with `next`.

* `chained_append` — lists are chained together piece by piece.
* `Chained.insert`, `Chained.remove` — a link is put in between, and taken out.
* `Chained.cells_eq` — two stores that hold the same list, and agree elsewhere, are the same.
-/

namespace Chain

open Heap (Pointer first first_append last exists_of_last mem_of_last)

/-- A value, and where the list goes on. -/
structure Link (α : Type*) where
  val : α
  next : Pointer
deriving DecidableEq, Repr

/-- Allocated memory: from `top` on every address is free. -/
structure Store (α : Type*) where
  cells : ℕ → Option (Link α)
  top : ℕ
  free_top : ∀ p, top ≤ p → cells p = none

variable {α : Type*} {m m' : Store α} {p q : ℕ} {c : Link α} {x y : α} {next : Pointer}
  {l l₁ l₂ pre post : List (ℕ × α)}

namespace Store

/-- No cell is in use. -/
def empty : Store α := ⟨fun _ => none, 0, fun _ _ => rfl⟩

/-- `malloc` fails, or yields a free address: the one proposed, if it is free. -/
def malloc (m : Store α) (proposed : Option ℕ) : Pointer :=
  proposed.map fun p => if (m.cells p).isNone then p else m.top

/-- Write a cell. -/
def write (m : Store α) (p : ℕ) (c : Link α) : Store α where
  cells := Function.update m.cells p (some c)
  top := max m.top (p + 1)
  free_top q hq := by
    rw [Function.update_of_ne (by omega)]
    exact m.free_top q (by omega)

/-- Give a cell back. -/
def free (m : Store α) (p : ℕ) : Store α where
  cells := Function.update m.cells p none
  top := m.top
  free_top q hq := by
    rw [Function.update_apply]
    split
    · rfl
    · exact m.free_top q hq

/-- `p->next = next`; `none` if `p` points to no cell. -/
def setNext (m : Store α) (p next : Pointer) : Option (Store α) :=
  p.bind fun p => (m.cells p).map fun c => m.write p { c with next := next }

/-- `malloc` yields an address that is not in use. -/
theorem cells_malloc {proposed : Option ℕ} (hp : m.malloc proposed = some p) :
    m.cells p = none := by
  obtain ⟨a, -, rfl⟩ := Option.map_eq_some_iff.mp hp
  split
  case isTrue hfree => exact Option.isNone_iff_eq_none.mp hfree
  case isFalse => exact m.free_top _ (Nat.le_refl _)

@[simp] theorem cells_write_self : (m.write p c).cells p = some c := Function.update_self ..

theorem cells_write_of_ne (hne : q ≠ p) : (m.write p c).cells q = m.cells q :=
  Function.update_of_ne hne ..

@[simp] theorem cells_free_self : (m.free p).cells p = none := Function.update_self ..

theorem cells_free_of_ne (hne : q ≠ p) : (m.free p).cells q = m.cells q :=
  Function.update_of_ne hne ..

/-- A cell that is there can have its link set. -/
theorem setNext_eq (hc : m.cells p = some c) :
    m.setNext (some p) next = some (m.write p { c with next := next }) := by
  rw [setNext, Option.bind_some, hc, Option.map_some]

end Store

open Store

/-! ## Chained lists

A list is given by its cells and by what it goes on with.  The cells determine the links, so two
stores that agree on the list and elsewhere are one. -/

/-- The store holds the list, which goes on with `next`. -/
def Chained (m : Store α) : List (ℕ × α) → Pointer → Prop
  | [], _ => True
  | (p, x) :: l, next => m.cells p = some ⟨x, first l next⟩ ∧ Chained m l next

@[simp] theorem chained_nil : Chained m [] next := trivial

/-- A chain begins with a cell whose link leads to the rest. -/
theorem chained_cons : Chained m ((p, x) :: l) next ↔
    m.cells p = some ⟨x, first l next⟩ ∧ Chained m l next := Iff.rfl

/-- **Lists are chained together piece by piece.** -/
theorem chained_append : Chained m (l₁ ++ l₂) next ↔
    Chained m l₁ (first l₂ next) ∧ Chained m l₂ next := by
  induction l₁ with
  | nil => exact (and_iff_right trivial).symm
  | cons x l₁ ih => rw [List.cons_append, chained_cons, chained_cons, ih, first_append, and_assoc]

/-- A list only depends on its own cells. -/
theorem Chained.congr (hl : Chained m l next)
    (heq : ∀ p ∈ l.map Prod.fst, m'.cells p = m.cells p) : Chained m' l next := by
  induction l with
  | nil => trivial
  | cons x l ih =>
    obtain ⟨hx, hl⟩ := hl
    obtain ⟨hp, heq⟩ := List.forall_mem_cons.mp (List.map_cons ▸ heq)
    exact ⟨hp.trans hx, ih hl heq⟩

/-- Writing to a cell outside a chain keeps it. -/
theorem Chained.write (hl : Chained m l next) (hp : p ∉ l.map Prod.fst) :
    Chained (m.write p c) l next :=
  hl.congr fun _ hq => cells_write_of_ne fun heq => hp (heq ▸ hq)

/-- Giving back a cell outside a chain keeps the chain. -/
theorem Chained.free (hl : Chained m l next) (hp : p ∉ l.map Prod.fst) :
    Chained (m.free p) l next :=
  hl.congr fun _ hq => cells_free_of_ne fun heq => hp (heq ▸ hq)

theorem Chained.ne_none (hl : Chained m l next) (hp : p ∈ l.map Prod.fst) : m.cells p ≠ none := by
  induction l with
  | nil => simp at hp
  | cons x l ih =>
    obtain ⟨hx, hl⟩ := hl
    rcases List.mem_cons.mp (List.map_cons ▸ hp) with rfl | hp
    · rw [hx]
      simp
    · exact ih hl hp

/-- **Two stores that hold one list, and agree elsewhere, are the same.** -/
theorem Chained.cells_eq (hl : Chained m l next) (hl' : Chained m' l next)
    (heq : ∀ p ∉ l.map Prod.fst, m'.cells p = m.cells p) : m'.cells = m.cells := by
  induction l with
  | nil => exact funext fun p => heq p List.not_mem_nil
  | cons x l ih =>
    obtain ⟨hx, hl⟩ := hl
    obtain ⟨hx', hl'⟩ := hl'
    refine ih hl hl' fun p hp => ?_
    by_cases hpx : p = x.1
    · rw [hpx, hx, hx']
    · exact heq p fun hmem => (List.mem_cons.mp hmem).elim hpx hp

/-- A chained list has no more cells than there are addresses. -/
theorem Chained.length_le_top (hl : Chained m l next) (hnodup : (l.map Prod.fst).Nodup) :
    l.length ≤ m.top :=
  Heap.length_le_of_lt hnodup fun p hp =>
    Nat.lt_of_not_le fun hge => hl.ne_none hp (m.free_top p hge)

/-! ## Putting a link in, and taking one out -/

theorem Chained.setNext_last (hl : Chained m l next) (hnodup : (l.map Prod.fst).Nodup)
    (hq : last none l = some q) (next' : Pointer) :
    ∃ m', m.setNext (some q) next' = some m' ∧ Chained m' l next' ∧
      ∀ r, r ≠ q → m'.cells r = m.cells r := by
  obtain ⟨init, y, rfl⟩ := exists_of_last hq
  obtain ⟨hinit, hcell, -⟩ := chained_append.mp hl
  rw [List.map_append, List.nodup_append] at hnodup
  have hqinit : q ∉ init.map Prod.fst := fun hmem => hnodup.2.2 q hmem q (by simp) rfl
  refine ⟨_, setNext_eq hcell, ?_, fun r hr => cells_write_of_ne hr⟩
  exact chained_append.mpr ⟨hinit.write hqinit, cells_write_self, trivial⟩

theorem Chained.setVal (hl : Chained m (pre ++ (p, x) :: post) next)
    (hnodup : ((pre ++ (p, x) :: post).map Prod.fst).Nodup) (y : α) :
    Chained (m.write p ⟨y, first post next⟩) (pre ++ (p, y) :: post) next := by
  obtain ⟨hpre, -, hpost⟩ := chained_append.mp hl
  rw [List.map_append, List.map_cons, List.nodup_middle, List.nodup_cons, List.mem_append,
    not_or] at hnodup
  exact chained_append.mpr ⟨hpre.write hnodup.1.1, cells_write_self, hpost.write hnodup.1.2⟩

/-- **A link becomes the head.** -/
theorem Chained.insert_head (hl : Chained m l none) (hc : m.cells p = some c)
    (hp : p ∉ l.map Prod.fst) : ∃ m', m.setNext (some p) (first l none) = some m' ∧
      Chained m' ((p, c.val) :: l) none ∧ ∀ r, r ≠ p → m'.cells r = m.cells r :=
  ⟨_, setNext_eq hc, ⟨cells_write_self, hl.write hp⟩, fun _ hr => cells_write_of_ne hr⟩

/-- **A link is put behind another one**: first that one is turned to it, then it to what comes
next. -/
theorem Chained.insert (hl : Chained m (pre ++ post) none)
    (hnodup : ((pre ++ post).map Prod.fst).Nodup) (hc : m.cells p = some c)
    (hp : p ∉ (pre ++ post).map Prod.fst) (hq : last none pre = some q) :
    ∃ m₁ m₂, m.setNext (some q) (some p) = some m₁ ∧
      m₁.setNext (some p) (first post none) = some m₂ ∧
      Chained m₂ (pre ++ (p, c.val) :: post) none ∧
      ∀ r ∉ p :: (pre ++ post).map Prod.fst, m₂.cells r = m.cells r := by
  obtain ⟨hpre, hpost⟩ := chained_append.mp hl
  rw [List.map_append, List.nodup_append] at hnodup
  rw [List.map_append, List.mem_append, not_or] at hp
  have hqpre := mem_of_last hq
  obtain ⟨m₁, e₁, hpre₁, hframe₁⟩ := hpre.setNext_last hnodup.1 hq (some p)
  have hpost₁ : Chained m₁ post none := hpost.congr fun r hr =>
    hframe₁ r fun heq => hnodup.2.2 q hqpre r hr heq.symm
  have hc₁ : m₁.cells p = some c := (hframe₁ p fun heq => hp.1 (heq ▸ hqpre)).trans hc
  obtain ⟨m₂, e₂, hpost₂, hframe₂⟩ := hpost₁.insert_head hc₁ hp.2
  refine ⟨m₁, m₂, e₁, e₂, chained_append.mpr ⟨?_, hpost₂⟩, fun r hr => ?_⟩
  · exact hpre₁.congr fun r hr => hframe₂ r fun heq => hp.1 (heq ▸ hr)
  · rw [List.mem_cons, List.map_append, List.mem_append] at hr
    rw [hframe₂ r fun heq => hr (Or.inl heq),
      hframe₁ r fun heq => hr (Or.inr (Or.inl (heq ▸ hqpre)))]

/-- **A link is taken out from behind another one**: that one is turned to what comes next, and the
link is cut and freed. -/
theorem Chained.remove (hl : Chained m (pre ++ (p, x) :: post) none)
    (hnodup : ((pre ++ (p, x) :: post).map Prod.fst).Nodup) (hq : last none pre = some q) :
    ∃ m₁ m₂, m.setNext (some q) (first post none) = some m₁ ∧
      m₁.setNext (some p) none = some m₂ ∧ Chained (m₂.free p) (pre ++ post) none ∧
      ∀ r ∉ p :: (pre ++ post).map Prod.fst, (m₂.free p).cells r = m.cells r := by
  obtain ⟨hpre, hcell, hpost⟩ := chained_append.mp hl
  rw [List.map_append, List.map_cons, List.nodup_append, List.nodup_cons] at hnodup
  obtain ⟨hnodup, ⟨hppost, -⟩, hapart⟩ := hnodup
  have hqpre := mem_of_last hq
  have hppre : p ∉ pre.map Prod.fst := fun hmem => hapart p hmem p List.mem_cons_self rfl
  obtain ⟨m₁, e₁, hpre₁, hframe₁⟩ := hpre.setNext_last hnodup hq (first post none)
  have hpost₁ : Chained m₁ post none := hpost.congr fun r hr =>
    hframe₁ r fun heq => hapart q hqpre r (List.mem_cons_of_mem p hr) heq.symm
  have hcell₁ : m₁.cells p = _ := (hframe₁ p fun heq => hppre (heq ▸ hqpre)).trans hcell
  refine ⟨m₁, _, e₁, setNext_eq hcell₁, chained_append.mpr ⟨?_, ?_⟩, fun r hr => ?_⟩
  · exact (hpre₁.write hppre).free hppre
  · exact (hpost₁.write hppost).free hppost
  · rw [List.mem_cons, List.map_append, List.mem_append] at hr
    have hrp : r ≠ p := fun heq => hr (Or.inl heq)
    rw [cells_free_of_ne hrp, cells_write_of_ne hrp,
      hframe₁ r fun heq => hr (Or.inr (Or.inl (heq ▸ hqpre)))]

end Chain
