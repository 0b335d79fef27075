import Mathlib.Data.List.Basic
import Mathlib.Logic.Function.Basic

/-!
# Machinery/Heap — doubly linked lists in memory

A `Heap` is what the allocated addresses hold, a null pointer being `none`.  `Linked h prev l next`
says that from its first cell on the heap holds the list `l`, linked both ways, between a cell
`prev` and a cell `next`.

* `linked_append` — lists are linked together piece by piece.
* `Linked.congr` — writing elsewhere leaves a list alone.
* `Linked.concat`, `Linked.tail` — a cell is appended at the end, and taken away at the front.
-/

/-- An address, or null. -/
abbrev Heap.Pointer : Type := Option ℕ

/-- A cell of a doubly linked list. -/
structure Heap.Cell (α : Type*) where
  val : α
  next : Heap.Pointer
  prev : Heap.Pointer
deriving DecidableEq, Repr

/-- Allocated memory: from `top` on every address is free. -/
structure Heap (α : Type*) where
  cells : ℕ → Option (Heap.Cell α)
  top : ℕ
  free_top : ∀ p, top ≤ p → cells p = none

namespace Heap

variable {α : Type*} {h h' : Heap α} {p q : ℕ} {c : Cell α} {prev next : Pointer}
  {l l₁ l₂ : List (ℕ × α)}

/-- No cell is in use. -/
def empty : Heap α := ⟨fun _ => none, 0, fun _ _ => rfl⟩

/-- A free address: the one proposed, if it is free. -/
def malloc (h : Heap α) (proposed : ℕ) : ℕ :=
  if (h.cells proposed).isNone then proposed else h.top

/-- Write a cell. -/
def write (h : Heap α) (p : ℕ) (c : Cell α) : Heap α where
  cells := Function.update h.cells p (some c)
  top := max h.top (p + 1)
  free_top q hq := by
    rw [Function.update_of_ne (by omega)]
    exact h.free_top q (by omega)

/-- Give a cell back. -/
def free (h : Heap α) (p : ℕ) : Heap α where
  cells := Function.update h.cells p none
  top := h.top
  free_top q hq := by
    rw [Function.update_apply]
    split
    · rfl
    · exact h.free_top q hq

/-- `malloc` yields an address that is not in use. -/
theorem cells_malloc (h : Heap α) (proposed : ℕ) : h.cells (h.malloc proposed) = none := by
  rw [malloc]
  split
  case isTrue hfree => exact Option.isNone_iff_eq_none.mp hfree
  case isFalse => exact h.free_top _ (Nat.le_refl _)

@[simp] theorem cells_write_self : (h.write p c).cells p = some c := Function.update_self ..

theorem cells_write_of_ne (hne : q ≠ p) : (h.write p c).cells q = h.cells q :=
  Function.update_of_ne hne ..

@[simp] theorem cells_free_self : (h.free p).cells p = none := Function.update_self ..

theorem cells_free_of_ne (hne : q ≠ p) : (h.free p).cells q = h.cells q :=
  Function.update_of_ne hne ..

/-! ## Linked lists

A list is given by its cells, each with its address, and by what comes before and after it.  So a
piece of a list is a list, too, and what happens to a list is said by taking it apart and putting it
together again. -/

/-- The first cell of a list that goes on with `next`. -/
def first (l : List (ℕ × α)) (next : Pointer) : Pointer := (l.head?.map Prod.fst).or next

/-- The last cell of a list that comes after `prev`. -/
def last (prev : Pointer) (l : List (ℕ × α)) : Pointer := (l.getLast?.map Prod.fst).or prev

/-- The heap holds the list, between the cells `prev` and `next`. -/
def Linked (h : Heap α) (prev : Pointer) : List (ℕ × α) → Pointer → Prop
  | [], _ => True
  | (p, x) :: l, next => h.cells p = some ⟨x, first l next, prev⟩ ∧ Linked h (some p) l next

@[simp] theorem first_nil : first ([] : List (ℕ × α)) next = next := rfl

@[simp] theorem first_cons {x : ℕ × α} : first (x :: l) next = some x.1 := rfl

@[simp] theorem last_nil : last prev ([] : List (ℕ × α)) = prev := rfl

/-- The first of two lists one after the other is that of the first one, if it has any. -/
theorem first_append : first (l₁ ++ l₂) next = first l₁ (first l₂ next) := by
  rw [first, first, first, List.head?_append, Option.map_or, Option.or_assoc]

/-- The first cell of a list that has one does not depend on what comes next. -/
theorem first_eq_some (hfirst : first l none = some p) : first l next = some p := by
  rw [first, Option.or_none] at hfirst
  rw [first, hfirst, Option.some_or]

/-- The last of a list is the last behind its head. -/
theorem last_cons {x : ℕ × α} : last prev (x :: l) = last (some x.1) l := by
  cases l with
  | nil => rfl
  | cons y l => simp [last, List.getLast?_cons]

@[simp] theorem last_concat {x : ℕ × α} : last prev (l ++ [x]) = some x.1 := by
  simp [last]

@[simp] theorem linked_nil : h.Linked prev [] next := trivial

/-- A linked list begins with a cell that is linked both ways. -/
theorem linked_cons {x : α} : h.Linked prev ((p, x) :: l) next ↔
    h.cells p = some ⟨x, first l next, prev⟩ ∧ h.Linked (some p) l next := Iff.rfl

/-- **Lists are linked together piece by piece.** -/
theorem linked_append : h.Linked prev (l₁ ++ l₂) next ↔
    h.Linked prev l₁ (first l₂ next) ∧ h.Linked (last prev l₁) l₂ next := by
  induction l₁ generalizing prev with
  | nil => exact (and_iff_right trivial).symm
  | cons x l₁ ih =>
    rw [List.cons_append, linked_cons, linked_cons, ih, first_append, last_cons, and_assoc]

/-- A list only depends on its own cells. -/
theorem Linked.congr (hl : h.Linked prev l next)
    (heq : ∀ p ∈ l.map Prod.fst, h'.cells p = h.cells p) : h'.Linked prev l next := by
  induction l generalizing prev with
  | nil => trivial
  | cons x l ih =>
    obtain ⟨hx, hl⟩ := hl
    obtain ⟨hp, heq⟩ := List.forall_mem_cons.mp (List.map_cons ▸ heq)
    exact ⟨hp.trans hx, ih hl heq⟩

/-- Writing to a cell outside a list keeps it. -/
theorem Linked.write (hl : h.Linked prev l next) (hp : p ∉ l.map Prod.fst) :
    (h.write p c).Linked prev l next :=
  hl.congr fun _ hq => cells_write_of_ne fun heq => hp (heq ▸ hq)

/-- Giving back a cell outside a list keeps the list. -/
theorem Linked.free (hl : h.Linked prev l next) (hp : p ∉ l.map Prod.fst) :
    (h.free p).Linked prev l next :=
  hl.congr fun _ hq => cells_free_of_ne fun heq => hp (heq ▸ hq)

theorem Linked.ne_none (hl : h.Linked prev l next) (hp : p ∈ l.map Prod.fst) :
    h.cells p ≠ none := by
  induction l generalizing prev with
  | nil => simp at hp
  | cons x l ih =>
    obtain ⟨hx, hl⟩ := hl
    rcases List.mem_cons.mp (List.map_cons ▸ hp) with rfl | hp
    · rw [hx]
      simp
    · exact ih hl hp

theorem Linked.cells_last {x : α} (hl : h.Linked prev (l ++ [(p, x)]) next) :
    h.cells p = some ⟨x, next, last prev l⟩ := (linked_append.mp hl).2.1

/-- **A cell is appended at the end**: the link of the last one is turned to a cell that is free. -/
theorem Linked.concat {x y : α} (hl : h.Linked prev (l ++ [(p, x)]) none)
    (hnodup : ((l ++ [(p, x)]).map Prod.fst).Nodup) (hq : h.cells q = none) :
    ((h.write p ⟨x, some q, last prev l⟩).write q ⟨y, none, some p⟩).Linked prev
      (l ++ [(p, x)] ++ [(q, y)]) none := by
  have hpl : p ∉ l.map Prod.fst := by
    rw [List.map_append, List.nodup_append] at hnodup
    exact fun hmem => hnodup.2.2 p hmem p (by simp) rfl
  have hql : q ∉ (l ++ [(p, x)]).map Prod.fst := fun hmem => hl.ne_none hmem hq
  obtain ⟨hqp, hql⟩ : p ≠ q ∧ q ∉ l.map Prod.fst := by
    simp only [List.map_append, List.mem_append, not_or] at hql
    exact ⟨fun heq => hql.2 (by simp [heq]), hql.1⟩
  obtain ⟨hinit, -⟩ := linked_append.mp hl
  refine linked_append.mpr ⟨linked_append.mpr ⟨(hinit.write hpl).write hql, ?_, trivial⟩, ?_⟩
  · rw [cells_write_of_ne hqp]
    exact cells_write_self
  · rw [last_concat]
    exact ⟨cells_write_self, trivial⟩

/-- **The first cell is taken away**: the link back to it is cut and it is freed. -/
theorem Linked.tail {x y : α} (hl : h.Linked prev ((p, x) :: (q, y) :: l) next)
    (hnodup : (((p, x) :: (q, y) :: l).map Prod.fst).Nodup) :
    ((h.write q ⟨y, first l next, none⟩).free p).Linked none ((q, y) :: l) next := by
  obtain ⟨-, -, hl⟩ := hl
  obtain ⟨hp, hnodup⟩ := List.nodup_cons.mp (List.map_cons ▸ hnodup)
  obtain ⟨hq, -⟩ := List.nodup_cons.mp (List.map_cons ▸ hnodup)
  obtain ⟨hqp, hp⟩ := not_or.mp (mt List.mem_cons.mpr hp)
  refine ⟨?_, (hl.write hq).free hp⟩
  rw [cells_free_of_ne fun heq => hqp heq.symm]
  exact cells_write_self

end Heap
