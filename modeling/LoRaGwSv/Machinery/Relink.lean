import Mathlib.Data.List.Induction
import Mathlib.Data.List.Nodup
import Mathlib.Data.List.Perm.Subperm
import LoRaGwSv.Machinery.Heap

/-!
# Machinery/Relink — a doubly linked list cut open at a cell

Putting a cell into a doubly linked list, or taking one out, is a few assignments to links, and
until the last of them is made the links do not agree.  `Opened h₀ h pre a p c b post` is what holds
between them: `pre` is linked up to `a`, the cell `p` holds `c`, and `post` is linked back to `b`.

* `Opened.setNext_before`, `Opened.setNext_cell`, `Opened.setPrev_cell`, `Opened.setPrev_behind` —
  each assignment turns one of the four links, and no other.
* `Opened.linked`, `Opened.unlinked` — the list with the cell, or without it, once the links agree.
* `Linked.walk_next`, `Linked.walk_prev` — what one visits following either link.
-/

namespace Heap

variable {α : Type*} {h h₀ : Heap α} {p q : ℕ} {c : Cell α} {x : α} {a b prev next : Pointer}
  {l pre post : List (ℕ × α)}

/-- `p->next = next`; `none` if `p` points to no cell. -/
def setNext (h : Heap α) (p next : Pointer) : Option (Heap α) :=
  p.bind fun p => (h.cells p).map fun c => h.write p { c with next := next }

/-- `p->prev = prev`. -/
def setPrev (h : Heap α) (p prev : Pointer) : Option (Heap α) :=
  p.bind fun p => (h.cells p).map fun c => h.write p { c with prev := prev }

/-- `if(p != NULL) p->next = next`. -/
def setNextIf (h : Heap α) (p next : Pointer) : Option (Heap α) :=
  if p.isNone then some h else h.setNext p next

/-- `if(p != NULL) p->prev = prev`. -/
def setPrevIf (h : Heap α) (p prev : Pointer) : Option (Heap α) :=
  if p.isNone then some h else h.setPrev p prev

/-- A cell that is there can have its forward link set. -/
theorem setNext_eq (hc : h.cells p = some c) :
    h.setNext (some p) next = some (h.write p { c with next := next }) := by
  rw [setNext, Option.bind_some, hc, Option.map_some]

theorem setPrev_eq (hc : h.cells p = some c) :
    h.setPrev (some p) prev = some (h.write p { c with prev := prev }) := by
  rw [setPrev, Option.bind_some, hc, Option.map_some]

theorem last_eq_none : last none l = none ↔ l = [] := by
  rw [last, Option.or_none, Option.map_eq_none_iff, List.getLast?_eq_none_iff]

/-- Only an empty list has no first cell. -/
theorem first_eq_none : first l none = none ↔ l = [] := by
  rw [first, Option.or_none, Option.map_eq_none_iff, List.head?_eq_none_iff]

/-- The last of two lists one after the other is that of the second, if it has any. -/
theorem last_append {prev : Pointer} {l₁ l₂ : List (ℕ × α)} :
    last prev (l₁ ++ l₂) = last (last prev l₁) l₂ := by
  induction l₁ generalizing prev with
  | nil => rfl
  | cons x l₁ ih => rw [List.cons_append, last_cons, last_cons, ih]

/-- What is behind a list that is not empty does not matter for its first cell. -/
theorem first_of_ne_nil (hl : l ≠ []) : first l next = first l none := by
  cases l with
  | nil => exact absurd rfl hl
  | cons x l => rfl

/-- What follows a list that has a first cell does not matter. -/
theorem first_append_of_ne_nil (hpre : pre ≠ []) : first (pre ++ l) next = first pre none := by
  rw [first_append, first_of_ne_nil hpre]

/-- What is before a list that is not empty does not matter for its last cell. -/
theorem last_of_ne_nil (hl : l ≠ []) : last prev l = last none l := by
  cases l with
  | nil => exact absurd rfl hl
  | cons x l => rw [last_cons, last_cons]

theorem exists_of_last (hlast : last none l = some p) : ∃ init x, l = init ++ [(p, x)] := by
  obtain rfl | ⟨init, ⟨q, x⟩, rfl⟩ := l.eq_nil_or_concat
  · exact absurd hlast (by simp)
  · rw [List.concat_eq_append, last_concat, Option.some.injEq] at hlast
    subst hlast
    exact ⟨init, x, List.concat_eq_append ..⟩

/-- A first cell makes a list with a head. -/
theorem exists_of_first (hfirst : first l none = some p) : ∃ x rest, l = (p, x) :: rest := by
  cases l with
  | nil => exact absurd hfirst (by simp)
  | cons y rest =>
    rw [first_cons, Option.some.injEq] at hfirst
    subst hfirst
    exact ⟨y.2, rest, rfl⟩

theorem mem_of_first (hfirst : first l none = some p) : p ∈ l.map Prod.fst := by
  obtain ⟨x, rest, rfl⟩ := exists_of_first hfirst
  exact List.mem_cons_self

theorem mem_of_last (hlast : last none l = some p) : p ∈ l.map Prod.fst := by
  obtain ⟨init, x, rfl⟩ := exists_of_last hlast
  simp

/-! ## Lists cut open -/

/-- Before the cell `p` stands the list `pre`, behind it `post`, each linked in itself: `pre` goes
on with `a`, and `post` comes after `b`.  All other cells are as in `h₀`. -/
structure Opened (h₀ h : Heap α) (pre : List (ℕ × α)) (a : Pointer) (p : ℕ) (c : Cell α)
    (b : Pointer) (post : List (ℕ × α)) : Prop where
  before : h.Linked none pre a
  cell : h.cells p = some c
  behind : h.Linked b post none
  nodup : (pre.map Prod.fst ++ p :: post.map Prod.fst).Nodup
  frame : ∀ q ∉ pre.map Prod.fst ++ p :: post.map Prod.fst, h.cells q = h₀.cells q

/-- The cell in the middle is on neither side. -/
theorem Opened.not_mem (ho : Opened h₀ h pre a p c b post) :
    p ∉ pre.map Prod.fst ∧ p ∉ post.map Prod.fst := by
  have hnodup := List.nodup_middle.mp ho.nodup
  rw [List.nodup_cons, List.mem_append, not_or] at hnodup
  exact hnodup.1

/-- A list is opened at one of its cells. -/
theorem Linked.opened (hl : h.Linked none (pre ++ (p, x) :: post) none)
    (hnodup : ((pre ++ (p, x) :: post).map Prod.fst).Nodup) :
    Opened h h pre (some p) p ⟨x, first post none, last none pre⟩ (some p) post := by
  obtain ⟨hpre, hcell, hpost⟩ := linked_append.mp hl
  exact ⟨hpre, hcell, hpost, by rwa [List.map_append, List.map_cons] at hnodup, fun _ _ => rfl⟩

/-- A list is opened where a cell from elsewhere is to come. -/
theorem Linked.openedAt (hl : h.Linked none (pre ++ post) none)
    (hnodup : ((pre ++ post).map Prod.fst).Nodup) (hc : h.cells p = some c)
    (hp : p ∉ (pre ++ post).map Prod.fst) :
    Opened h h pre (first post none) p c (last none pre) post := by
  obtain ⟨hpre, hpost⟩ := linked_append.mp hl
  refine ⟨hpre, hc, hpost, List.nodup_middle.mpr ?_, fun _ _ => rfl⟩
  rw [← List.map_append]
  exact List.nodup_cons.mpr ⟨hp, hnodup⟩

/-- **Once all links agree, the cell is in the list.** -/
theorem Opened.linked (ho : Opened h₀ h pre (some p) p ⟨x, first post none, last none pre⟩ (some p)
    post) : h.Linked none (pre ++ (p, x) :: post) none :=
  linked_append.mpr ⟨ho.before, ho.cell, ho.behind⟩

/-- **Once the lists before and behind are linked to each other, the cell is out of the list.** -/
theorem Opened.unlinked (ho : Opened h₀ h pre (first post none) p c (last none pre) post) :
    h.Linked none (pre ++ post) none := linked_append.mpr ⟨ho.before, ho.behind⟩

/-- Put in, it makes a list of distinct cells. -/
theorem Opened.nodup_linked (ho : Opened h₀ h pre a p c b post) (x : α) :
    ((pre ++ (p, x) :: post).map Prod.fst).Nodup := by
  rw [List.map_append, List.map_cons]
  exact ho.nodup

/-- Without it the cells are distinct, too. -/
theorem Opened.nodup_unlinked (ho : Opened h₀ h pre a p c b post) :
    ((pre ++ post).map Prod.fst).Nodup := by
  rw [List.map_append]
  exact (List.nodup_cons.mp (List.nodup_middle.mp ho.nodup)).2

/-! ## One assignment -/

theorem Opened.nil_before (ho : Opened h₀ h [] a p c b post) (a' : Pointer) :
    Opened h₀ h [] a' p c b post := ⟨trivial, ho.cell, ho.behind, ho.nodup, ho.frame⟩

/-- With nothing behind there is no backward link to speak of. -/
theorem Opened.nil_behind (ho : Opened h₀ h pre a p c b []) (b' : Pointer) :
    Opened h₀ h pre a p c b' [] := ⟨ho.before, ho.cell, trivial, ho.nodup, ho.frame⟩

theorem Opened.write (ho : Opened h₀ h pre a p c b post) (c' : Cell α) :
    Opened h₀ (h.write p c') pre a p c' b post where
  before := ho.before.write ho.not_mem.1
  cell := cells_write_self
  behind := ho.behind.write ho.not_mem.2
  nodup := ho.nodup
  frame q hq := (cells_write_of_ne fun heq => hq (by simp [heq])).trans (ho.frame q hq)

/-- The forward link of the cell in the middle can be set. -/
theorem Opened.setNext_cell (ho : Opened h₀ h pre a p c b post) (next : Pointer) :
    ∃ h', h.setNext (some p) next = some h' ∧
      Opened h₀ h' pre a p { c with next := next } b post :=
  ⟨_, setNext_eq ho.cell, ho.write _⟩

theorem Opened.setPrev_cell (ho : Opened h₀ h pre a p c b post) (prev : Pointer) :
    ∃ h', h.setPrev (some p) prev = some h' ∧
      Opened h₀ h' pre a p { c with prev := prev } b post :=
  ⟨_, setPrev_eq ho.cell, ho.write _⟩

/-- The last link of the list before is turned. -/
theorem Opened.setNext_before (ho : Opened h₀ h pre a p c b post) (hq : last none pre = some q)
    (a' : Pointer) : ∃ h', h.setNext (some q) a' = some h' ∧ Opened h₀ h' pre a' p c b post := by
  obtain ⟨init, x, rfl⟩ := exists_of_last hq
  obtain ⟨hinit, hcell, -⟩ := linked_append.mp ho.before
  have hnodup := ho.nodup
  rw [List.map_append, List.append_assoc, List.map_singleton, List.singleton_append] at hnodup
  obtain ⟨hqrest, -⟩ := List.nodup_cons.mp (List.nodup_middle.mp hnodup)
  simp only [List.mem_append, List.mem_cons, not_or] at hqrest
  obtain ⟨hqinit, hqp, hqpost⟩ := hqrest
  refine ⟨_, setNext_eq hcell, ?_⟩
  exact
    { before := linked_append.mpr ⟨hinit.write hqinit, cells_write_self, trivial⟩
      cell := (cells_write_of_ne fun heq => hqp heq.symm).trans ho.cell
      behind := ho.behind.write hqpost
      nodup := ho.nodup
      frame := fun r hr => (cells_write_of_ne fun heq => hr (by simp [heq])).trans (ho.frame r hr) }

/-- The first link of the list behind is turned. -/
theorem Opened.setPrev_behind (ho : Opened h₀ h pre a p c b post) (hq : first post none = some q)
    (b' : Pointer) : ∃ h', h.setPrev (some q) b' = some h' ∧ Opened h₀ h' pre a p c b' post := by
  obtain ⟨x, rest, rfl⟩ := exists_of_first hq
  obtain ⟨hcell, hrest⟩ := ho.behind
  have hnodup := ho.nodup
  rw [List.map_cons, ← List.singleton_append, ← List.append_assoc] at hnodup
  obtain ⟨hqrest, -⟩ := List.nodup_cons.mp (List.nodup_middle.mp hnodup)
  simp only [List.mem_append, List.mem_singleton, not_or] at hqrest
  obtain ⟨⟨hqpre, hqp⟩, hqpost⟩ := hqrest
  refine ⟨_, setPrev_eq hcell, ?_⟩
  exact
    { before := ho.before.write hqpre
      cell := (cells_write_of_ne fun heq => hqp heq.symm).trans ho.cell
      behind := ⟨cells_write_self, hrest.write hqpost⟩
      nodup := ho.nodup
      frame := fun r hr => (cells_write_of_ne fun heq => hr (by simp [heq])).trans (ho.frame r hr) }

/-- The last link of the list before is turned, if there is one. -/
theorem Opened.setNextIf_before (ho : Opened h₀ h pre a p c b post) (a' : Pointer) :
    ∃ h', h.setNextIf (last none pre) a' = some h' ∧ Opened h₀ h' pre a' p c b post := by
  rw [setNextIf]
  cases hlast : last none pre with
  | none =>
    obtain rfl := last_eq_none.mp hlast
    exact ⟨h, rfl, ho.nil_before a'⟩
  | some q => exact ho.setNext_before hlast a'

/-- The backward link of the cell behind is set if there is one. -/
theorem Opened.setPrevIf_behind (ho : Opened h₀ h pre a p c b post) (b' : Pointer) :
    ∃ h', h.setPrevIf (first post none) b' = some h' ∧ Opened h₀ h' pre a p c b' post := by
  rw [setPrevIf]
  cases hfirst : first post none with
  | none =>
    obtain rfl := first_eq_none.mp hfirst
    exact ⟨h, rfl, ho.nil_behind b'⟩
  | some q => exact ho.setPrev_behind hfirst b'

/-! ## Following links -/

/-- The cells visited from `p` on, if `link` leads to null within `fuel` cells. -/
def walk (link : Cell α → Pointer) (h : Heap α) : ℕ → Pointer → Option (List (ℕ × α))
  | _, none => some []
  | 0, some _ => none
  | fuel + 1, some p => (h.cells p).bind fun c =>
    (walk link h fuel (link c)).map fun l => (p, c.val) :: l

theorem walk_none {link : Cell α → Pointer} {fuel : ℕ} : walk link h fuel none = some [] := by
  rw [walk]

/-- Otherwise it takes a cell, and goes on along its link. -/
theorem walk_some {link : Cell α → Pointer} {fuel : ℕ} (hc : h.cells p = some c) :
    walk link h (fuel + 1) (some p)
      = (walk link h fuel (link c)).map fun l => (p, c.val) :: l := by
  rw [walk, hc, Option.bind_some]

/-- There are `top` addresses below `top`. -/
theorem length_le_of_lt {top : ℕ} (hnodup : (l.map Prod.fst).Nodup)
    (hlt : ∀ p ∈ l.map Prod.fst, p < top) : l.length ≤ top := by
  have hsub : l.map Prod.fst ⊆ List.range top := fun p hp => List.mem_range.mpr (hlt p hp)
  have hle := (hnodup.subperm hsub).length_le
  rwa [List.length_map, List.length_range] at hle

/-- A linked list has no more cells than there are addresses. -/
theorem Linked.length_le_top (hl : h.Linked prev l next) (hnodup : (l.map Prod.fst).Nodup) :
    l.length ≤ h.top :=
  length_le_of_lt hnodup fun p hp => Nat.lt_of_not_le fun hge => hl.ne_none hp (h.free_top p hge)

/-- **Following `next` from the first cell visits the list.** -/
theorem Linked.walk_next (hl : h.Linked prev l none) {fuel : ℕ} (hfuel : l.length ≤ fuel) :
    walk Cell.next h fuel (first l none) = some l := by
  induction l generalizing prev fuel with
  | nil => exact walk_none
  | cons x l ih =>
    obtain ⟨hx, hl⟩ := hl
    obtain ⟨fuel, rfl⟩ := Nat.exists_eq_add_of_le' (Nat.succ_le_of_lt (Nat.zero_lt_of_lt hfuel))
    rw [first_cons, walk_some hx, ih hl (Nat.le_of_succ_le_succ hfuel), Option.map_some]

/-- **Following `prev` from the last cell visits it backwards.** -/
theorem Linked.walk_prev (hl : h.Linked none l next) {fuel : ℕ} (hfuel : l.length ≤ fuel) :
    walk Cell.prev h fuel (last none l) = some l.reverse := by
  induction l using List.reverseRecOn generalizing next fuel with
  | nil => exact walk_none
  | append_singleton init x ih =>
    obtain ⟨hinit, hx, -⟩ := linked_append.mp hl
    rw [List.length_append, List.length_singleton] at hfuel
    obtain ⟨fuel, rfl⟩ := Nat.exists_eq_add_of_le' (Nat.succ_le_of_lt (Nat.zero_lt_of_lt hfuel))
    rw [last_concat, walk_some hx, ih hinit (Nat.le_of_succ_le_succ hfuel), Option.map_some,
      List.reverse_append]
    rfl

end Heap
