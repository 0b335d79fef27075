import Mathlib.Data.List.Sort

/-!
# Machinery/Sorting — what a sorting routine owes its caller

A routine in the style of `qsort` is given a comparison that answers with the sign of an integer.
It owes nothing where the comparison contradicts itself; where it puts the elements in a row, one
before the other whichever way round it is asked (`Before`), the routine returns that row (`Sorts`).

* `Sorts.pairwise_key` — if the comparison follows a key, and no key occurs twice, the result
  ascends by that key.
* `sorts_insertionSort` — insertion sort is such a routine.
-/

namespace Sorting

variable {α κ : Type*} {sort : (α → α → ℤ) → List α → List α} {cmp : α → α → ℤ} {a b : α}
  {l : List α}

/-- The comparison puts `a` before `b`, whichever way round it is asked. -/
def Before (cmp : α → α → ℤ) (a b : α) : Prop := cmp a b < 0 ∧ 0 < cmp b a

/-- **A sorting routine**: where the comparison puts the elements in a row, it finds that row. -/
def Sorts (sort : (α → α → ℤ) → List α → List α) : Prop :=
  ∀ cmp l l', l'.Perm l → l'.Pairwise (Before cmp) → sort cmp l = l'

/-- **Where the comparison follows a key that does not repeat, the result ascends by the key.** -/
theorem Sorts.pairwise_key [LinearOrder κ] (h : Sorts sort) {key : α → κ}
    (hkey : ∀ a b, key a < key b → Before cmp a b) (hnodup : (l.map key).Nodup) :
    (sort cmp l).Pairwise fun a b => key a < key b := by
  have hperm := List.perm_insertionSort (fun a b => key a ≤ key b) l
  have hle : (l.insertionSort fun a b => key a ≤ key b).Pairwise fun a b => key a ≤ key b :=
    @List.pairwise_insertionSort _ _ _ ⟨fun a b => le_total (key a) (key b)⟩
      ⟨fun _ _ _ => le_trans⟩ l
  have hne : (l.insertionSort fun a b => key a ≤ key b).Pairwise fun a b => key a ≠ key b :=
    List.pairwise_map.mp ((hperm.map key).nodup_iff.mpr hnodup)
  have hlt := (hle.and hne).imp fun hab => lt_of_le_of_ne hab.1 hab.2
  rwa [h cmp l _ hperm (hlt.imp fun hab => hkey _ _ hab)]

/-! ## Insertion sort

There is a routine that meets the contract, so nothing that follows from it is empty. -/

/-- An element is inserted where the row has its place. -/
theorem orderedInsert_row {pre post : List α} (h : (pre ++ a :: post).Pairwise (Before cmp)) :
    (pre ++ post).orderedInsert (fun p q => cmp p q ≤ 0) a = pre ++ a :: post := by
  induction pre with
  | nil =>
    cases post with
    | nil => rfl
    | cons b post =>
      have hab : Before cmp a b := List.rel_of_pairwise_cons h List.mem_cons_self
      exact List.orderedInsert_cons_of_le _ _ hab.1.le
  | cons b pre ih =>
    rw [List.cons_append, List.pairwise_cons] at h
    have hba : Before cmp b a := h.1 a (List.mem_append_right _ List.mem_cons_self)
    rw [List.cons_append, List.cons_append, List.orderedInsert_of_not_le
      (r := fun p q => cmp p q ≤ 0) _ (not_le.mpr hba.2), ih h.2]

/-- **Insertion sort is such a routine.** -/
theorem sorts_insertionSort :
    Sorts fun (cmp : α → α → ℤ) l => l.insertionSort fun p q => cmp p q ≤ 0 := by
  intro cmp l
  induction l with
  | nil => exact fun l' hperm _ => hperm.eq_nil.symm
  | cons a l ih =>
    intro l' hperm hrow
    obtain ⟨pre, post, rfl⟩ := List.append_of_mem (hperm.symm.subset List.mem_cons_self)
    have hrest : (pre ++ post).Perm l := (List.perm_middle.symm.trans hperm).cons_inv
    have hsub : (pre ++ post).Sublist (pre ++ a :: post) :=
      (List.sublist_cons_self a post).append_left pre
    have hsorted := ih _ hrest (hrow.sublist hsub)
    exact (congrArg (List.orderedInsert _ a) hsorted).trans (orderedInsert_row hrow)

end Sorting
