import Mathlib.Algebra.BigOperators.Fin
import Mathlib.Algebra.Order.BigOperators.Group.Finset
import Mathlib.Data.Vector.Basic

/-!
# Machinery/Table — tables of a fixed size

A table is a `Vector`; `firstIdx p` is the loop that stops at the first cell with `p`, and `total f`
adds `f` up over the cells.  Writing one cell changes the total by what that cell counts
(`total_set`).
-/

namespace Table

variable {α : Type*} {n : ℕ}

/-- The first cell with `p`. -/
def firstIdx (p : α → Bool) (v : Vector α n) : Option (Fin n) :=
  (List.finRange n).find? fun i => p v[i]

/-- `f`, added up over the cells. -/
def total (f : α → ℕ) (v : Vector α n) : ℕ := ∑ i : Fin n, f v[i]

variable {p : α → Bool} {v : Vector α n} {i : Fin n}

theorem firstIdx_some (h : firstIdx p v = some i) : p v[i] := by
  simpa using List.find?_some h

/-- Nothing is found exactly if no cell has it. -/
theorem firstIdx_none : firstIdx p v = none ↔ ∀ j : Fin n, p v[j] = false := by
  simp [firstIdx]

/-- **What is found is the first cell that has it.** -/
theorem firstIdx_eq_some :
    firstIdx p v = some i ↔ p v[i] ∧ ∀ j : Fin n, j < i → p v[j] = false := by
  rw [firstIdx, List.find?_eq_some_iff_getElem]
  constructor
  · rintro ⟨hi, k, hk, rfl, hlt⟩
    rw [List.getElem_finRange] at hi ⊢
    refine ⟨hi, fun j hj => ?_⟩
    simpa using hlt j hj
  · rintro ⟨hi, hlt⟩
    refine ⟨hi, i, by simp, by simp, fun j hj => ?_⟩
    simpa using hlt ⟨j, hj.trans i.isLt⟩ hj

/-- Writing a cell changes that one and no other. -/
theorem getElem_set (v : Vector α n) (i j : Fin n) (x : α) :
    (v.set i x)[j] = if j = i then x else v[j] := by
  rw [Fin.getElem_fin, Fin.getElem_fin, Vector.getElem_set]
  simp only [Fin.ext_iff, eq_comm]

/-- Writing back what is there changes nothing. -/
theorem set_getElem_self (v : Vector α n) (i : Fin n) : v.set i v[i] = v :=
  Vector.set_getElem_self _

/-- What is in a table is in a cell of it. -/
theorem mem_iff_getElem {x : α} : x ∈ v ↔ ∃ j : Fin n, v[j] = x := by
  rw [Vector.mem_iff_getElem]
  exact ⟨fun ⟨j, hj, h⟩ => ⟨⟨j, hj⟩, h⟩, fun ⟨j, h⟩ => ⟨j, j.isLt, h⟩⟩

theorem getElem_mem (v : Vector α n) (j : Fin n) : v[j] ∈ v := mem_iff_getElem.mpr ⟨j, rfl⟩

/-- The cells after one is written: the new one, and the others. -/
theorem mem_set {x y : α} : y ∈ v.set i x ↔ y = x ∨ ∃ j, j ≠ i ∧ v[j] = y := by
  rw [mem_iff_getElem]
  constructor
  · rintro ⟨j, h⟩
    rw [getElem_set] at h
    by_cases hj : j = i
    · rw [if_pos hj] at h
      exact Or.inl h.symm
    · rw [if_neg hj] at h
      exact Or.inr ⟨j, hj, h⟩
  · rintro (rfl | ⟨j, hj, h⟩)
    · exact ⟨i, by rw [getElem_set, if_pos rfl]⟩
    · exact ⟨j, by rw [getElem_set, if_neg hj, h]⟩

/-- The total is a sum over the cells in order. -/
theorem total_eq_sum (f : α → ℕ) (v : Vector α n) : total f v = (v.toList.map f).sum := by
  rw [total, ← List.sum_ofFn]
  congr 1
  refine List.ext_getElem (by simp) fun i h₁ h₂ => ?_
  simp

theorem total_congr {β : Type*} {f : α → ℕ} {g : β → ℕ} {w : Vector β n}
    (h : ∀ j : Fin n, f v[j] = g w[j]) : total f v = total g w :=
  Finset.sum_congr rfl fun j _ => h j

/-- **Writing a cell moves the total by what the cell counts.** -/
theorem total_set (f : α → ℕ) (v : Vector α n) (i : Fin n) (x : α) :
    total f (v.set i x) + f v[i] = total f v + f x := by
  have hrest : ∑ j ∈ Finset.univ.erase i, f (v.set i x)[j]
      = ∑ j ∈ Finset.univ.erase i, f v[j] :=
    Finset.sum_congr rfl fun j hj => by rw [getElem_set, if_neg (Finset.ne_of_mem_erase hj)]
  have hnew := Finset.add_sum_erase Finset.univ (fun j : Fin n => f (v.set i x)[j])
    (Finset.mem_univ i)
  have hold := Finset.add_sum_erase Finset.univ (fun j : Fin n => f v[j]) (Finset.mem_univ i)
  simp only [getElem_set v i i, if_true] at hnew
  rw [total, total, ← hnew, ← hold, hrest]
  omega

theorem le_total (f : α → ℕ) (v : Vector α n) (i : Fin n) : f v[i] ≤ total f v :=
  Finset.single_le_sum_of_canonicallyOrdered (f := fun j : Fin n => f v[j]) (Finset.mem_univ i)

end Table
