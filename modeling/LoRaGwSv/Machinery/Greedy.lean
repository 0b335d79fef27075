import Mathlib.Data.List.Basic

/-!
# Machinery/Greedy — loads that are handed out one at a time

Each of a list of loads gets its share, the least one next (`IsLeastAt`).  Then they never differ by
more than the largest share so far (`Balanced.add`).
-/

namespace Greedy

variable {α : Type*} {load : α → ℕ} {D d m : ℕ} {l : List α} {x x' : α}

/-- Any two loads differ by at most `D`. -/
def Balanced (load : α → ℕ) (D : ℕ) (l : List α) : Prop := ∀ x ∈ l, ∀ y ∈ l, load x ≤ load y + D

/-- The first of the least loads is at position `m`. -/
structure IsLeastAt (load : α → ℕ) (l : List α) (m : ℕ) (x : α) : Prop where
  get : l[m]? = some x
  le : ∀ y ∈ l, load x ≤ load y
  lt : ∀ j < m, ∀ y, l[j]? = some y → load x < load y

/-- What is balanced up to a bound is so up to any greater one. -/
theorem Balanced.mono (h : Balanced load d l) (hd : d ≤ D) : Balanced load D l :=
  fun x hx y hy => Nat.le_trans (h x hx y hy) (Nat.add_le_add_left hd _)

/-- **The least load may grow by what all may differ by.** -/
theorem Balanced.add (h : Balanced load D l) (hleast : IsLeastAt load l m x) (hd : d ≤ D)
    (hx' : load x' = load x + d) : Balanced load D (l.set m x') := by
  have hx := List.mem_of_getElem? hleast.get
  intro y hy z hz
  rcases List.mem_or_eq_of_mem_set hy with hy | hy
  · have hyz : ∀ z ∈ l, load y ≤ load z + D := h y hy
    rcases List.mem_or_eq_of_mem_set hz with hz | hz
    · exact hyz z hz
    · have := hyz x hx
      rw [hz]
      omega
  · rw [hy]
    rcases List.mem_or_eq_of_mem_set hz with hz | hz
    · have := hleast.le z hz
      omega
    · rw [hz]
      omega

end Greedy
